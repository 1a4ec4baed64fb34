import Zinder.Lib.While
import Zinder.Mempool.EventStore

/-!
# Zinder.Mempool.Retention

Bounded retention steps over the mempool event log (`advance_mempool_event_retention`).

A step resumes a forward scan from the retention floor. The scan stops for good at the captured head
or at the first event whose window has not expired; below that it keeps the sequence of every add
that is still open, and the prefix in front of the earliest open add (and of the head) may be
deleted. The scan's progress lives in the process: it survives a step whose write failed and is lost
on a restart.

Both loops of a step examine one event per turn and are bounded by the step's event budget, which
cuts nothing short (`retention_loops_end`).
-/

namespace Zinder.Mempool

open Std (ExtTreeMap)

/-! ## Settings and reports -/

/-- A duration in nanoseconds. -/
abbrev Duration := Nat

def Duration.asMillis (d : Duration) : Nat := d / 10 ^ 6

/-- Per-variant retention windows; `none` keeps every event of the variant. -/
structure MempoolEventRetentionConfig where
  addedRetention : Option Duration
  minedRetention : Option Duration
  invalidatedRetention : Option Duration
deriving DecidableEq

def MempoolEventRetentionConfig.isUnbounded (c : MempoolEventRetentionConfig) : Bool :=
  c.addedRetention.isNone && c.minedRetention.isNone && c.invalidatedRetention.isNone

/-- The work budget of one step. -/
structure MempoolEventRetentionStepBudget where
  maxEvents : Nat
  maxEncodedBytes : Nat
  maxEvents_pos : 0 < maxEvents
  maxEvents_lt : maxEvents < u32Bound
  maxEncodedBytes_pos : 0 < maxEncodedBytes

inductive MempoolEventRetentionStepStop where
  | budgetExhausted
  | reachedHead
  | reachedUnexpiredEvent
  | retentionDisabled
deriving DecidableEq

structure MempoolEventRetentionReport where
  currentEventSequence : Nat
  oldestRetainedSequence : Option Nat
  oldestRetainedObservedAt : Option U64
  retainedEventCount : Nat
  prunedAddedCount : Nat
  prunedMinedCount : Nat
  prunedInvalidatedCount : Nat
deriving DecidableEq

def MempoolEventRetentionReport.default : MempoolEventRetentionReport := ⟨0, none, none, 0, 0, 0, 0⟩

structure MempoolEventRetentionStepOutcome where
  report : MempoolEventRetentionReport
  examinedEventCount : Nat
  examinedEncodedBytes : Nat
  stop : MempoolEventRetentionStepStop
deriving DecidableEq

/-! ## Scan progress -/

/-- Process-local progress of one resumable scan. -/
structure MempoolEventRetentionProgress where
  expectedFloor : Nat
  capturedHead : Nat
  nextSequence : Nat
  activeAddSequences : ExtTreeMap TransactionId Nat
  observedAt : U64
  retention : MempoolEventRetentionConfig
  prunableThrough : Nat
  terminalStop : Option MempoolEventRetentionStepStop

structure MempoolRetentionStepWork where
  batch : List RowOp
  newFloor : Nat
  examinedEventCount : Nat
  examinedEncodedBytes : Nat
  prunedAddedCount : Nat
  prunedMinedCount : Nat
  prunedInvalidatedCount : Nat

namespace MempoolRetentionStepWork

def new (oldestRetainedSequence : Nat) : MempoolRetentionStepWork :=
  ⟨[], oldestRetainedSequence, 0, 0, 0, 0, 0⟩

variable (w : MempoolRetentionStepWork)

def canReadAnother (budget : MempoolEventRetentionStepBudget) : Prop :=
  w.examinedEventCount < budget.maxEvents ∧
    (w.examinedEventCount = 0 ∨ w.examinedEncodedBytes < budget.maxEncodedBytes)

def canExamine (encodedBytes : Nat) (budget : MempoolEventRetentionStepBudget) : Prop :=
  w.examinedEventCount < budget.maxEvents ∧
    (w.examinedEventCount = 0 ∨
      min (w.examinedEncodedBytes + encodedBytes) (u64Bound - 1) ≤ budget.maxEncodedBytes)

instance (w : MempoolRetentionStepWork) (budget : MempoolEventRetentionStepBudget) :
    Decidable (w.canReadAnother budget) := inferInstanceAs (Decidable (_ ∧ _))

instance (w : MempoolRetentionStepWork) (encodedBytes : Nat)
    (budget : MempoolEventRetentionStepBudget) : Decidable (w.canExamine encodedBytes budget) :=
  inferInstanceAs (Decidable (_ ∧ _))

def recordExamined (encodedBytes : Nat) : MempoolRetentionStepWork :=
  { w with
    examinedEventCount := min (w.examinedEventCount + 1) (u32Bound - 1)
    examinedEncodedBytes := min (w.examinedEncodedBytes + encodedBytes) (u64Bound - 1) }

def incrementPrunedCount : MempoolEvent → MempoolRetentionStepWork
  | .added _ => { w with prunedAddedCount := min (w.prunedAddedCount + 1) (u64Bound - 1) }
  | .mined _ _ _ => { w with prunedMinedCount := min (w.prunedMinedCount + 1) (u64Bound - 1) }
  | .invalidated _ _ =>
    { w with prunedInvalidatedCount := min (w.prunedInvalidatedCount + 1) (u64Bound - 1) }

/-- The work after one event has been taken off the front of the log. -/
def prune (envelope : MempoolEventEnvelope) (encodedBytes : Nat) : MempoolRetentionStepWork :=
  let counted := w.incrementPrunedCount envelope.event
  { (MempoolRetentionStepWork.recordExamined
      { counted with batch := counted.batch ++ [.deleteEvent w.newFloor] } encodedBytes) with
    newFloor := min (w.newFloor + 1) (u64Bound - 1) }

end MempoolRetentionStepWork

def encodedByteCount (encodedEvent : Bytes) : Nat := min encodedEvent.length (u64Bound - 1)

def retentionWindowFor (event : MempoolEvent) (retention : MempoolEventRetentionConfig) :
    Option Duration :=
  match event with
  | .added _ => retention.addedRetention
  | .mined _ _ _ => retention.minedRetention
  | .invalidated _ _ => retention.invalidatedRetention

def ageExceedsWindow (now observedAtMillis : U64) (window : Duration) : Bool :=
  min window.asMillis (u64Bound - 1) < now.val - observedAtMillis.val

def updateActiveAddSequences (active : ExtTreeMap TransactionId Nat) (eventSequence : Nat) :
    MempoolEvent → ExtTreeMap TransactionId Nat
  | .added entry => active.insert entry.transactionId eventSequence
  | .invalidated transactionId _ => active.erase transactionId
  | .mined transactionId _ _ => active.erase transactionId

def prunableThrough (latestInspectedSequence capturedHead : Nat)
    (active : ExtTreeMap TransactionId Nat) : Nat :=
  let beforeHead := min latestInspectedSequence (capturedHead - 1)
  match (active.toList.map Prod.snd).min? with
  | none => beforeHead
  | some earliestActiveAdd => min beforeHead (earliestActiveAdd - 1)

/-! ## The two loops of a step -/

variable (E : LogEnv) (rows : MempoolRows) (budget : MempoolEventRetentionStepBudget)

variable (progress : MempoolEventRetentionProgress)

variable (work : MempoolRetentionStepWork)

/-- One turn of `delete_prunable_mempool_events`. -/
def deleteTurn : Except MempoolLogError (Turn MempoolRetentionStepWork) :=
  if work.newFloor ≤ progress.prunableThrough ∧ work.canReadAnother budget then do
    let encodedEvent ← readEncodedMempoolEvent rows work.newFloor
    if work.canExamine (encodedByteCount encodedEvent) budget then do
      let envelope ← decodeMempoolEvent E work.newFloor encodedEvent
      .ok (.again (work.prune envelope (encodedByteCount encodedEvent)))
    else .ok (.leave work)
  else .ok (.leave work)

def deletePrunableMempoolEvents : Except MempoolLogError MempoolRetentionStepWork :=
  (whileLoop (deleteTurn E rows budget progress) (budget.maxEvents + 1) work).map Turn.state

abbrev StepState := MempoolEventRetentionProgress × MempoolRetentionStepWork

def MempoolEventRetentionProgress.inspect (p : MempoolEventRetentionProgress)
    (event : MempoolEvent) : MempoolEventRetentionProgress :=
  let eventSequence := p.nextSequence
  let active := updateActiveAddSequences p.activeAddSequences eventSequence event
  { p with
    activeAddSequences := active
    terminalStop := if eventSequence = p.capturedHead then some .reachedHead else p.terminalStop
    nextSequence :=
      if eventSequence = p.capturedHead then p.nextSequence
      else min (eventSequence + 1) (u64Bound - 1)
    prunableThrough := Mempool.prunableThrough eventSequence p.capturedHead active }

/-- Whether an event's retention window has expired at the scan's observation time. -/
def expired (p : MempoolEventRetentionProgress) (envelope : MempoolEventEnvelope) : Bool :=
  match retentionWindowFor envelope.event p.retention with
  | none => false
  | some window => ageExceedsWindow p.observedAt envelope.sourceObservedUnixMillis window

variable (s : StepState)

/-- One turn of `scan_expired_mempool_events`. -/
def scanTurn : Except MempoolLogError (Turn StepState) :=
  let (progress, work) := s
  if work.newFloor > progress.prunableThrough ∧ progress.terminalStop = none ∧
      progress.nextSequence ≤ progress.capturedHead ∧ work.canReadAnother budget then do
    let encodedEvent ← readEncodedMempoolEvent rows progress.nextSequence
    if work.canExamine (encodedByteCount encodedEvent) budget then do
      let envelope ← decodeMempoolEvent E progress.nextSequence encodedEvent
      let work := work.recordExamined (encodedByteCount encodedEvent)
      if expired progress envelope then .ok (.again (progress.inspect envelope.event, work))
      else .ok (.leave ({ progress with terminalStop := some .reachedUnexpiredEvent }, work))
    else .ok (.leave s)
  else .ok (.leave s)

/-- A turn of the scan that keeps, with an error, the progress it fails in. -/
def scanTurnKeeping : Except (MempoolLogError × MempoolEventRetentionProgress) (Turn StepState) :=
  (scanTurn E rows budget s).mapError fun e => (e, s.1)

def scanExpiredMempoolEvents : Except (MempoolLogError × MempoolEventRetentionProgress) StepState :=
  (whileLoop (scanTurnKeeping E rows budget) (budget.maxEvents + 1) s).map Turn.state

/-- One round of `perform_mempool_retention_step`: delete, then scan. -/
def retentionRound : Except (MempoolLogError × MempoolEventRetentionProgress) (Turn StepState) := do
  let work ← (deletePrunableMempoolEvents E rows budget s.1 s.2).mapError fun e => (e, s.1)
  let s' ← scanExpiredMempoolEvents E rows budget (s.1, work)
  if s'.2.examinedEventCount ≠ s.2.examinedEventCount ∨ s'.2.newFloor ≠ s.2.newFloor ∨
      s'.1.nextSequence ≠ s.1.nextSequence then .ok (.again s')
  else .ok (.leave s')

def performMempoolRetentionStep (oldestRetainedSequence : Nat) :
    Except (MempoolLogError × MempoolEventRetentionProgress) StepState :=
  (whileLoop (retentionRound E rows budget) (budget.maxEvents + 1)
    (progress, .new oldestRetainedSequence)).map Turn.state

/-! ## The loops end within their budget -/

section Fuel

variable {E rows budget}

variable (w : MempoolRetentionStepWork) (envelope : MempoolEventEnvelope)

@[simp] theorem prune_newFloor (n : Nat) :
    (w.prune envelope n).newFloor = min (w.newFloor + 1) (u64Bound - 1) := rfl

@[simp] theorem recordExamined_newFloor (n : Nat) :
    (w.recordExamined n).newFloor = w.newFloor := rfl

@[simp] theorem prune_batch (n : Nat) :
    (w.prune envelope n).batch = w.batch ++ [.deleteEvent w.newFloor] := by
  cases h : envelope.event <;>
    simp [MempoolRetentionStepWork.prune, MempoolRetentionStepWork.incrementPrunedCount,
      MempoolRetentionStepWork.recordExamined, h]

theorem recordExamined_examined {w : MempoolRetentionStepWork} (h : w.canReadAnother budget)
    (n : Nat) : (w.recordExamined n).examinedEventCount = w.examinedEventCount + 1 := by
  have := budget.maxEvents_lt
  have := h.1
  simp only [MempoolRetentionStepWork.recordExamined]
  omega

theorem prune_examined {w : MempoolRetentionStepWork} (h : w.canReadAnother budget)
    (envelope : MempoolEventEnvelope) (n : Nat) :
    (w.prune envelope n).examinedEventCount = w.examinedEventCount + 1 := by
  have := budget.maxEvents_lt
  have := h.1
  cases he : envelope.event <;>
    simp only [MempoolRetentionStepWork.prune, MempoolRetentionStepWork.incrementPrunedCount,
      MempoolRetentionStepWork.recordExamined, he] <;> omega

variable {progress s work} {r : Turn StepState} {n : Nat}

/-- What a turn of the delete loop does: it leaves, or it takes the event at the floor off. -/
theorem deleteTurn_eq_ok {r : Turn MempoolRetentionStepWork}
    (h : deleteTurn E rows budget progress work = .ok r) :
    r = .leave work ∨ (work.newFloor ≤ progress.prunableThrough ∧ work.canReadAnother budget ∧
      ∃ envelope n, r = .again (work.prune envelope n)) := by
  rw [deleteTurn] at h
  split at h
  · next hguard =>
    simp only [bind_eq_ok] at h
    obtain ⟨encoded, _, h⟩ := h
    split at h
    · simp only [bind_eq_ok] at h
      obtain ⟨envelope, _, h⟩ := h
      cases h
      exact .inr ⟨hguard.1, hguard.2, envelope, _, rfl⟩
    · cases h
      exact .inl rfl
  · cases h
    exact .inl rfl

/-- What a turn of the scan does: it leaves, it inspects an expired event, or it ends the scan at an
event that has not expired. -/
theorem scanTurn_eq_ok (h : scanTurn E rows budget s = .ok r) :
    r = .leave s ∨
      (s.2.newFloor > s.1.prunableThrough ∧ s.1.terminalStop = none ∧
        s.1.nextSequence ≤ s.1.capturedHead ∧ s.2.canReadAnother budget ∧
        ∃ envelope n, readMempoolEvent E rows s.1.nextSequence = .ok envelope ∧
          (r = .again (s.1.inspect envelope.event, s.2.recordExamined n) ∨
            r = .leave ({ s.1 with terminalStop := some .reachedUnexpiredEvent },
              s.2.recordExamined n))) := by
  obtain ⟨progress, work⟩ := s
  simp only [scanTurn] at h
  split at h
  · next hguard =>
    simp only [bind_eq_ok] at h
    obtain ⟨encoded, hread, h⟩ := h
    split at h
    · simp only [bind_eq_ok] at h
      obtain ⟨envelope, hdecode, h⟩ := h
      refine .inr ⟨hguard.1, hguard.2.1, hguard.2.2.1, hguard.2.2.2, envelope,
        encodedByteCount encoded, ?_, ?_⟩
      · simp only [readMempoolEvent, hread, ok_bind]
        exact hdecode
      · split at h
        · cases h
          exact .inl rfl
        · cases h
          exact .inr rfl
    · cases h
      exact .inl rfl
  · cases h
    exact .inl rfl

theorem scanTurnKeeping_eq_ok :
    scanTurnKeeping E rows budget s = .ok r ↔ scanTurn E rows budget s = .ok r :=
  mapError_ok_iff

/-- Events the budget still allows. -/
def eventsLeft (budget : MempoolEventRetentionStepBudget) (work : MempoolRetentionStepWork) : Nat :=
  budget.maxEvents - work.examinedEventCount

theorem deleteTurn_eventsLeft {r : Turn MempoolRetentionStepWork}
    (h : deleteTurn E rows budget progress work = .ok r) :
    r = .leave work ∨ eventsLeft budget r.state < eventsLeft budget work := by
  rcases deleteTurn_eq_ok h with hleave | ⟨_, hread, envelope, n, rfl⟩
  · exact .inl hleave
  · have := hread.1
    rw [Turn.state, eventsLeft, eventsLeft, prune_examined hread]
    omega

theorem scanTurnKeeping_eventsLeft (h : scanTurnKeeping E rows budget s = .ok r) :
    r = .leave s ∨ eventsLeft budget r.state.2 < eventsLeft budget s.2 := by
  rcases scanTurn_eq_ok (scanTurnKeeping_eq_ok.mp h) with
    hleave | ⟨_, _, _, hread, envelope, n, _, hr⟩
  · exact .inl hleave
  · have hstate : r.state.2 = s.2.recordExamined n := by rcases hr with rfl | rfl <;> rfl
    have := hread.1
    rw [hstate, eventsLeft, eventsLeft, recordExamined_examined hread]
    omega

theorem retentionRound_eq_ok (h : retentionRound E rows budget s = .ok r) :
    ∃ work s', deletePrunableMempoolEvents E rows budget s.1 s.2 = .ok work ∧
      scanExpiredMempoolEvents E rows budget (s.1, work) = .ok s' ∧
      ((r = .again s' ∧ eventsLeft budget s'.2 < eventsLeft budget s.2) ∨
        (r = .leave s ∧ s' = s)) := by
  simp only [retentionRound, bind_eq_ok, mapError_ok_iff] at h
  obtain ⟨work, hdelete, s', hscan, h⟩ := h
  refine ⟨work, s', hdelete, hscan, ?_⟩
  obtain ⟨deleted, hdelete, hwork⟩ := state_eq_ok.mp hdelete
  obtain ⟨scanned, hscan, hs'⟩ := state_eq_ok.mp hscan
  have hdeleted := whileLoop_measure (eventsLeft budget) (fun _ _ => deleteTurn_eventsLeft) hdelete
  have hscanned := whileLoop_measure (fun s : StepState => eventsLeft budget s.2)
    (fun _ _ => scanTurnKeeping_eventsLeft) hscan
  rw [hwork] at hdeleted
  rw [hs'] at hscanned
  have hmoved : eventsLeft budget s'.2 < eventsLeft budget s.2 ∨ s' = s := by
    rcases hdeleted with hlt | rfl
    · rcases hscanned with hlt' | rfl
      · exact .inl (hlt'.trans hlt)
      · exact .inl hlt
    · exact hscanned
  rcases hmoved with hlt | rfl
  · have hne : s'.2.examinedEventCount ≠ s.2.examinedEventCount := fun heq => by
      simp [eventsLeft, heq] at hlt
    rw [if_pos (.inl hne)] at h
    cases h
    exact .inl ⟨rfl, hlt⟩
  · rw [if_neg (by simp)] at h
    cases h
    exact .inr ⟨rfl, rfl⟩

theorem retentionRound_eventsLeft (h : retentionRound E rows budget s = .ok r) :
    r = .leave s ∨ eventsLeft budget r.state.2 < eventsLeft budget s.2 := by
  obtain ⟨_, _, _, _, ⟨rfl, hlt⟩ | ⟨hr, _⟩⟩ := retentionRound_eq_ok h
  · exact .inr hlt
  · exact .inl hr

theorem eventsLeft_lt : eventsLeft budget work < budget.maxEvents + 1 :=
  Nat.lt_succ_of_le (Nat.sub_le _ _)

/-- The loops of a step end by themselves: within one turn more than the budget has events, a turn
fails or leaves them. A step that succeeds ends where one more round would change nothing. -/
theorem retention_loops_end (floor : Nat) :
    ((∃ e, whileLoop (deleteTurn E rows budget progress) (budget.maxEvents + 1) work = .error e) ∨
      ∃ t, whileLoop (deleteTurn E rows budget progress) (budget.maxEvents + 1) work =
        .ok (.leave t)) ∧
    ((∃ e, whileLoop (scanTurnKeeping E rows budget) (budget.maxEvents + 1) s = .error e) ∨
      ∃ t, whileLoop (scanTurnKeeping E rows budget) (budget.maxEvents + 1) s = .ok (.leave t)) ∧
    ((∃ e, performMempoolRetentionStep E rows budget progress floor = .error e) ∨
      ∃ t, whileLoop (retentionRound E rows budget) (budget.maxEvents + 1) (progress, .new floor) =
          .ok (.leave t) ∧
        performMempoolRetentionStep E rows budget progress floor = .ok t ∧
        retentionRound E rows budget t = .ok (.leave t)) := by
  refine ⟨?_, ?_, ?_⟩
  · refine (whileLoop_ends (eventsLeft budget) (fun _ _ => deleteTurn_eventsLeft)
      eventsLeft_lt).imp_right ?_
    rintro ⟨t, -, hleave, -⟩
    exact ⟨t, hleave⟩
  · refine (whileLoop_ends (eventsLeft budget ·.2) (fun _ _ => scanTurnKeeping_eventsLeft)
      eventsLeft_lt).imp_right ?_
    rintro ⟨t, -, hleave, -⟩
    exact ⟨t, hleave⟩
  · rcases whileLoop_ends (s := (progress, .new floor)) (eventsLeft budget ·.2)
      (fun _ _ => retentionRound_eventsLeft) eventsLeft_lt with ⟨e, herror⟩ | ⟨t, s', hleave, hround⟩
    · exact .inl ⟨e, state_eq_error.mpr herror⟩
    · -- The round that leaves has left its state as it was.
      obtain ⟨_, _, _, _, ⟨hagain, _⟩ | ⟨hsame, _⟩⟩ := retentionRound_eq_ok hround
      · cases hagain
      · cases hsame
        exact .inr ⟨t, hleave, state_eq_ok.mpr ⟨_, hleave, rfl⟩, hround⟩

end Fuel

/-! ## The step -/

/-- The primary's mempool log: the durable rows and the process-local scan progress. -/
structure MempoolEventStore where
  rows : MempoolRows
  retentionProgress : Option MempoolEventRetentionProgress

def MempoolEventStore.empty : MempoolEventStore := ⟨.empty, none⟩

def MempoolEventStore.restart (store : MempoolEventStore) : MempoolEventStore :=
  { store with retentionProgress := none }

def mempoolEventRetentionReport : Except MempoolLogError MempoolEventRetentionReport := do
  let currentEventSequence ← currentMempoolEventSequence rows
  if currentEventSequence = 0 then .ok .default
  else
    let oldestRetainedSequence ← mempoolEventRetentionFloor rows currentEventSequence
    let oldest ← readMempoolEvent E rows oldestRetainedSequence
    .ok { currentEventSequence
          oldestRetainedSequence := some oldestRetainedSequence
          oldestRetainedObservedAt := some oldest.sourceObservedUnixMillis
          retainedEventCount := min (currentEventSequence - oldestRetainedSequence + 1) (u64Bound - 1)
          prunedAddedCount := 0
          prunedMinedCount := 0
          prunedInvalidatedCount := 0 }

def MempoolEventRetentionProgress.start (oldestRetainedSequence currentEventSequence : Nat)
    (now : U64) (retention : MempoolEventRetentionConfig) : MempoolEventRetentionProgress where
  expectedFloor := oldestRetainedSequence
  capturedHead := currentEventSequence
  nextSequence := oldestRetainedSequence
  activeAddSequences := ∅
  observedAt := now
  retention := retention
  prunableThrough := oldestRetainedSequence - 1
  terminalStop := none

/-- The kept progress when it was left by a step over this floor and these settings, a new scan
otherwise. -/
def resumeProgress (kept : Option MempoolEventRetentionProgress)
    (oldestRetainedSequence currentEventSequence : Nat) (now : U64)
    (retention : MempoolEventRetentionConfig) : MempoolEventRetentionProgress :=
  match kept with
  | some p =>
    if p.expectedFloor ≠ oldestRetainedSequence ∨ p.retention ≠ retention then
      .start oldestRetainedSequence currentEventSequence now retention
    else p
  | none => .start oldestRetainedSequence currentEventSequence now retention

def stepStop (newFloor : Nat) : MempoolEventRetentionStepStop :=
  if newFloor ≤ progress.prunableThrough then .budgetExhausted
  else progress.terminalStop.getD .budgetExhausted

def finishRetentionStep :
    Except MempoolLogError MempoolEventRetentionStepOutcome × MempoolEventStore :=
  let stop := stepStop progress work.newFloor
  ((mempoolEventRetentionReport E rows).map fun report =>
    { report := { report with
        prunedAddedCount := work.prunedAddedCount
        prunedMinedCount := work.prunedMinedCount
        prunedInvalidatedCount := work.prunedInvalidatedCount }
      examinedEventCount := work.examinedEventCount
      examinedEncodedBytes := work.examinedEncodedBytes
      stop },
   { rows
     retentionProgress := if stop ≠ .budgetExhausted then none else some progress })

def advanceMempoolEventRetention (reply : WriteReply) (now : U64)
    (retention : MempoolEventRetentionConfig) (budget : MempoolEventRetentionStepBudget)
    (store : MempoolEventStore) :
    Except MempoolLogError MempoolEventRetentionStepOutcome × MempoolEventStore :=
  match currentMempoolEventSequence store.rows with
  | .error e => (.error e, store)
  | .ok currentEventSequence =>
  if currentEventSequence = 0 then
    (.ok ⟨.default, 0, 0, .reachedHead⟩, { store with retentionProgress := none })
  else if retention.isUnbounded then
    ((mempoolEventRetentionReport E store.rows).map fun report => ⟨report, 0, 0, .retentionDisabled⟩,
     { store with retentionProgress := none })
  else
  match mempoolEventRetentionFloor store.rows currentEventSequence with
  | .error e => (.error e, store)
  | .ok oldestRetainedSequence =>
  let progress := resumeProgress store.retentionProgress oldestRetainedSequence
    currentEventSequence now retention
  match performMempoolRetentionStep E store.rows budget progress oldestRetainedSequence with
  | .error (e, progress) => (.error e, { store with retentionProgress := some progress })
  | .ok (progress, work) =>
  if work.newFloor ≠ oldestRetainedSequence then
    match writeMempoolLifecycleBatch reply store.rows
        (work.batch ++ [.putRetentionFloor work.newFloor]) with
    | (.error e, rows) => (.error e, ⟨rows, some progress⟩)
    | (.ok (), rows) =>
      finishRetentionStep E rows { progress with expectedFloor := work.newFloor } work
  else finishRetentionStep E store.rows progress work

end Zinder.Mempool
