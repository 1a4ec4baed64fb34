import Zinder.Mempool.ListedCodec
import Zinder.Mempool.LogInvariant

/-!
# Zinder.Mempool.LogRun

Every interleaving of appends, retention steps and restarts, with any of the writes failing.

A step of a run carries the whole log along: the events an append made durable are added to it, and
nothing is ever taken out. `retention_preserves_replay` compares it with the rows that are left.
-/

namespace Zinder.Mempool

open List

/-! ## Runs -/

/-- The events an append request makes durable: all of them or none. -/
def durableEvents (E : LogEnv) (reply : WriteReply) (rows : MempoolRows)
    (events : List ObservedEvent) : List ObservedEvent :=
  if (prepareAppend E rows events).toOption.isSome ∧ reply.durable then events else []

/-- One step of the store, with the whole log ever appended beside it. -/
inductive LogStep (E : LogEnv) :
    MempoolEventStore × List ObservedEvent → MempoolEventStore × List ObservedEvent → Prop where
  | append (store : MempoolEventStore) (log events : List ObservedEvent) (reply : WriteReply) :
    LogStep E (store, log)
      ({ store with rows := (appendMempoolEvents E reply store.rows events).2 },
        log ++ durableEvents E reply store.rows events)
  | retain (store : MempoolEventStore) (log : List ObservedEvent) (reply : WriteReply) (now : U64)
      (retention : MempoolEventRetentionConfig) (budget : MempoolEventRetentionStepBudget) :
    LogStep E (store, log)
      ((advanceMempoolEventRetention E reply now retention budget store).2, log)
  | restart (store : MempoolEventStore) (log : List ObservedEvent) :
    LogStep E (store, log) (store.restart, log)

/-- A store some run from an empty log leaves, with everything that run appended. -/
def LogReachable (E : LogEnv) (store : MempoolEventStore) (log : List ObservedEvent) : Prop :=
  Relation.ReflTransGen (LogStep E) (.empty, []) (store, log)

structure StoreInvariant (E : LogEnv) (store : MempoolEventStore) (log : List ObservedEvent)
    (floor : Nat) : Prop where
  rows : LogHolds E store.rows log floor
  progress : ∀ p, store.retentionProgress = some p → ScanInvariant log p

variable {E : LogEnv} {store : MempoolEventStore} {log : List ObservedEvent} {floor : Nat}

variable {rows : MempoolRows}

theorem LogHolds.without (h : LogHolds E rows log floor) :
    StoreInvariant E ⟨rows, none⟩ log floor :=
  ⟨h, fun p hp => by cases hp⟩

theorem LogHolds.keeping {p : MempoolEventRetentionProgress} (h : LogHolds E rows log floor)
    (hscan : ScanInvariant log p) : StoreInvariant E ⟨rows, some p⟩ log floor :=
  ⟨h, fun q hq => by cases hq; exact hscan⟩

theorem appendMempoolEvents_rows (reply : WriteReply) (rows : MempoolRows)
    (events : List ObservedEvent) :
    (appendMempoolEvents E reply rows events).2 = rows ∧ durableEvents E reply rows events = [] ∨
      ∃ envelopes batch, events ≠ [] ∧ prepareAppend E rows events = .ok (envelopes, batch) ∧
        reply.durable = true ∧ durableEvents E reply rows events = events ∧
        (appendMempoolEvents E reply rows events).2 = rows.write batch := by
  by_cases hne : events = []
  · subst hne
    exact .inl ⟨by simp [appendMempoolEvents], by simp [durableEvents]⟩
  · cases hprepare : prepareAppend E rows events with
    | error e =>
      exact .inl ⟨by simp [appendMempoolEvents, hne, hprepare],
        by simp [durableEvents, hprepare, Except.toOption]⟩
    | ok p =>
      obtain ⟨envelopes, batch⟩ := p
      by_cases hdurable : reply.durable = true
      · refine .inr ⟨envelopes, batch, hne, rfl, hdurable, ?_, ?_⟩
        · simp [durableEvents, hprepare, Except.toOption, hdurable]
        · simp [appendMempoolEvents, hne, hprepare, writeMempoolLifecycleBatch, hdurable]
      · refine .inl ⟨?_, ?_⟩
        · simp [appendMempoolEvents, hne, hprepare, writeMempoolLifecycleBatch, hdurable]
        · simp [durableEvents, hdurable]

theorem StoreInvariant.append (h : StoreInvariant E store log floor) (reply : WriteReply)
    (events : List ObservedEvent) :
    StoreInvariant E { store with rows := (appendMempoolEvents E reply store.rows events).2 }
      (log ++ durableEvents E reply store.rows events) floor := by
  rcases appendMempoolEvents_rows reply store.rows events with
    ⟨hrows, hnone⟩ | ⟨envelopes, batch, hne, hprepare, _, hall, hrows⟩
  · rw [hnone, append_nil, hrows]
    exact h
  · rw [hall, hrows]
    exact ⟨h.rows.append hne hprepare, fun p hp => (h.progress p hp).append events⟩

theorem StoreInvariant.resume (h : StoreInvariant E store log floor) (hne : log ≠ []) (now : U64)
    (retention : MempoolEventRetentionConfig) :
    ScanInvariant log (resumeProgress store.retentionProgress floor log.length now retention) := by
  have hstart := ScanInvariant.start h.rows.floor_pos (h.rows.floor_le_length hne) h.rows.safe now
    retention
  unfold resumeProgress
  cases hkept : store.retentionProgress with
  | none => exact hstart
  | some p =>
    simp only
    split
    · exact hstart
    · exact h.progress p hkept

theorem finishRetentionStep_keeps {p : MempoolEventRetentionProgress}
    (hrows : LogHolds E rows log floor) (hscan : ScanInvariant log p)
    (work : MempoolRetentionStepWork) :
    StoreInvariant E (finishRetentionStep E rows p work).2 log floor := by
  simp only [finishRetentionStep]
  split
  · exact hrows.without
  · exact hrows.keeping hscan

/-- A retention step keeps the log, whatever its write does, and never moves the floor back. -/
theorem StoreInvariant.retain (h : StoreInvariant E store log floor) (reply : WriteReply)
    (now : U64)
    (retention : MempoolEventRetentionConfig) (budget : MempoolEventRetentionStepBudget) :
    ∃ floor', floor ≤ floor' ∧
      StoreInvariant E (advanceMempoolEventRetention E reply now retention budget store).2 log
        floor' := by
  have hrows := h.rows
  simp only [advanceMempoolEventRetention, hrows.currentSequence]
  split
  · exact ⟨floor, Nat.le_refl _, hrows.without⟩
  next hlength =>
  have hne : log ≠ [] := fun hnil => hlength (by rw [hnil]; rfl)
  split
  · exact ⟨floor, Nat.le_refl _, hrows.without⟩
  simp only [hrows.readFloor hne]
  have hscan := h.resume hne now retention
  split
  · next e p herror =>
    exact ⟨floor, Nat.le_refl _, hrows.keeping (performRetention_error hrows hne hscan herror)⟩
  · next p work hok =>
    obtain ⟨hp, hwork⟩ := performRetention_keeps hrows hne hscan hok
    split
    · -- The floor moved: the batch became durable or not, and the caller may not know.
      have hpruned := hrows.prune hne hwork
      have hp' : ScanInvariant log { p with expectedFloor := work.newFloor } :=
        ⟨hp.nextSequence_pos, hp.nextSequence_le, hp.capturedHead_le, hp.prunable_lt,
          hp.prunable_safe, hp.table⟩
      cases reply with
      | done => exact ⟨work.newFloor, hwork.floor_le, finishRetentionStep_keeps hpruned hp' work⟩
      | failed durable =>
        cases durable with
        | true => exact ⟨work.newFloor, hwork.floor_le, hpruned.keeping hp⟩
        | false => exact ⟨floor, Nat.le_refl _, hrows.keeping hp⟩
    · exact ⟨floor, Nat.le_refl _, finishRetentionStep_keeps hrows hp work⟩

theorem LogReachable.invariant (h : LogReachable E store log) :
    ∃ floor, StoreInvariant E store log floor := by
  suffices hall : ∀ s, Relation.ReflTransGen (LogStep E) (MempoolEventStore.empty, []) s →
      ∃ floor, StoreInvariant E s.1 s.2 floor from hall _ h
  intro s hs
  induction hs with
  | refl => exact ⟨1, (logHolds_empty E).without⟩
  | tail _ hstep ih =>
    obtain ⟨floor, hinv⟩ := ih
    cases hstep with
    | append store log events reply => exact ⟨floor, hinv.append reply events⟩
    | retain store log reply now retention budget =>
      obtain ⟨floor', _, hinv'⟩ := hinv.retain reply now retention budget
      exact ⟨floor', hinv'⟩
    | restart store log => exact ⟨floor, hinv.rows.without⟩

/-! ## Replay of the retained events -/

/-- All retained events, read in sequence order. -/
def retainedEvents (E : LogEnv) (rows : MempoolRows) :
    Except MempoolLogError (List MempoolEventEnvelope) :=
  collect (fun row => decodeMempoolEvent E row.1 row.2) rows.events.toList

open LogHolds (envelopesFrom)

variable (E : LogEnv) (start : Nat) (events : List ObservedEvent)

theorem eventSequence_envelopesFrom :
    (envelopesFrom E start events).map MempoolEventEnvelope.eventSequence =
      List.range' (start + 1) events.length := by
  simp [envelopesFrom, Function.comp_def, envelopeOf]

theorem observed_envelopesFrom :
    (envelopesFrom E start events).map MempoolEventEnvelope.observed = events := by
  simp [envelopesFrom, Function.comp_def, envelopeOf, MempoolEventEnvelope.observed]

theorem getElem?_envelopesFrom (i : Nat) :
    (envelopesFrom E start events)[i]? = events[i]?.map (envelopeOf E (start + 1 + i)) := by
  simp [envelopesFrom, getElem?_zipIdx, Function.comp_def]

theorem LogHolds.toList_events (h : LogHolds E rows log floor) :
    rows.events.toList = (envelopesFrom E (floor - 1) (log.drop (floor - 1))).map fun envelope =>
      (envelope.eventSequence, encodeMempoolEventEnvelope E envelope) := by
  have hpos := h.floor_pos
  have hfloor : floor - 1 + 1 = floor := Nat.sub_add_cancel hpos
  have hrows : ∀ k, rows.events[k]? = if floor ≤ k then
      ((envelopesFrom E (floor - 1) (log.drop (floor - 1))).map
        (encodeMempoolEventEnvelope E))[k - floor]? else none := by
    intro k
    rw [h.events]
    by_cases hk : floor ≤ k
    · have hindex : floor - 1 + (k - floor) = k - 1 := by omega
      rw [if_pos hk, if_pos hk, getElem?_map, getElem?_envelopesFrom, getElem?_drop,
        hfloor, Nat.add_sub_cancel' hk, hindex, Option.map_map]
      rfl
    · rw [if_neg hk, if_neg hk]
  have hsequences := eventSequence_envelopesFrom E (floor - 1) (log.drop (floor - 1))
  rw [hfloor] at hsequences
  rw [TreeMap.toList_range' hrows, length_map, ← zip_map', hsequences]
  congr 2
  simp [envelopesFrom]

theorem LogHolds.retainedEvents_eq (h : LogHolds E rows log floor) :
    retainedEvents E rows = .ok (envelopesFrom E (floor - 1) (log.drop (floor - 1))) := by
  rw [retainedEvents, h.toList_events, collect_eq_ok, List.forall₂_map_left_iff]
  refine List.forall₂_same.mpr ?_
  intro envelope hmem
  obtain ⟨i, hi⟩ := mem_iff_getElem?.mp hmem
  rw [getElem?_envelopesFrom, getElem?_drop, Option.map_eq_some_iff] at hi
  obtain ⟨o, ho, rfl⟩ := hi
  have hpos := h.floor_pos
  have hindex : floor - 1 + 1 + i - 1 = floor - 1 + i := by omega
  have hbound : floor - 1 + 1 + i < u64Bound :=
    h.lt_of_getElem? (by omega) (o := o) (by rw [hindex]; exact ho)
  exact decode_row hbound o

/-- Retention preserves replay. After any interleaving of appends, retention steps with any budgets,
clocks and settings, failed writes and restarts, the retained events are the log from the floor to
the head, and they replay to the same live entries as everything ever appended. -/
theorem retention_preserves_replay (E : LogEnv) {store : MempoolEventStore}
    {log : List ObservedEvent} (h : LogReachable E store log) :
    ∃ floor envelopes, retainedEvents E store.rows = .ok envelopes ∧
      liveEntries (envelopes.map MempoolEventEnvelope.observed) = liveEntries log ∧
      envelopes.map MempoolEventEnvelope.eventSequence =
        List.range' floor (log.length + 1 - floor) ∧
      envelopes.map MempoolEventEnvelope.observed = log.drop (floor - 1) ∧
      (log ≠ [] → floor ≤ log.length ∧
        currentMempoolEventSequence store.rows = .ok log.length ∧
        mempoolEventRetentionFloor store.rows log.length = .ok floor) := by
  obtain ⟨floor, hinv⟩ := h.invariant
  have hrows := hinv.rows
  have hpos := hrows.floor_pos
  refine ⟨floor, _, hrows.retainedEvents_eq, ?_, ?_, observed_envelopesFrom E _ _, fun hne =>
    ⟨hrows.floor_le_length hne, hrows.currentSequence, hrows.readFloor hne⟩⟩
  · rw [observed_envelopesFrom, liveEntries_drop hrows.safe]
  · rw [eventSequence_envelopesFrom, Nat.sub_add_cancel hpos, length_drop]
    congr 1
    have := hrows.floor_le
    omega

/-! ### A run -/

def sampleLog : List ObservedEvent :=
  [(.added (plainEntry (byteId 1) []), 0), (.mined (byteId 1) 5 (byteId 9), 10),
    (.added (plainEntry (byteId 2) []), 20)]

noncomputable def sampleAppended : MempoolEventStore :=
  { MempoolEventStore.empty with
    rows := (appendMempoolEvents (listedLogEnv sampleLog) .done .empty sampleLog).2 }

def sampleRetention : MempoolEventRetentionConfig :=
  ⟨some (5 * 10 ^ 6), some (5 * 10 ^ 6), some (5 * 10 ^ 6)⟩

def sampleBudget : MempoolEventRetentionStepBudget where
  maxEvents := 8
  maxEncodedBytes := 1000
  maxEvents_pos := by decide
  maxEvents_lt := by decide
  maxEncodedBytes_pos := by decide

noncomputable def samplePruned : MempoolEventStore :=
  MempoolEventStore.restart (advanceMempoolEventRetention (listedLogEnv sampleLog) (.failed true) 100
    sampleRetention sampleBudget sampleAppended).2

theorem sample_log_step :
    LogStep (listedLogEnv sampleLog) (.empty, []) (sampleAppended, sampleLog) := by
  have hdurable : durableEvents (listedLogEnv sampleLog) .done .empty sampleLog = sampleLog := by
    decide +kernel
  have hstep := LogStep.append (E := listedLogEnv sampleLog) .empty [] sampleLog .done
  rw [show MempoolEventStore.empty.rows = .empty from rfl, hdurable, nil_append] at hstep
  exact hstep

theorem sampleAppended_reachable : LogReachable (listedLogEnv sampleLog) sampleAppended sampleLog :=
  .single sample_log_step

theorem retention_preserves_replay_sample :
    samplePruned.rows.retentionFloor = some 3 ∧
      ∃ floor envelopes, retainedEvents (listedLogEnv sampleLog) samplePruned.rows = .ok envelopes ∧
        liveEntries (envelopes.map MempoolEventEnvelope.observed) = liveEntries sampleLog ∧
        envelopes.map MempoolEventEnvelope.eventSequence =
          List.range' floor (sampleLog.length + 1 - floor) ∧
        envelopes.map MempoolEventEnvelope.observed = sampleLog.drop (floor - 1) ∧
        (sampleLog ≠ [] → floor ≤ sampleLog.length ∧
          currentMempoolEventSequence samplePruned.rows = .ok sampleLog.length ∧
          mempoolEventRetentionFloor samplePruned.rows sampleLog.length = .ok floor) :=
  ⟨by decide +kernel, retention_preserves_replay (listedLogEnv sampleLog)
    ((sampleAppended_reachable.tail (.retain _ _ _ _ _ _)).tail (.restart _ _))⟩

end Zinder.Mempool
