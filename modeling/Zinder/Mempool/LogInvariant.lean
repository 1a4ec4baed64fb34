import Zinder.Mempool.Retention

/-!
# Zinder.Mempool.LogInvariant

What the rows of the mempool event log say about every event ever appended.

`LogHolds` relates rows to the whole log: the head pointer counts it, the rows from the floor on are
its encoded events, and the cut at the floor is safe. `ScanInvariant` is the part a retention scan
carries from step to step: the prefix it found prunable is a safe cut, and its table knows every add
that is open where the scan stands.

* `LogHolds.append` — a durable append extends the log and keeps the floor;
* `performRetention_keeps` — the deletions of a retention step end at a safe cut;
* `LogHolds.prune` — writing them keeps the log and moves the floor there.
-/

namespace Zinder.Mempool

open Std (ExtTreeMap)
open List
open KeyedLog

/-! ## Rows and log -/

/-- The rows hold the events of `log` from sequence `floor` on. -/
structure LogHolds (E : LogEnv) (rows : MempoolRows) (log : List ObservedEvent) (floor : Nat) :
    Prop where
  eventSequence : rows.eventSequence = if log = [] then none else some log.length
  retentionFloor : rows.retentionFloor = if log = [] then none else some floor
  events : ∀ s, rows.events[s]? =
    if floor ≤ s then log[s - 1]?.map fun o => encodeMempoolEventEnvelope E (envelopeOf E s o)
    else none
  floor_pos : 0 < floor
  floor_le : floor ≤ max log.length 1
  length_lt : log.length < u64Bound
  safe : CutSafe (changes log) (floor - 1)

variable {E : LogEnv} {rows : MempoolRows} {log : List ObservedEvent} {floor : Nat}

theorem logHolds_empty (E : LogEnv) : LogHolds E .empty [] 1 where
  eventSequence := rfl
  retentionFloor := rfl
  events s := by simp [MempoolRows.empty]
  floor_pos := Nat.one_pos
  floor_le := by simp
  length_lt := by decide
  safe := cutSafe_zero _

namespace LogHolds

theorem floor_le_length (h : LogHolds E rows log floor) (hne : log ≠ []) : floor ≤ log.length := by
  have := h.floor_le
  have := length_pos_iff.mpr hne
  omega

theorem currentSequence (h : LogHolds E rows log floor) :
    currentMempoolEventSequence rows = .ok log.length := by
  unfold currentMempoolEventSequence
  rw [h.eventSequence]
  cases log with
  | nil => rfl
  | cons o log => rfl

theorem readFloor (h : LogHolds E rows log floor) (hne : log ≠ []) :
    mempoolEventRetentionFloor rows log.length = .ok floor := by
  have hpos := h.floor_pos
  have hle := h.floor_le_length hne
  simp only [mempoolEventRetentionFloor, h.retentionFloor, hne, if_false, Option.getD_some,
    bind_eq_ok, rejectIf_eq_ok]
  refine ⟨(), ?_, trivial⟩
  omega

variable {s : Nat} {events : List ObservedEvent}

theorem decode_encode (hs : s < u64Bound) (o : ObservedEvent) :
    decodeMempoolEventEnvelope E (encodeMempoolEventEnvelope E (envelopeOf E s o)) =
      .ok (envelopeOf E s o) := by
  simp [decodeMempoolEventEnvelope, encodeMempoolEventEnvelope, envelopeOf, Except.mapError,
    E.codec.decode_encode ⟨s, o.2, o.1⟩ hs]

theorem decode_row (hs : s < u64Bound) (o : ObservedEvent) :
    decodeMempoolEvent E s (encodeMempoolEventEnvelope E (envelopeOf E s o)) =
      .ok (envelopeOf E s o) := by
  simp only [decodeMempoolEvent, decode_encode hs, ok_bind]
  simp [envelopeOf, rejectIf_of_not]

theorem lt_of_getElem? (h : LogHolds E rows log floor) (hs : 0 < s) {o : ObservedEvent}
    (ho : log[s - 1]? = some o) : s < u64Bound := by
  have hlen : s - 1 < log.length := (List.getElem?_eq_some_iff.mp ho).1
  have := h.length_lt
  omega

theorem read (h : LogHolds E rows log floor) (hs : floor ≤ s) {o : ObservedEvent}
    (ho : log[s - 1]? = some o) : readMempoolEvent E rows s = .ok (envelopeOf E s o) := by
  have hpos : 0 < s := Nat.lt_of_lt_of_le h.floor_pos hs
  have hrow : rows.events[s]? = some (encodeMempoolEventEnvelope E (envelopeOf E s o)) := by
    rw [h.events, if_pos hs, ho]
    rfl
  simp only [readMempoolEvent, readEncodedMempoolEvent, hrow, okOr_some, ok_bind]
  exact decode_row (h.lt_of_getElem? hpos ho) o

theorem read_eq_ok (h : LogHolds E rows log floor) {envelope : MempoolEventEnvelope}
    (hread : readMempoolEvent E rows s = .ok envelope) :
    floor ≤ s ∧ ∃ o, log[s - 1]? = some o ∧ envelope = envelopeOf E s o := by
  have hpresent : rows.events[s]? ≠ none := by
    intro hnone
    simp only [readMempoolEvent, readEncodedMempoolEvent, hnone, okOr, error_bind] at hread
    cases hread
  rw [h.events] at hpresent
  split at hpresent
  · next hs =>
    refine ⟨hs, ?_⟩
    cases ho : log[s - 1]? with
    | none =>
      rw [ho] at hpresent
      exact absurd rfl hpresent
    | some o =>
      rw [h.read hs ho] at hread
      cases hread
      exact ⟨o, rfl, rfl⟩
  · exact absurd rfl hpresent

/-! ## Appending -/

def putEvents (E : LogEnv) (start : Nat) (events : List ObservedEvent) : List RowOp :=
  (events.zipIdx (start + 1)).map fun os =>
    .putEvent os.2 (encodeMempoolEventEnvelope E (envelopeOf E os.2 os.1))

def envelopesFrom (E : LogEnv) (start : Nat) (events : List ObservedEvent) :
    List MempoolEventEnvelope :=
  (events.zipIdx (start + 1)).map fun os => envelopeOf E os.2 os.1

theorem appendLoop {s t : AppendState} :
    loop (appendOne E) s events = .ok t ↔ (events ≠ [] → s.sequence + events.length < u64Bound) ∧
      t = { sequence := s.sequence + events.length
            envelopes := s.envelopes ++ envelopesFrom E s.sequence events
            batch := s.batch ++ putEvents E s.sequence events } := by
  induction events generalizing s with
  | nil =>
    simp only [loop_nil, Except.ok.injEq, ne_eq, not_true_eq_false, false_implies, true_and,
      length_nil, Nat.add_zero, envelopesFrom, putEvents, zipIdx_nil, map_nil,
      append_nil]
    exact eq_comm
  | cons o events ih =>
    simp only [loop_cons_eq_ok, appendOne, bind_eq_ok, okOr_eq_ok, checkedAdd_eq_some]
    constructor
    · rintro ⟨s', ⟨n, ⟨hlt, rfl⟩, hs'⟩, hrest⟩
      cases hs'
      obtain ⟨hbound, rfl⟩ := ih.mp hrest
      refine ⟨fun _ => ?_, ?_⟩
      · by_cases hnil : events = []
        · subst hnil
          simpa using hlt
        · have hbound' : s.sequence + 1 + events.length < u64Bound := hbound hnil
          simp only [length_cons]
          omega
      · simp [envelopesFrom, putEvents, Nat.add_assoc, Nat.add_comm]
    · rintro ⟨hbound, rfl⟩
      have hbound := hbound (cons_ne_nil _ _)
      simp only [length_cons] at hbound
      refine ⟨_, ⟨s.sequence + 1, ⟨by omega, rfl⟩, rfl⟩, ih.mpr ⟨fun _ => ?_, ?_⟩⟩
      · show s.sequence + 1 + events.length < u64Bound
        omega
      · simp [envelopesFrom, putEvents, Nat.add_assoc, Nat.add_comm]

theorem events_putEvents (rows : MempoolRows) (start : Nat) (events : List ObservedEvent)
    (s : Nat) :
    (rows.write (putEvents E start events)).events[s]? =
      if start < s ∧ s ≤ start + events.length then
        events[s - start - 1]?.map fun o => encodeMempoolEventEnvelope E (envelopeOf E s o)
      else rows.events[s]? := by
  induction events generalizing rows start with
  | nil =>
    have hnone : ¬ (start < s ∧ s ≤ start + ([] : List ObservedEvent).length) := by
      simp only [length_nil]
      omega
    rw [if_neg hnone]
    rfl
  | cons o events ih =>
    refine (ih (RowOp.apply rows _) (start + 1)).trans ?_
    simp only [length_cons, RowOp.apply, ExtTreeMap.getElem?_insert, Nat.compare_eq_eq]
    by_cases hs : s = start + 1
    · subst hs
      simp
    · by_cases hin : start < s ∧ s ≤ start + (events.length + 1)
      · obtain ⟨k, hk⟩ : ∃ k, s = start + 1 + k + 1 := ⟨s - start - 2, by omega⟩
        subst hk
        have hindex : start + 1 + k + 1 - start - 1 = k + 1 := by omega
        have hindex' : start + 1 + k + 1 - (start + 1) - 1 = k := by omega
        rw [if_pos (by omega), if_pos (by omega), hindex, hindex', getElem?_cons_succ]
      · rw [if_neg (by omega), if_neg (by omega), if_neg (by omega)]

theorem retentionFloor_putEvents (rows : MempoolRows) (start : Nat) (events : List ObservedEvent) :
    (rows.write (putEvents E start events)).retentionFloor = rows.retentionFloor := by
  induction events generalizing rows start with
  | nil => rfl
  | cons o events ih => exact ih (RowOp.apply rows _) (start + 1)

theorem admission_empty (E : LogEnv) : validateMempoolLifecycleAdmission E .empty = .ok () := by
  simp [validateMempoolLifecycleAdmission, MempoolRows.empty]

theorem eq_empty (h : LogHolds E rows [] floor) : rows = .empty := by
  obtain ⟨eventSequence, retentionFloor, events⟩ := rows
  have hsequence : eventSequence = none := h.eventSequence
  have hfloor : retentionFloor = none := h.retentionFloor
  have hevents : events = ∅ := by
    refine ExtTreeMap.ext_getElem? fun s => ?_
    have := h.events s
    simpa using this
  subst hsequence hfloor hevents
  rfl

theorem prepareAppend_eq_ok (h : LogHolds E rows log floor) (hne : events ≠ [])
    {p : List MempoolEventEnvelope × List RowOp} :
    prepareAppend E rows events = .ok p ↔ log.length + events.length < u64Bound ∧
      p = (envelopesFrom E log.length events,
        putEvents E log.length events ++ [.putEventSequence (log.length + events.length)] ++
          (if log = [] then [.putRetentionFloor 1] else [])) := by
  have hzero : log.length = 0 ↔ log = [] := length_eq_zero_iff
  have hadmitted : admitAppend E rows log.length = .ok () := by
    unfold admitAppend
    split
    · next hempty =>
      rw [hzero] at hempty
      subst hempty
      rw [h.eq_empty, admission_empty]
    · rfl
  simp only [prepareAppend, h.currentSequence, ok_bind, hadmitted, bind_eq_ok, appendLoop,
    nil_append, hzero, Except.ok.injEq]
  constructor
  · rintro ⟨t, ⟨hbound, rfl⟩, rfl⟩
    exact ⟨hbound hne, rfl⟩
  · rintro ⟨hbound, rfl⟩
    exact ⟨_, ⟨fun _ => hbound, rfl⟩, rfl⟩

theorem write_append (rows : MempoolRows) (a b : List RowOp) :
    rows.write (a ++ b) = (rows.write a).write b := by
  simp [MempoolRows.write, foldl_append]

theorem append (h : LogHolds E rows log floor) (hne : events ≠ [])
    {envelopes : List MempoolEventEnvelope} {batch : List RowOp}
    (hprepare : prepareAppend E rows events = .ok (envelopes, batch)) :
    LogHolds E (rows.write batch) (log ++ events) floor := by
  obtain ⟨hbound, hp⟩ := (h.prepareAppend_eq_ok hne).mp hprepare
  cases hp
  have hnonempty : log ++ events ≠ [] := by simp [hne]
  have hone : log = [] → floor = 1 := by
    rintro rfl
    have := h.floor_pos
    have := h.floor_le
    simp only [length_nil] at this
    omega
  have hwritten : ∀ s, (rows.write (putEvents E log.length events)).events[s]? =
      if floor ≤ s then (log ++ events)[s - 1]?.map fun o =>
        encodeMempoolEventEnvelope E (envelopeOf E s o) else none := by
    intro s
    have hfloor := h.floor_le
    have hpos := h.floor_pos
    rw [events_putEvents, h.events]
    by_cases hin : log.length < s ∧ s ≤ log.length + events.length
    · have hfs : floor ≤ s := by omega
      rw [if_pos hin, if_pos hfs, getElem?_append_right (by omega)]
      congr 2
      omega
    · rw [if_neg hin]
      by_cases hfs : floor ≤ s
      · rw [if_pos hfs, if_pos hfs]
        by_cases hs : s ≤ log.length
        · rw [getElem?_append_left (by omega)]
        · rw [getElem?_eq_none (by omega), getElem?_eq_none (by simp; omega)]
      · rw [if_neg hfs, if_neg hfs]
  refine ⟨?_, ?_, ?_, h.floor_pos, ?_, ?_, ?_⟩
  · rw [if_neg hnonempty, write_append, write_append]
    split <;> simp [MempoolRows.write, RowOp.apply]
  · rw [if_neg hnonempty, write_append, write_append]
    split
    · next hempty => simp [MempoolRows.write, RowOp.apply, hone hempty]
    · next hlog =>
      have := retentionFloor_putEvents (E := E) rows log.length events
      rw [h.retentionFloor, if_neg hlog] at this
      simpa [MempoolRows.write, RowOp.apply] using this
  · intro s
    rw [← hwritten s, write_append, write_append]
    split <;> simp [MempoolRows.write, RowOp.apply]
  · have := h.floor_le
    have := length_pos_iff.mpr hne
    simp only [length_append]
    omega
  · simpa using hbound
  · rw [changes_append]
    refine h.safe.append ?_
    have := h.floor_le
    rw [length_changes]
    omega

end LogHolds

/-! ## The retention scan -/

/-- What a scan knows between steps. The scan started behind a safe cut; while it goes on, its table
names every add that is open at `nextSequence`. -/
structure ScanInvariant (log : List ObservedEvent) (p : MempoolEventRetentionProgress) : Prop where
  nextSequence_pos : 0 < p.nextSequence
  nextSequence_le : p.nextSequence ≤ p.capturedHead
  capturedHead_le : p.capturedHead ≤ log.length
  prunable_lt : p.prunableThrough < p.capturedHead
  prunable_safe : CutSafe (changes log) p.prunableThrough
  table : p.terminalStop = none → ∃ a, CutSafe (changes log) a ∧ a ≤ log.length ∧ ∀ i c, a ≤ i →
    i < p.nextSequence - 1 → OpenAt (changes log) (p.nextSequence - 1) i →
    (changes log)[i]? = some c → p.activeAddSequences[c.key]? = some (i + 1)

theorem prunableThrough_le_of_active {latest head s : Nat} {active : ExtTreeMap TransactionId Nat}
    {id : TransactionId} (h : active[id]? = some (s + 1)) :
    prunableThrough latest head active ≤ s := by
  have hmem : s + 1 ∈ active.toList.map Prod.snd :=
    mem_map.mpr ⟨(id, s + 1), ExtTreeMap.mem_toList_iff_getElem?_eq_some.mpr h, rfl⟩
  unfold prunableThrough
  cases hmin : (active.toList.map Prod.snd).min? with
  | none =>
    rw [min?_eq_none_iff] at hmin
    rw [hmin] at hmem
    cases hmem
  | some earliest =>
    have hle : earliest ≤ s + 1 := (min?_eq_some_iff.mp hmin).2 _ hmem
    simp only
    omega

theorem prunableThrough_le (latest head : Nat) (active : ExtTreeMap TransactionId Nat) :
    prunableThrough latest head active ≤ latest ∧
      prunableThrough latest head active ≤ head - 1 := by
  unfold prunableThrough
  cases (active.toList.map Prod.snd).min? with
  | none => simp only; omega
  | some earliest => simp only; omega

theorem getElem?_updateActiveAddSequences (active : ExtTreeMap TransactionId Nat) (sequence : Nat)
    (event : MempoolEvent) (id : TransactionId) :
    (updateActiveAddSequences active sequence event)[id]? =
      if event.transactionId = id then event.change.value.map fun _ => sequence
      else active[id]? := by
  by_cases h : event.transactionId = id
  · subst h
    cases event <;> simp [updateActiveAddSequences, MempoolEvent.transactionId]
  · rw [if_neg h]
    cases event <;>
      simp only [MempoolEvent.transactionId] at h <;>
      simp [updateActiveAddSequences, ExtTreeMap.getElem?_insert, ExtTreeMap.getElem?_erase, h]

namespace ScanInvariant

variable {p : MempoolEventRetentionProgress}

theorem start (hpos : 0 < floor) (hle : floor ≤ log.length)
    (hsafe : CutSafe (changes log) (floor - 1)) (now : U64)
    (retention : MempoolEventRetentionConfig) :
    ScanInvariant log (.start floor log.length now retention) where
  nextSequence_pos := hpos
  nextSequence_le := hle
  capturedHead_le := Nat.le_refl _
  prunable_lt := by
    show floor - 1 < log.length
    omega
  prunable_safe := hsafe
  table _ := by
    refine ⟨floor - 1, hsafe, by omega, ?_⟩
    intro i c hi hlt
    exact absurd hlt (Nat.not_lt.mpr hi)

theorem append (h : ScanInvariant log p) (more : List ObservedEvent) :
    ScanInvariant (log ++ more) p := by
  have hhead := h.capturedHead_le
  have hnext := h.nextSequence_le
  have hprunable := h.prunable_lt
  refine ⟨h.nextSequence_pos, hnext, ?_, hprunable, ?_, ?_⟩
  · rw [length_append]
    omega
  · rw [changes_append]
    exact h.prunable_safe.append (by rw [length_changes]; omega)
  · intro hgoing
    obtain ⟨a, hsafe, hal, htable⟩ := h.table hgoing
    refine ⟨a, ?_, by rw [length_append]; omega, ?_⟩
    · rw [changes_append]
      exact hsafe.append (by rw [length_changes]; exact hal)
    · intro i c hai hi hopen hc
      have hlen : (changes log).length = log.length := length_changes log
      have hold : ∀ j, j < p.nextSequence - 1 →
          (changes (log ++ more))[j]? = (changes log)[j]? := by
        intro j hj
        rw [changes_append, getElem?_append_left (by omega)]
      rw [hold i hi] at hc
      refine htable i c hai hi ?_ hc
      obtain ⟨d, hd, hvalue, hlast⟩ := hopen
      rw [hold i hi] at hd
      exact ⟨d, hd, hvalue, fun j c' hij hj hc' => hlast j c' hij hj (by rw [hold j hj, hc'])⟩

theorem terminate (h : ScanInvariant log p) (stop : MempoolEventRetentionStepStop) :
    ScanInvariant log { p with terminalStop := some stop } :=
  ⟨h.nextSequence_pos, h.nextSequence_le, h.capturedHead_le, h.prunable_lt, h.prunable_safe,
    fun hgoing => by cases hgoing⟩

theorem inspect (h : ScanInvariant log p) (hgoing : p.terminalStop = none)
    (hlen : log.length < u64Bound) {o : ObservedEvent}
    (ho : log[p.nextSequence - 1]? = some o) : ScanInvariant log (p.inspect o.1) := by
  have hpos := h.nextSequence_pos
  have hnext := h.nextSequence_le
  have hhead := h.capturedHead_le
  obtain ⟨a, hsafe, hal, htable⟩ := h.table hgoing
  have hchange : (changes log)[p.nextSequence - 1]? = some o.1.change := by
    rw [changes, getElem?_map, ho]
    rfl
  -- The table now covers the inspected event as well.
  have htable' : ∀ i c, a ≤ i → i < p.nextSequence → OpenAt (changes log) p.nextSequence i →
      (changes log)[i]? = some c → (p.inspect o.1).activeAddSequences[c.key]? = some (i + 1) := by
    intro i c hai hi hopen hc
    obtain ⟨d, hd, hvalue, hlast⟩ := hopen
    rw [hc] at hd
    cases hd
    show (updateActiveAddSequences p.activeAddSequences p.nextSequence o.1)[c.key]? = some (i + 1)
    rw [getElem?_updateActiveAddSequences]
    by_cases hlatest : i = p.nextSequence - 1
    · subst hlatest
      rw [hchange] at hc
      cases hc
      obtain ⟨entry, hentry⟩ := Option.ne_none_iff_exists'.mp hvalue
      rw [MempoolEvent.change_key, if_pos rfl, hentry, Nat.sub_add_cancel hpos]
      rfl
    · have hother : o.1.transactionId ≠ c.key :=
        hlast (p.nextSequence - 1) _ (by omega) (by omega) hchange
      rw [if_neg hother]
      refine htable i c hai (by omega) ?_ hc
      exact ⟨c, hc, hvalue, fun j c' hij hj hc' => hlast j c' hij (by omega) hc'⟩
  have hcut : CutSafe (changes log) (p.inspect o.1).prunableThrough := by
    refine hsafe.extend (prunableThrough_le _ _ _).1 ?_
    intro i hai hi hopen
    have ⟨c, hc, _⟩ := hopen
    exact prunableThrough_le_of_active (htable' i c hai hi hopen hc)
  have hprunable := (prunableThrough_le p.nextSequence p.capturedHead
    (updateActiveAddSequences p.activeAddSequences p.nextSequence o.1)).2
  by_cases hlast : p.nextSequence = p.capturedHead
  · refine ⟨?_, ?_, hhead, ?_, hcut, ?_⟩
    · simpa [MempoolEventRetentionProgress.inspect, hlast] using hlast ▸ hpos
    · simp [MempoolEventRetentionProgress.inspect, hlast]
    · simp only [MempoolEventRetentionProgress.inspect]
      omega
    · intro hnone
      simp [MempoolEventRetentionProgress.inspect, hlast] at hnone
  · have hnext' : (p.inspect o.1).nextSequence = p.nextSequence + 1 := by
      simp only [MempoolEventRetentionProgress.inspect, hlast, if_false]
      omega
    refine ⟨by omega, ?_, hhead, ?_, hcut, ?_⟩
    · rw [hnext']
      show p.nextSequence + 1 ≤ p.capturedHead
      omega
    · simp only [MempoolEventRetentionProgress.inspect]
      omega
    · intro _
      refine ⟨a, hsafe, hal, ?_⟩
      rw [hnext', Nat.add_sub_cancel]
      exact htable'

end ScanInvariant

/-! ## One retention step -/

/-- What a step has taken off the front so far: the rows below `newFloor`, up to a safe cut. -/
structure WorkInvariant (log : List ObservedEvent) (floor : Nat) (w : MempoolRetentionStepWork) :
    Prop where
  floor_le : floor ≤ w.newFloor
  newFloor_le : w.newFloor ≤ log.length
  safe : CutSafe (changes log) (w.newFloor - 1)
  batch : w.batch = (List.range' floor (w.newFloor - floor)).map .deleteEvent

def StepInvariant (log : List ObservedEvent) (floor : Nat) (s : StepState) : Prop :=
  ScanInvariant log s.1 ∧ WorkInvariant log floor s.2

section Step

variable {budget : MempoolEventRetentionStepBudget} {s s' : StepState}

variable {p : MempoolEventRetentionProgress}

theorem WorkInvariant.prune {w : MempoolRetentionStepWork} (h : WorkInvariant log floor w)
    (hscan : ScanInvariant log p) (hlen : log.length < u64Bound)
    (hle : w.newFloor ≤ p.prunableThrough) (envelope : MempoolEventEnvelope) (n : Nat) :
    WorkInvariant log floor (w.prune envelope n) := by
  have hfloor := h.floor_le
  have hprunable := hscan.prunable_lt
  have hhead := hscan.capturedHead_le
  have hnew : (w.prune envelope n).newFloor = w.newFloor + 1 := by
    rw [prune_newFloor]
    omega
  refine ⟨by omega, by omega, ?_, ?_⟩
  · rw [hnew, Nat.add_sub_cancel]
    exact hscan.prunable_safe.mono hle
  · rw [prune_batch, hnew, h.batch, Nat.succ_sub hfloor, range'_concat, map_append]
    simp only [Nat.one_mul, map_cons, map_nil]
    rw [Nat.add_sub_cancel' hfloor]

theorem deletePrunable_keeps (hlen : log.length < u64Bound) {w w' : MempoolRetentionStepWork}
    (hscan : ScanInvariant log p) (h : WorkInvariant log floor w)
    (hok : deletePrunableMempoolEvents E rows budget p w = .ok w') :
    WorkInvariant log floor w' := by
  obtain ⟨turn, hloop, rfl⟩ := state_eq_ok.mp hok
  refine whileLoop_invariant (WorkInvariant log floor) ?_ h hloop
  intro w r hw hr
  rcases deleteTurn_eq_ok hr with rfl | ⟨hle, _, envelope, n, rfl⟩
  · exact hw
  · exact hw.prune hscan hlen hle envelope n

section

variable (hlog : LogHolds E rows log floor)
include hlog

theorem scanTurn_keeps {r : Turn StepState}
    (h : StepInvariant log floor s) (hr : scanTurnKeeping E rows budget s = .ok r) :
    StepInvariant log floor r.state := by
  rcases scanTurn_eq_ok (scanTurnKeeping_eq_ok.mp hr) with
    rfl | ⟨_, hgoing, _, _, envelope, n, hread, hcase⟩
  · exact h
  · have hwork : WorkInvariant log floor (s.2.recordExamined n) :=
      ⟨h.2.floor_le, h.2.newFloor_le, h.2.safe, h.2.batch⟩
    obtain ⟨_, o, ho, rfl⟩ := hlog.read_eq_ok hread
    rcases hcase with rfl | rfl
    · exact ⟨h.1.inspect hgoing hlog.length_lt ho, hwork⟩
    · exact ⟨h.1.terminate _, hwork⟩

theorem retentionRound_keeps {r : Turn StepState}
    (h : StepInvariant log floor s) (hr : retentionRound E rows budget s = .ok r) :
    StepInvariant log floor r.state := by
  obtain ⟨work, s', hdelete, hscan, ⟨rfl, _⟩ | ⟨rfl, _⟩⟩ := retentionRound_eq_ok hr
  · have hwork := deletePrunable_keeps hlog.length_lt h.1 h.2 hdelete
    have hbetween : StepInvariant log floor (s.1, work) := ⟨h.1, hwork⟩
    obtain ⟨turn, hloop, rfl⟩ := state_eq_ok.mp hscan
    have hscanned := whileLoop_invariant (StepInvariant log floor) (fun _ _ => scanTurn_keeps hlog)
      hbetween hloop
    exact hscanned
  · exact h

theorem retentionRound_error
    {e : MempoolLogError × MempoolEventRetentionProgress} (h : StepInvariant log floor s)
    (hr : retentionRound E rows budget s = .error e) : ScanInvariant log e.2 := by
  rw [retentionRound] at hr
  cases hdelete : deletePrunableMempoolEvents E rows budget s.1 s.2 with
  | error e' =>
    rw [hdelete] at hr
    cases hr
    exact h.1
  | ok work =>
    rw [hdelete] at hr
    have hwork := deletePrunable_keeps hlog.length_lt h.1 h.2 hdelete
    have hbetween : StepInvariant log floor (s.1, work) := ⟨h.1, hwork⟩
    cases hscan : scanExpiredMempoolEvents E rows budget (s.1, work) with
    | error e' =>
      simp only [Except.mapError, ok_bind, hscan, error_bind] at hr
      cases hr
      obtain ⟨t, ht, hturn⟩ := whileLoop_error (StepInvariant log floor)
        (fun _ _ => scanTurn_keeps hlog) hbetween (state_eq_error.mp hscan)
      rw [scanTurnKeeping] at hturn
      cases hinner : scanTurn E rows budget t with
      | error e' =>
        rw [hinner] at hturn
        cases hturn
        exact ht.1
      | ok r =>
        rw [hinner] at hturn
        cases hturn
    | ok s' =>
      simp only [Except.mapError, ok_bind, hscan] at hr
      split at hr <;> cases hr

end

theorem stepInvariant_new (hscan : ScanInvariant log p) (hle : floor ≤ log.length)
    (hsafe : CutSafe (changes log) (floor - 1)) :
    StepInvariant log floor (p, .new floor) :=
  ⟨hscan, Nat.le_refl _, hle, hsafe, by simp [MempoolRetentionStepWork.new]⟩

theorem performRetention_keeps (hlog : LogHolds E rows log floor) (hne : log ≠ [])
    (hscan : ScanInvariant log p)
    (hok : performMempoolRetentionStep E rows budget p floor = .ok s') :
    StepInvariant log floor s' := by
  obtain ⟨turn, hloop, rfl⟩ := state_eq_ok.mp hok
  exact whileLoop_invariant (StepInvariant log floor) (fun _ _ => retentionRound_keeps hlog)
    (stepInvariant_new hscan (hlog.floor_le_length hne) hlog.safe) hloop

theorem performRetention_error (hlog : LogHolds E rows log floor) (hne : log ≠ [])
    (hscan : ScanInvariant log p) {e : MempoolLogError × MempoolEventRetentionProgress}
    (herror : performMempoolRetentionStep E rows budget p floor = .error e) :
    ScanInvariant log e.2 := by
  obtain ⟨t, ht, hround⟩ := whileLoop_error (StepInvariant log floor)
    (fun _ _ => retentionRound_keeps hlog)
    (stepInvariant_new hscan (hlog.floor_le_length hne) hlog.safe) (state_eq_error.mp herror)
  exact retentionRound_error hlog ht hround

theorem events_deleteEvents (rows : MempoolRows) (start count s : Nat) :
    (rows.write ((List.range' start count).map .deleteEvent)).events[s]? =
      if start ≤ s ∧ s < start + count then none else rows.events[s]? := by
  induction count generalizing rows start with
  | zero =>
    rw [if_neg (by omega)]
    rfl
  | succ count ih =>
    refine (ih (RowOp.apply rows _) (start + 1)).trans ?_
    simp only [RowOp.apply, ExtTreeMap.getElem?_erase, Nat.compare_eq_eq]
    by_cases hs : start = s
    · subst hs
      simp
    · rw [if_neg hs]
      by_cases hin : start + 1 ≤ s ∧ s < start + 1 + count
      · rw [if_pos hin, if_pos (by omega)]
      · rw [if_neg hin, if_neg (by omega)]

theorem eventSequence_deleteEvents (rows : MempoolRows) (sequences : List Nat) :
    (rows.write (sequences.map .deleteEvent)).eventSequence = rows.eventSequence := by
  induction sequences generalizing rows with
  | nil => rfl
  | cons n sequences ih => exact ih (RowOp.apply rows (.deleteEvent n))

theorem LogHolds.prune (h : LogHolds E rows log floor) (hne : log ≠ [])
    {w : MempoolRetentionStepWork} (hw : WorkInvariant log floor w) :
    LogHolds E (rows.write (w.batch ++ [.putRetentionFloor w.newFloor])) log w.newFloor := by
  have hpos := h.floor_pos
  have hfloor := hw.floor_le
  rw [hw.batch, LogHolds.write_append]
  refine ⟨?_, ?_, ?_, by omega, ?_, h.length_lt, hw.safe⟩
  · rw [← h.eventSequence, ← eventSequence_deleteEvents rows]
    rfl
  · rw [if_neg hne]
    rfl
  · intro s
    show (rows.write ((List.range' floor (w.newFloor - floor)).map .deleteEvent)).events[s]? = _
    rw [events_deleteEvents, h.events]
    by_cases hs : w.newFloor ≤ s
    · rw [if_neg (by omega), if_pos (by omega), if_pos hs]
    · rw [if_neg hs]
      by_cases hs' : floor ≤ s
      · rw [if_pos (by omega)]
      · rw [if_neg (by omega), if_neg hs']
  · have := hw.newFloor_le
    omega

end Step

end Zinder.Mempool
