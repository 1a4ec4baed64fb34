import Zinder.Canonical.PrimaryRun
import Zinder.Views.PassConverges

/-!
# Zinder.Views.Secondary

The reads of a canonical secondary, from the rows of the store it follows, and the timeline they serve.

`secondaryOf` is executable. `timelineOf` is the history of `Zinder.Canonical.History` as the views
see it; `serves_timelineOf` says that the reads are those of the timeline, and `LiveStep.extends` that
a live transition extends it by one event.
-/

namespace Zinder.Views

open Canonical List

/-! ## The reads -/

section Reads

variable {D : Type} [DecidableEq D] (E : Env D) (s : RocksDbCanonicalStore D)

variable (range : BlockHeightRange)

/-- The number of blocks of a requested range, as `validate_incremental_replay_range_bound` counts. -/
def requestedBlockCount : Nat :=
  if range.start ≤ range.stop then (checkedAdd u32Bound (range.stop - range.start) 1).getD 0 else 0

/-- One row of `CanonicalReplayRangeScan`, after the block with `previousHash`. -/
def scanRow (previousHash : Option BlockHash) (height : Nat) :
    Except CanonicalStoreError CanonicalBlockFacts := do
  let persisted ← readPersistedReplay E s.db height
  let facts := persisted.replay.facts
  let connected := match previousHash with
    | some previousHash => decide (facts.parentHash = previousHash)
    | none => decide (height = s.readyEvidence.firstRetainedBlock.height ∧
        facts.blockHash = s.readyEvidence.firstRetainedBlock.hash)
  rejectIf (connected = false)
    (.blockReplaySequence s!"requested replay range is detached at height {height}")
  .ok facts

def scanRows : (previousHash : Option BlockHash) → List Nat →
    Except CanonicalStoreError (List CanonicalBlockFacts)
  | _, [] => .ok []
  | previousHash, height :: heights => do
    let facts ← scanRow E s previousHash height
    let rest ← scanRows (some facts.blockHash) heights
    .ok (facts :: rest)

def predecessorHash : Except CanonicalStoreError (Option BlockHash) :=
  if range.start ≤ range.stop ∧ s.readyEvidence.firstRetainedBlock.height < range.start then do
    let predecessor ← readPersistedReplay E s.db (range.start - 1)
    .ok (some predecessor.replay.facts.blockHash)
  else .ok none

/-- `scan_canonical_replay_range`, collected. -/
def scanCanonicalReplayRange : Except CanonicalStoreError (List CanonicalBlockFacts) := do
  rejectIf (maxCanonicalIncrementalReplayBlocks < requestedBlockCount range)
    (.blockReplaySequence s!"requested replay range has {requestedBlockCount range} blocks; maximum is {maxCanonicalIncrementalReplayBlocks}")
  let first := s.readyEvidence.firstRetainedBlock.height
  let tip := s.readyEvidence.visibleTip.height
  rejectIf (range.start ≤ range.stop ∧ (range.start < first ∨ tip < range.stop))
    (.blockReplaySequence s!"requested replay range {range.start}..={range.stop} is outside admitted canonical range {first}..={tip}")
  let previousHash ← predecessorHash E s range
  scanRows E s previousHash range.heights

end Reads

theorem eventSequence_readRetainedEvent {D : Type} {db : Db D} {sequence : Nat}
    {event : CanonicalRetainedEvent D} (h : readRetainedEvent db sequence = .ok event) :
    event.eventSequence = sequence := by
  simp only [readRetainedEvent, bind_eq_ok] at h
  obtain ⟨_, _, _, _, _, _, _, _, h⟩ := h
  cases h
  rfl

theorem readRetainedEvent_fails {D : Type} {db : Db D} {sequence : Nat} :
    FailsOnly (fun e => ∃ reason, e = .canonicalEventRecordMalformed sequence reason)
      (readRetainedEvent db sequence) := by
  have hrange : ∀ range allowed, FailsOnly
      (fun e => ∃ reason, e = .canonicalEventRecordMalformed sequence reason)
      (validateEventRange sequence range allowed) := fun _ _ => .rejectIf ⟨_, rfl⟩
  have hshape : ∀ record : ChainEventRecord D, FailsOnly
      (fun e => ∃ reason, e = .canonicalEventRecordMalformed sequence reason)
      (validateEventRecordShape sequence record) := by
    intro record
    unfold validateEventRecordShape
    cases record.revertedRange with
    | none => exact (hrange _ _).bind fun _ => .rejectIf ⟨_, rfl⟩
    | some range =>
      exact (hrange range false).bind fun _ => (hrange _ _).bind fun _ => .rejectIf ⟨_, rfl⟩
  unfold readRetainedEvent
  refine .bind (.okOr ⟨_, rfl⟩) fun record => .bind (hshape record) fun _ => ?_
  exact .bind (.rejectIf ⟨_, rfl⟩) fun _ => .bind (.rejectIf ⟨_, rfl⟩) fun _ => .ok _

/-- The reads of a secondary that has caught up with a store. -/
def secondaryOf {D : Type} [DecidableEq D] (E : Env D) (s : PrimaryStore D) :
    CanonicalSecondary D where
  firstAvailableHeight := s.canonical.buildPlan.historyBounds.firstAvailableHeight
  eventFenceSequence := s.canonical.readyEvidence.visibleEventSequence
  chainEpoch := chainEpochAt s.canonical.db s.canonical.readyEvidence.visibleEpoch
  chainEpochAt := chainEpochAt s.canonical.db
  retentionFloor := s.retentionFloor
  retainedEvent := readRetainedEvent s.canonical.db
  blockFacts range := (scanCanonicalReplayRange E s.canonical range).mapError .store
  eventSequence_retainedEvent _ _ := eventSequence_readRetainedEvent
  retainedEvent_ne_expired _ _ _ h := by
    obtain ⟨_, hmalformed⟩ := readRetainedEvent_fails _ h
    cases hmalformed

/-! ## The facts a store has of its blocks -/

section Facts

variable {D : Type} [DecidableEq D] {E : Env D}

/-- The facts that the replay envelope of a block decodes to. -/
def VisibleBlock.replayFacts (v : VisibleBlock E) : CanonicalBlockFacts :=
  match h : decodeCanonicalBlockReplay E.hash E.replay v.block.replayEnvelope.bytes with
  | .ok replay => replay.facts
  | .error _ => absurd h (by
      obtain ⟨_, hdecode, _⟩ := v.block.replayEnvelope.decode
      rw [hdecode]
      exact fun h => (by cases h))

theorem VisibleBlock.replayFacts_eq {v : VisibleBlock E} {digest : D} {facts : CanonicalBlockFacts}
    (h : decodeCanonicalBlockReplay E.hash E.replay v.block.replayEnvelope.bytes =
      .ok ⟨digest, facts⟩) : VisibleBlock.replayFacts v = facts := by
  unfold replayFacts
  split
  · next replay hreplay =>
    rw [hreplay] at h
    cases h
    rfl
  · next hreplay =>
    rw [hreplay] at h
    cases h

theorem VisibleBlock.height_replayFacts {v : VisibleBlock E} (h : Admitted v.block) :
    (VisibleBlock.replayFacts v).height = v.block.height := by
  obtain ⟨facts, hdecode, hheight, _⟩ := v.block.replayEnvelope.decode
  rw [replayFacts_eq hdecode, hheight, h.envelope_height]

variable {plan : CanonicalStoreBuildPlan} {earlier : List SubtreeRootArtifact} {chain : Chain E}
  {s : RocksDbCanonicalStore D}

section

variable (h : HoldsChain plan earlier chain s.db)
include h

theorem facts_of_readPersistedReplay {height : Nat} {p : PersistedReplayStep D}
    (hread : readPersistedReplay E s.db height = .ok p) :
    ∃ v ∈ chain, v.block.height = height ∧ p.replay.facts = VisibleBlock.replayFacts v := by
  obtain ⟨v, hv, rfl⟩ := h.block_of_readPersistedReplay hread
  refine ⟨v, hv, rfl, ?_⟩
  simp only [readPersistedReplay, h.lookup_replay hv, okOr_some, ok_bind, decodePersistedReplay,
    bind_eq_ok, mapError_ok_iff] at hread
  obtain ⟨replay, ⟨_, hdecode, _, _, hreplay⟩, _, _, hp⟩ := hread
  cases hreplay
  cases hp
  exact (VisibleBlock.replayFacts_eq hdecode).symm

theorem facts_of_scanRows {previousHash : Option BlockHash} {heights : List Nat}
    {blocks : List CanonicalBlockFacts} (hscan : scanRows E s previousHash heights = .ok blocks) :
    ∀ facts ∈ blocks, ∃ v ∈ chain, facts = VisibleBlock.replayFacts v := by
  induction heights generalizing previousHash blocks with
  | nil =>
    cases hscan
    exact fun facts hfacts => (by cases hfacts)
  | cons height heights ih =>
    simp only [scanRows, bind_eq_ok] at hscan
    obtain ⟨first, hfirst, rest, hrest, hblocks⟩ := hscan
    cases hblocks
    intro facts hfacts
    rcases mem_cons.mp hfacts with rfl | hfacts
    · simp only [scanRow, bind_eq_ok] at hfirst
      obtain ⟨p, hread, _, _, hok⟩ := hfirst
      cases hok
      obtain ⟨v, hv, _, heq⟩ := facts_of_readPersistedReplay h hread
      exact ⟨v, hv, heq⟩
    · exact ih hrest facts hfacts

theorem facts_of_scan {range : BlockHeightRange} {blocks : List CanonicalBlockFacts}
    (hscan : scanCanonicalReplayRange E s range = .ok blocks) :
    ∀ facts ∈ blocks, ∃ v ∈ chain, facts = VisibleBlock.replayFacts v := by
  simp only [scanCanonicalReplayRange, bind_eq_ok] at hscan
  obtain ⟨_, _, _, _, _, _, hrows⟩ := hscan
  exact facts_of_scanRows h hrows

end

end Facts

theorem mem_of_contextsOf {blocks : List CanonicalBlockFacts} {height : Nat}
    {facts : CanonicalBlockFacts} (h : (contextsOf blocks)[height]? = some facts) :
    facts ∈ blocks ∧ facts.height = height := by
  induction blocks using List.reverseRecOn with
  | nil =>
    rw [contextsOf, foldl_nil, Std.ExtTreeMap.getElem?_empty] at h
    cases h
  | append_singleton blocks block ih =>
    rw [contextsOf, foldl_append, foldl_cons, foldl_nil,
      Std.ExtTreeMap.getElem?_insert] at h
    split at h
    · next heq =>
      cases h
      exact ⟨mem_append_right _ (mem_singleton.mpr rfl), Nat.compare_eq_eq.mp heq⟩
    · obtain ⟨hmem, hheight⟩ := ih h
      exact ⟨mem_append_left _ hmem, hheight⟩

/-! ## The entries of a history -/

section Entries

variable {D : Type} {E : Env D} {st : LiveState E} {floor : Nat} {past : List (HistoryEntry E)}

def entryReverts (start : BlockId) (h : HistoryEntry E) : Option Nat :=
  match h.kind with
  | .replacement kept => some (start.height + kept + 1)
  | _ => none

theorem tips_length (inv : HistoryInvariant st floor past) :
    previousLength past past.length = st.chain.length := by
  obtain ⟨h, hlast, hchain, _⟩ := inv.current
  rw [previousLength_length hlast, hchain]

section

variable (inv : HistoryInvariant st floor past) {n : Nat} {h : HistoryEntry E}
  (hn : past[n]? = some h)
include inv hn

theorem entry_bounds :
    (∀ a, entryReverts st.start h = some a →
      st.start.height + 1 ≤ a ∧ a ≤ st.start.height + previousLength past n) ∧
    (entryReverts st.start h).getD (st.start.height + previousLength past n + 1) ≤
      st.start.height + h.chain.length := by
  have hvalid := inv.valid h (mem_of_getElem? hn)
  have hpos := hvalid.settled_pos
  have hle := hvalid.settled_le
  cases n with
  | zero =>
    have hkind := inv.baseline h (by rw [head?_eq_getElem?]; exact hn)
    rw [entryReverts, hkind]
    refine ⟨fun a ha => (by cases ha), ?_⟩
    rw [previousLength, Option.getD_none]
    omega
  | succ n =>
    obtain ⟨previous, hprevious, hevolves⟩ := exists_previous inv hn
    rw [previousLength_succ hprevious]
    cases hevolves with
    | append v hkind hchain _ =>
      rw [entryReverts, hkind, hchain, length_append, length_singleton]
      exact ⟨fun a ha => (by cases ha), Nat.le_refl _⟩
    | @replacement kept new hkind hchain hnew _ hkept _ _ =>
      have hlength := length_pos_iff.mpr hnew
      rw [entryReverts, hkind, hchain, length_append, length_take,
        Nat.min_eq_left (Nat.le_of_lt hkept)]
      refine ⟨fun a ha => ?_, ?_⟩
      · cases ha
        omega
      · rw [Option.getD_some]
        omega

theorem readRetainedEvent_entry (hfloor : floor ≤ n + 1) {event : CanonicalRetainedEvent D}
    (hread : readRetainedEvent st.store.db (n + 1) = .ok event) :
    event.committedRange = h.committedRange st.start ∧
      eventReverted event = h.revertedRange st.start (previousLength past n) := by
  simp only [readRetainedEvent, inv.events n h hn (.inr hfloor), okOr_some, ok_bind,
    bind_eq_ok] at hread
  obtain ⟨_, _, _, _, _, _, hevent⟩ := hread
  cases hevent
  refine ⟨rfl, ?_⟩
  rw [eventReverted]
  dsimp only [HistoryEntry.event]
  cases h.revertedRange st.start (previousLength past n) <;> rfl

end

end Entries

/-! ## The timeline of a store -/

section Timeline

variable {D : Type} [DecidableEq D] {E : Env D}

def factsAt (st : LiveState E) (height : Nat) : Option CanonicalBlockFacts :=
  if st.start.height < height then
    (st.chain[height - (st.start.height + 1)]?).map VisibleBlock.replayFacts
  else none

theorem factsAt_eq_some {st : LiveState E} {height : Nat} {facts : CanonicalBlockFacts} :
    factsAt st height = some facts ↔
      ∃ i v, height = st.start.height + 1 + i ∧ st.chain[i]? = some v ∧
        facts = VisibleBlock.replayFacts v := by
  unfold factsAt
  constructor
  · intro h
    split at h
    · next hlt =>
      obtain ⟨v, hv, rfl⟩ := Option.map_eq_some_iff.mp h
      exact ⟨_, v, by omega, hv, rfl⟩
    · cases h
  · rintro ⟨i, v, rfl, hv, rfl⟩
    rw [if_pos (by omega), Nat.add_sub_cancel_left, hv]
    rfl

/-- The history of a store as the views see it. -/
def timelineOf (st : LiveState E) (past : List (HistoryEntry E)) {floor : Nat}
    (inv : HistoryInvariant st floor past) : Timeline where
  first := st.start.height + 1
  fence := past.length
  tips n := st.start.height + previousLength past n
  reverts n := (past[n]?).bind (entryReverts st.start)
  blocks := factsAt st
  fence_pos := by
    obtain ⟨_, hlast, _⟩ := inv.current
    exact length_pos_of_mem (mem_of_getLast? hlast)
  tips_zero := rfl
  reverts_le n a _ ha := by
    obtain ⟨h, hn, ha⟩ := Option.bind_eq_some_iff.mp ha
    exact (entry_bounds inv hn).1 a ha
  commits n hn := by
    have hentry : past[n]? = some past[n] := getElem?_eq_getElem hn
    rw [hentry, Option.bind_some, previousLength_succ hentry]
    exact (entry_bounds inv hentry).2
  isSome_blocks height := by
    rw [tips_length inv, Option.isSome_iff_exists]
    constructor
    · rintro ⟨facts, hfacts⟩
      obtain ⟨i, v, rfl, hv, _⟩ := factsAt_eq_some.mp hfacts
      obtain ⟨hlt, _⟩ := List.getElem?_eq_some_iff.mp hv
      omega
    · rintro ⟨hge, hle⟩
      have hlt : height - (st.start.height + 1) < st.chain.length := by omega
      exact ⟨_, factsAt_eq_some.mpr ⟨_, _, by omega, getElem?_eq_getElem hlt, rfl⟩⟩
  height_blocks height facts hfacts := by
    obtain ⟨i, v, rfl, hv, rfl⟩ := factsAt_eq_some.mp hfacts
    obtain ⟨_, _, _, live⟩ := inv.current
    rw [VisibleBlock.height_replayFacts (live.holds.admitted v (mem_of_getElem? hv))]
    exact live.holds.linked.height_of_getElem? hv

variable {st st' : LiveState E} {floor : Nat} {past : List (HistoryEntry E)}

variable (inv : HistoryInvariant st floor past)

theorem entry_ranges {n : Nat} {h : HistoryEntry E} (hn : past[n]? = some h) :
    h.committedRange st.start =
        ⟨(timelineOf st past inv).commitStart n, (timelineOf st past inv).tips (n + 1)⟩ ∧
      h.revertedRange st.start (previousLength past n) =
        ((timelineOf st past inv).reverts n).map fun a => ⟨a, (timelineOf st past inv).tips n⟩ := by
  have hreverts : (timelineOf st past inv).reverts n = entryReverts st.start h := by
    change (past[n]?).bind (entryReverts st.start) = _
    rw [hn, Option.bind_some]
  have htips : (timelineOf st past inv).tips (n + 1) = st.start.height + h.chain.length := by
    change st.start.height + previousLength past (n + 1) = _
    rw [previousLength_succ hn]
  have hprevious : (timelineOf st past inv).tips n = st.start.height + previousLength past n := rfl
  rw [Timeline.commitStart, hreverts, htips, hprevious, HistoryEntry.committedRange,
    HistoryEntry.revertedRange, entryReverts]
  cases n with
  | zero =>
    rw [inv.baseline h (by rw [head?_eq_getElem?]; exact hn)]
    exact ⟨rfl, rfl⟩
  | succ n =>
    obtain ⟨previous, hpast, hevolves⟩ := exists_previous inv hn
    rw [previousLength_succ hpast]
    cases hevolves with
    | append v hkind hchain _ =>
      rw [hkind, hchain, length_append]
      exact ⟨rfl, rfl⟩
    | replacement hkind =>
      rw [hkind]
      exact ⟨rfl, rfl⟩

/-- The reads of the secondary are those of the timeline. -/
theorem serves_timelineOf {lifecycle : LifecycleRows}
    (hfloor : PrimaryStore.retentionFloor ⟨st.store, lifecycle⟩ = .ok floor) :
    Serves (secondaryOf E ⟨st.store, lifecycle⟩) (timelineOf st past inv) floor where
  first := st.store.buildPlan.firstAvailable
  fence := inv.length.symm
  retained := hfloor
  committed n event hretained hn hread := by
    have hentry : past[n]? = some past[n] := getElem?_eq_getElem hn
    rw [(readRetainedEvent_entry inv hentry hretained hread).1]
    exact (entry_ranges inv hentry).1
  reverted n event hretained hn hread := by
    have hentry : past[n]? = some past[n] := getElem?_eq_getElem hn
    rw [(readRetainedEvent_entry inv hentry hretained hread).2]
    exact (entry_ranges inv hentry).2
  epoch epoch hepoch := by
    obtain ⟨_, _, _, live⟩ := inv.current
    obtain ⟨record, hrecord, htip, _⟩ := live.epoch
    simp only [secondaryOf, chainEpochAt, hrecord, okOr_some, ok_bind] at hepoch
    cases hepoch
    change record.visibleTip.height = st.start.height + previousLength past past.length
    rw [htip, live.tip_height, tips_length inv]
  blocks range blocks height facts hblocks hheight hcontext := by
    obtain ⟨_, _, _, live⟩ := inv.current
    obtain ⟨hmem, rfl⟩ := mem_of_contextsOf hcontext
    simp only [secondaryOf, mapError_ok_iff] at hblocks
    obtain ⟨v, hv, rfl⟩ := facts_of_scan live.holds hblocks facts hmem
    obtain ⟨i, hi⟩ := mem_iff_getElem?.mp hv
    refine factsAt_eq_some.mpr ⟨i, v, ?_, hi, rfl⟩
    rw [VisibleBlock.height_replayFacts (live.holds.admitted v hv)]
    exact live.holds.linked.height_of_getElem? hi

theorem extends_timelineOf {next : HistoryEntry E}
    (inv' : HistoryInvariant st' floor (past ++ [next])) (hstart : st'.start = st.start) :
    (timelineOf st past inv).Extends (timelineOf st' (past ++ [next]) inv') where
  first := congrArg (fun b => BlockId.height b + 1) hstart
  fence := by
    change (past ++ [next]).length = past.length + 1
    rw [length_append, length_singleton]
  tips n hn := by
    change st'.start.height + previousLength (past ++ [next]) n = st.start.height + previousLength past n
    rw [hstart, previousLength_append hn]
  reverts n hn := by
    change ((past ++ [next])[n]?).bind _ = (past[n]?).bind _
    rw [getElem?_append_left hn, hstart]
  blocks height hheight := by
    change factsAt st' height = factsAt st height
    obtain ⟨last, hlast, hchain, _⟩ := inv.current
    obtain ⟨next', hnext, hchain', _⟩ := inv'.current
    rw [getLast?_concat] at hnext
    cases hnext
    -- the event is the one after the last entry
    have hcommit : height < (entryReverts st'.start next).getD
        (st'.start.height + last.chain.length + 1) := by
      have hreverts : (timelineOf st' (past ++ [next]) inv').reverts past.length =
          entryReverts st'.start next := by
        change ((past ++ [next])[past.length]?).bind _ = _
        rw [getElem?_concat_length, Option.bind_some]
      have htips : (timelineOf st' (past ++ [next]) inv').tips past.length =
          st'.start.height + last.chain.length := by
        change st'.start.height + previousLength (past ++ [next]) past.length = _
        rw [previousLength_append (Nat.le_refl _), previousLength_length hlast]
      rw [← hreverts, ← htips]
      exact hheight
    have hlastIndex : (past ++ [next])[past.length - 1]? = some last := by
      rw [getLast?_eq_getElem?] at hlast
      rw [getElem?_append_left (List.getElem?_eq_some_iff.mp hlast).1]
      exact hlast
    have hnextIndex : (past ++ [next])[past.length - 1 + 1]? = some next := by
      have hpos : 0 < past.length := length_pos_of_mem (mem_of_getLast? hlast)
      rw [Nat.sub_add_cancel hpos, getElem?_concat_length]
    unfold factsAt
    rw [hstart]
    split
    · rw [← hchain, ← hchain']
      rw [entryReverts, hstart] at hcommit
      refine congrArg (Option.map _) ?_
      obtain ⟨_, hprevious, hevolves⟩ := exists_previous inv' hnextIndex
      cases hlastIndex.symm.trans hprevious
      cases hevolves with
      | append v hkind happend _ =>
        rw [hkind, Option.getD_none] at hcommit
        rw [happend, getElem?_append_left (by omega)]
      | @replacement kept new hkind hreplace _ _ hkept _ _ =>
        rw [hkind, Option.getD_some] at hcommit
        rw [hreplace, getElem?_append_left (by rw [length_take]; omega),
          getElem?_take_of_lt (by omega)]
    · rfl

end Timeline

end Zinder.Views
