import Zinder.Canonical.History

/-!
# Zinder.Canonical.Displacements

What replacements have displaced, next to the archive rows that record it.

A `Displacement` is one replacement's event with the blocks it displaced; a `DisplacementRun` lists
the displacements of a run of live transitions, oldest first. `ArchiveHolds` says which rows an
archive of those displacements has: one order row per displaced block, one context per event, the
newest position of every displaced hash, and the totals. `DisplacementRun.archive` establishes it
for every run.
-/

namespace Zinder.Canonical

open KeyValue Relation List

variable {D : Type} {E : Env D}

/-! ## Displacements -/

/-- The blocks one replacement displaced, lowest first. -/
structure Displacement (E : Env D) extends DisplacedArchiveEvent where
  blocks : Chain E

namespace Displacement

variable (d : Displacement E)

def position (v : VisibleBlock E) : ArchivePosition :=
  ⟨d.eventSequence, v.block.height, v.block.hash⟩

def record (v : VisibleBlock E) : ArchiveRecord where
  replayBytes := v.displaced.replayBytes
  displacementEpoch := d.displacementEpoch
  displacedAt := d.displacedAt
  rawBlockBytes := v.displaced.rawBlockBytes
  finalNoteCommitmentRoots := none

def positions : List ArchivePosition := d.blocks.map d.position

def archivedRows : List (Row (Val D)) :=
  d.blocks.flatMap (VisibleBlock.archivedRows d.toDisplacedArchiveEvent)

def context (before : Nat) : ArchiveEventContext where
  eventSequence := d.eventSequence
  revertedRange := d.revertedRange
  displacementEpoch := d.displacementEpoch
  displacedAt := d.displacedAt
  rowCount := d.blocks.length
  cumulativeBlockCount := before + d.blocks.length

/-- What an archive write has checked of an event and its blocks. -/
structure Valid [DecidableEq D] (window : Nat) (d : Displacement E) : Prop where
  epoch_eq : d.displacementEpoch = d.eventSequence
  sequence_pos : 0 < d.eventSequence
  sequence_lt : d.eventSequence < u64Bound
  heights : d.blocks.map (fun v => v.block.height) = d.revertedRange.heights
  count : checkedReorgRangeCount window d.revertedRange = .ok d.blocks.length
  writable : ∀ v ∈ d.blocks, validateDisplacedWriteBlock E v.displaced = .ok ()
  replay_lt : ∀ v ∈ d.blocks, v.displaced.replayBytes.length < u32Bound
  raw_lt : ∀ v ∈ d.blocks, ∀ raw ∈ v.displaced.rawBlockBytes, raw.length < u32Bound

end Displacement

variable (ds : List (Displacement E))

def displacedPositions : List ArchivePosition :=
  ds.flatMap Displacement.positions

def displacedCount : Nat :=
  (ds.map fun d => d.blocks.length).sum

def newestPosition (hash : BlockHash) : Option ArchivePosition :=
  (displacedPositions ds).reverse.find? fun p => p.blockHash = hash

def archiveState : List (Displacement E) → Option ArchiveState
  | [] => none
  | first :: rest => some
      { activationEventSequence := first.eventSequence
        activationEpoch := first.displacementEpoch
        activatedAt := first.displacedAt
        blockCount := displacedCount (first :: rest)
        latestEventSequence := ((first :: rest).getLast (cons_ne_nil _ _)).eventSequence }

@[simp] theorem displacedCount_append (a b : List (Displacement E)) :
    displacedCount (a ++ b) = displacedCount a + displacedCount b := by
  simp [displacedCount]

@[simp] theorem displacedCount_singleton (d : Displacement E) :
    displacedCount [d] = d.blocks.length := by
  simp [displacedCount]

theorem length_displacedPositions : (displacedPositions ds).length = displacedCount ds := by
  induction ds with
  | nil => rfl
  | cons d ds ih =>
    simp only [displacedPositions, flatMap_cons, length_append] at ih ⊢
    simp [displacedCount, Displacement.positions, ih]

theorem newestPosition_concat (d : Displacement E) (hash : BlockHash) :
    newestPosition (ds ++ [d]) hash =
      (d.positions.reverse.find? fun p => p.blockHash = hash).or (newestPosition ds hash) := by
  simp [newestPosition, displacedPositions, find?_append]

variable {ds : List (Displacement E)}

theorem mem_displacedPositions {p : ArchivePosition} :
    p ∈ displacedPositions ds ↔ ∃ d ∈ ds, ∃ v ∈ d.blocks, d.position v = p := by
  simp [displacedPositions, Displacement.positions]

/-! ## The archive -/

/-- The archive of a list of displacements. -/
structure ArchiveHolds (db : Db D) (ds : List (Displacement E)) : Prop where
  order : ∀ p record, db.lookup (Key.displacedOrder p) = some record ↔
    ∃ d ∈ ds, ∃ v ∈ d.blocks, p = d.position v ∧ record = d.record v
  contexts : ∀ n c, db.lookup (Key.displacedEventContext n) = some c ↔
    ∃ before d after, ds = before ++ d :: after ∧ n = d.eventSequence ∧
      c = d.context (displacedCount before)
  pointers : ∀ hash, db.lookup (Key.displacedHashPointer hash) = newestPosition ds hash
  state : db.lookup Key.displacedState = archiveState ds

structure ArchiveInvariant [DecidableEq D] (st : LiveState E) (ds : List (Displacement E)) :
    Prop where
  holds : ArchiveHolds st.store.db ds
  ascending : ds.Pairwise fun d d' => d.eventSequence < d'.eventSequence
  past : ∀ d ∈ ds, d.eventSequence ≤ st.store.readyEvidence.visibleEventSequence
  valid : ∀ d ∈ ds, d.Valid st.store.window
  count_lt : displacedCount ds < u64Bound

theorem ArchiveHolds.of_untouched {db db' : Db D}
    (holds : ArchiveHolds db ds)
    (h : ∀ k : Key, k.isArchive = true → db'.lookup k = db.lookup k) : ArchiveHolds db' ds where
  order p record := by
    rw [h _ rfl]
    exact holds.order p record
  contexts n c := by
    rw [h _ rfl]
    exact holds.contexts n c
  pointers hash := by
    rw [h _ rfl]
    exact holds.pointers hash
  state := by
    rw [h _ rfl]
    exact holds.state

/-! ## One archive write -/

section Write

variable {s : RocksDbCanonicalStore D} {d : Displacement E}
  {rows : List (Row (Val D))}

theorem prepareDisplacedArchiveWrite_rows [DecidableEq D]
    (hheights : d.revertedRange.heights = d.blocks.map fun v => v.block.height)
    (h : prepareDisplacedArchiveWrite E s d.toDisplacedArchiveEvent
      (d.blocks.map VisibleBlock.displaced) = .ok rows) :
    (∃ state, ArchiveWriteSpec s d.toDisplacedArchiveEvent rows state d.blocks.length
      d.archivedRows) ∧
    ∀ v ∈ d.blocks, validateDisplacedWriteBlock E v.displaced = .ok () ∧
      v.displaced.replayBytes.length < u32Bound ∧
      ∀ raw ∈ v.displaced.rawBlockBytes, raw.length < u32Bound := by
  obtain ⟨state, count, blockRows, spec⟩ := prepareDisplacedArchiveWrite_eq_ok h
  simp only [prepareDisplacedArchiveWrite, bind_eq_ok, rejectIf_eq_ok, not_not, hheights,
    Unique.exists_iff] at h
  obtain ⟨_, count', hcount', hlength, _, prior, _, _, state', _, blocks, hblocks, h⟩ := h
  have hcount : count = d.blocks.length := by
    rw [length_map] at hlength
    have := spec.count_eq.symm.trans hcount'
    cases this
    exact hlength.symm
  rw [zip_map', collect_eq_ok, List.forall₂_map_left_iff] at hblocks
  have hrows : blocks = d.blocks.map (VisibleBlock.archivedRows d.toDisplacedArchiveEvent) ∧
      ∀ v ∈ d.blocks, validateDisplacedWriteBlock E v.displaced = .ok () ∧
        v.displaced.replayBytes.length < u32Bound ∧
        ∀ raw ∈ v.displaced.rawBlockBytes, raw.length < u32Bound := by
    clear h hcount hlength hheights
    generalize d.blocks = chain at hblocks
    induction hblocks with
    | nil => simp
    | @cons v out chain outs hv _ ih =>
      simp only [archiveBlockRows, bind_eq_ok, rejectIf_eq_ok, not_le, Unique.exists_iff] at hv
      obtain ⟨_, hwritable, hreplay, hraw, hv⟩ := hv
      cases hv
      refine ⟨by rw [ih.1]; rfl, ?_⟩
      rintro w hw
      rcases mem_cons.mp hw with rfl | hw
      · refine ⟨hwritable, hreplay, fun raw hmem => ?_⟩
        by_contra hle
        exact hraw ⟨raw, hmem, not_lt.mp hle⟩
      · exact ih.2 w hw
  cases h
  refine ⟨⟨state, ?_⟩, hrows.2⟩
  have hsplit := spec.rows_eq
  rw [List.cons.injEq] at hsplit
  have hblockRows : blockRows = d.archivedRows := by
    rw [Displacement.archivedRows, flatMap_def, ← hrows.1]
    exact (append_inj_left' hsplit.2 rfl).symm
  rw [← hcount, ← hblockRows]
  exact spec

theorem mem_archivedRows {k : Key} {x : Val D k} :
    (⟨k, x⟩ : Row (Val D)) ∈ d.archivedRows ↔
      ∃ v ∈ d.blocks, (⟨k, x⟩ : Row (Val D)) = ⟨.displacedOrder (d.position v), d.record v⟩ ∨
        (⟨k, x⟩ : Row (Val D)) = ⟨.displacedHashPointer v.block.hash, d.position v⟩ := by
  simp only [Displacement.archivedRows, mem_flatMap, VisibleBlock.archivedRows, mem_cons,
    not_mem_nil, or_false]
  rfl

variable {count : Nat} {state : ArchiveState}

section

variable
  (spec : ArchiveWriteSpec s d.toDisplacedArchiveEvent rows state count d.archivedRows)
  (hheights : (d.blocks.map fun v => v.block.height).Nodup)
include spec hheights

theorem count_displacedOrder_le_one (p : ArchivePosition) :
    rows.keys.count (.displacedOrder p) ≤ 1 := by
  have hkeys : d.archivedRows.keys =
      d.blocks.flatMap fun v => [.displacedOrder (d.position v),
        .displacedHashPointer v.block.hash] := by
    simp [List.keys, map_flatMap, Displacement.archivedRows, VisibleBlock.archivedRows,
      Displacement.position]
  have hblocks : (d.blocks.flatMap fun v => [Key.displacedOrder (d.position v),
      .displacedHashPointer v.block.hash]).count (.displacedOrder p) ≤ 1 := by
    refine count_flatMap_le_one (fun v _ => ?_) ?_
    · rw [count_cons, count_eq_zero.mpr (by simp)]
      split <;> omega
    · refine (pairwise_map.mp hheights).imp fun {v w} hne hv hw => ?_
      simp only [mem_cons, not_mem_nil, or_false, Key.displacedOrder.injEq,
        reduceCtorEq] at hv hw
      rw [hv, Displacement.position, Displacement.position, ArchivePosition.mk.injEq] at hw
      exact hne hw.2.1
  rw [spec.rows_eq, keys_cons, keys_append, count_cons, count_append, hkeys]
  simpa using hblocks

theorem lookup_displacedOrder (db : Db D) (p : ArchivePosition)
    (hfresh : p.eventSequence = d.eventSequence → db.lookup (Key.displacedOrder p) = none)
    (record : ArchiveRecord) :
    (write (rows.map Op.ofRow) db).lookup (Key.displacedOrder p) = some record ↔
      (∃ v ∈ d.blocks, p = d.position v ∧ record = d.record v) ∨
        db.lookup (Key.displacedOrder p) = some record := by
  have honce := count_displacedOrder_le_one spec hheights p
  have hmem : ∀ record : ArchiveRecord, (⟨.displacedOrder p, record⟩ : Row (Val D)) ∈ rows ↔
      ∃ v ∈ d.blocks, p = d.position v ∧ record = d.record v := by
    intro record
    rw [spec.rows_eq, mem_cons, mem_append, mem_archivedRows]
    simp only [Sigma.mk.injEq, reduceCtorEq, false_and, false_or, or_false, mem_singleton,
      Key.displacedOrder.injEq]
    refine exists_congr fun v => and_congr_right fun _ => ?_
    constructor
    · rintro ⟨rfl, hrecord⟩
      exact ⟨rfl, eq_of_heq hrecord⟩
    · rintro ⟨rfl, rfl⟩
      exact ⟨rfl, HEq.rfl⟩
  rw [lookup_write_puts honce, Option.or_eq_some_iff, dlookup_eq_some_iff honce, hmem]
  constructor
  · rintro (hnew | ⟨_, hold⟩)
    · exact .inl hnew
    · exact .inr hold
  · rintro (hnew | hold)
    · exact .inl hnew
    · refine .inr ⟨?_, hold⟩
      cases hfound : rows.dlookup (Key.displacedOrder p) with
      | none => rfl
      | some found =>
        obtain ⟨v, _, rfl, _⟩ := (hmem found).mp (of_mem_dlookup hfound)
        rw [hfresh rfl] at hold
        cases hold

end

theorem dlookup_archivedRows_pointer (event : DisplacedArchiveEvent) (chain : Chain E)
    (hash : BlockHash) :
    (chain.flatMap (VisibleBlock.archivedRows event)).reverse.dlookup
        (Key.displacedHashPointer hash) =
      (chain.map fun v => (⟨event.eventSequence, v.block.height, v.block.hash⟩ :
        ArchivePosition)).reverse.find? fun p => p.blockHash = hash := by
  induction chain using List.reverseRecOn with
  | nil => rfl
  | append_singleton chain v ih =>
    rw [flatMap_append, reverse_append, dlookup_append, ih]
    by_cases hv : v.block.hash = hash
    · subst hv
      simp [VisibleBlock.archivedRows]
    · have hne : Key.displacedHashPointer hash ≠ .displacedHashPointer v.block.hash := by
        simpa using Ne.symm hv
      simp [VisibleBlock.archivedRows, hv, dlookup_cons_ne, hne]

theorem lookup_displacedHashPointer
    (spec : ArchiveWriteSpec s d.toDisplacedArchiveEvent rows state count d.archivedRows)
    (db : Db D) (hash : BlockHash) :
    (write (rows.map Op.ofRow) db).lookup (Key.displacedHashPointer hash) =
      (d.positions.reverse.find? fun p => p.blockHash = hash).or
        (db.lookup (Key.displacedHashPointer hash)) := by
  rw [lookup_write_rows, spec.rows_eq, reverse_cons, reverse_append]
  simp only [reverse_cons, reverse_nil, nil_append, cons_append]
  rw [dlookup_cons_ne _ _ (by simp), dlookup_append, Displacement.archivedRows,
    dlookup_archivedRows_pointer,
    dlookup_cons_ne _ _ (by simp)]
  simp only [dlookup_nil, Option.or_none]
  rfl

theorem nextArchiveState_eq_ok
    (h : nextArchiveState (archiveState ds) d.toDisplacedArchiveEvent d.blocks.length = .ok state) :
    archiveState (ds ++ [d]) = some state ∧
      (ds ≠ [] → displacedCount (ds ++ [d]) < u64Bound) := by
  cases ds with
  | nil =>
    cases h
    exact ⟨by simp [archiveState], by simp⟩
  | cons first rest =>
    simp only [archiveState, nextArchiveState, bind_eq_ok, okOr_eq_ok, checkedAdd_eq_some] at h
    obtain ⟨_, ⟨hlt, rfl⟩, h⟩ := h
    cases h
    have hcount : displacedCount (first :: (rest ++ [d])) =
        displacedCount (first :: rest) + d.blocks.length := by
      rw [← cons_append, displacedCount_append, displacedCount_singleton]
    rw [cons_append]
    refine ⟨?_, fun _ => hcount ▸ hlt⟩
    simp [archiveState, hcount]

theorem ArchiveHolds.displaced (holds : ArchiveHolds s.db ds)
    (spec : ArchiveWriteSpec s d.toDisplacedArchiveEvent rows state d.blocks.length d.archivedRows)
    (hheights : (d.blocks.map fun v => v.block.height).Nodup)
    (hlater : ∀ d' ∈ ds, d'.eventSequence < d.eventSequence) {db : Db D}
    (hdb : ∀ k : Key, k.isArchive = true →
      db.lookup k = (write (rows.map Op.ofRow) s.db).lookup k) :
    ArchiveHolds db (ds ++ [d]) ∧ (ds ≠ [] → displacedCount (ds ++ [d]) < u64Bound) := by
  obtain ⟨prior, hprior, _, hnext⟩ := spec.prior
  rw [(readArchiveState_eq_ok hprior).1, holds.state] at hnext
  obtain ⟨hstate, hcount⟩ := nextArchiveState_eq_ok hnext
  have hblockCount : state.blockCount = displacedCount ds + d.blocks.length := by
    rw [← displacedCount_singleton d, ← displacedCount_append]
    cases ds with
    | nil =>
      cases hnext
      simp
    | cons first rest =>
      rw [cons_append, archiveState] at hstate
      rw [← Option.some.inj hstate]
      rfl
  refine ⟨?_, hcount⟩
  exact
    { order := by
        intro p record
        have hfresh : p.eventSequence = d.eventSequence →
            s.db.lookup (Key.displacedOrder p) = none := by
          intro hsequence
          refine Option.eq_none_iff_forall_ne_some.mpr fun found hfound => ?_
          obtain ⟨d', hd', v, _, rfl, _⟩ := (holds.order p found).mp hfound
          have := hlater d' hd'
          simp only [Displacement.position] at hsequence
          omega
        rw [hdb _ rfl, lookup_displacedOrder spec hheights s.db p hfresh, holds.order]
        simp only [mem_append, mem_singleton]
        constructor
        · rintro (⟨v, hv, hrow⟩ | ⟨d', hd', hrow⟩)
          · exact ⟨d, .inr rfl, v, hv, hrow⟩
          · exact ⟨d', .inl hd', hrow⟩
        · rintro ⟨d', hd' | rfl, hrow⟩
          · exact .inr ⟨d', hd', hrow⟩
          · exact .inl hrow
      contexts := by
        intro n c
        rw [hdb _ rfl, spec.lookup_context, hblockCount]
        constructor
        · intro hlookup
          split at hlookup
          · next hn =>
            cases hlookup
            exact ⟨ds, d, [], rfl, hn, rfl⟩
          · obtain ⟨before, d', after, rfl, hn, hc⟩ := (holds.contexts n c).mp hlookup
            exact ⟨before, d', after ++ [d], by simp, hn, hc⟩
        · rintro ⟨before, d', after, hsplit, rfl, rfl⟩
          rcases eq_nil_or_concat after with rfl | ⟨after, last, rfl⟩
          · obtain ⟨rfl, hd⟩ := append_inj' hsplit rfl
            cases hd
            exact if_pos rfl
          · rw [concat_eq_append, ← cons_append, ← append_assoc] at hsplit
            obtain ⟨rfl, hd⟩ := append_inj' hsplit rfl
            have hlt := hlater d' (by simp)
            rw [if_neg (by omega)]
            exact (holds.contexts _ _).mpr ⟨before, d', after, rfl, rfl, rfl⟩
      pointers := by
        intro hash
        rw [hdb _ rfl, lookup_displacedHashPointer spec, newestPosition_concat, holds.pointers]
      state := by rw [hdb _ rfl, spec.lookup_state, hstate] }

end Write

/-! ## Runs -/

section Runs

variable [DecidableEq D]

variable {ds : List (Displacement E)} {activations : NetworkUpgradeActivations} {k : Nat}
  {st : LiveState E}

theorem StoreReady.capture_eq_ok (ready : StoreReady st) (inv : LiveInvariant st k)
    {v : VisibleBlock E} (hv : v ∈ st.chain) {displaced : CanonicalDisplacedBlock}
    (h : captureDisplacedBlock E st.store v.block.height = .ok displaced) :
    displaced = v.displaced := by
  obtain ⟨tip, hvalid⟩ := ready.valid v hv
  obtain ⟨hroots, _, _⟩ := validateBlock_optional hvalid
  obtain ⟨facts, _, hhash, _, _, hread⟩ := inv.holds.readPersistedReplay_eq_ok hv
  simp only [captureDisplacedBlock, bind_eq_ok, inv.holds.lookup_replay hv, okOr_some,
    inv.holds.lookup_blockBlob hv, inv.holds.lookup_finalRoots hv, hroots, ready.workload,
    hread] at h
  obtain ⟨_, hbytes, _, ⟨_, rfl⟩, _, _, h⟩ := h
  cases hbytes
  cases h
  simp only [VisibleBlock.displaced, hhash]
  rfl

theorem StoreReady.captures_eq_ok {k n : Nat} (ready : StoreReady st) (inv : LiveInvariant st k)
    {displaced : List CanonicalDisplacedBlock}
    (h : captureDisplacedBlocks E st.store
      ⟨st.start.height + n + 1, st.start.height + st.chain.length⟩ = .ok displaced) :
    displaced = (st.chain.drop n).map VisibleBlock.displaced := by
  rw [captureDisplacedBlocks, ← inv.linked.drop_heights n, collect_eq_ok, List.forall₂_map_left_iff] at h
  have hmem : ∀ v ∈ st.chain.drop n, v ∈ st.chain := fun v hv => mem_of_mem_drop hv
  generalize st.chain.drop n = gone at h hmem
  induction h with
  | nil => rfl
  | @cons v _ gone _ hv _ ih =>
    rw [ready.capture_eq_ok inv (hmem v mem_cons_self) hv,
      ih fun w hw => hmem w (mem_cons_of_mem _ hw)]
    rfl

def fromHeight (height : Nat) (chain : Chain E) : Chain E :=
  chain.dropWhile fun v => v.block.height < height

omit [DecidableEq D] in
theorem fromHeight_eq_drop {height n : Nat} {chain : Chain E}
    (h : below height chain = chain.take n) : fromHeight height chain = chain.drop n := by
  have hsplit : chain.take n ++ fromHeight height chain = chain.take n ++ chain.drop n := by
    rw [← h, below, fromHeight, takeWhile_append_dropWhile, ← below, h,
      take_append_drop]
  exact append_cancel_left hsplit

def displacement (st : LiveState E) (r : CanonicalLiveReplacement E)
    (first : CanonicalReplacementBlock E) : Displacement E where
  eventSequence := st.store.readyEvidence.visibleEventSequence + 1
  displacementEpoch := st.store.readyEvidence.visibleEpoch + 1
  revertedRange := ⟨first.block.height, st.store.readyEvidence.visibleTip.height⟩
  displacedAt := r.createdAt
  blocks := fromHeight first.block.height st.chain

/-- A run of live transitions with what its replacements displaced, oldest first. -/
inductive DisplacementRun : LiveState E → List (Displacement E) → LiveState E → Prop where
  | nil (st : LiveState E) : DisplacementRun st [] st
  | append {st₀ st : LiveState E} {ds : List (Displacement E)} {a : CanonicalLiveAppend E}
      {activations : NetworkUpgradeActivations} {s' : RocksDbCanonicalStore D}
      {fence : CanonicalEventFence D} (run : DisplacementRun st₀ ds st)
      (h : commitLiveAppend st.store a activations = .ok (s', fence)) :
      DisplacementRun st₀ ds ⟨s', st.earlierRoots, st.chain ++ [a.visible]⟩
  | replacement {st₀ st : LiveState E} {ds : List (Displacement E)}
      {r : CanonicalLiveReplacement E} {first : CanonicalReplacementBlock E}
      {activations : NetworkUpgradeActivations} {s' : RocksDbCanonicalStore D}
      {fence : CanonicalEventFence D} (run : DisplacementRun st₀ ds st)
      (hfirst : r.blocks.head? = some first)
      (h : commitLiveReplacement st.store r activations = .ok (s', fence)) :
      DisplacementRun st₀ (ds ++ [displacement st r first])
        ⟨s', st.earlierRoots, below first.block.height st.chain ++ r.chain⟩

theorem DisplacementRun.liveSteps {st₀ st : LiveState E} (run : DisplacementRun st₀ ds st) :
    ReflTransGen LiveStep st₀ st := by
  induction run with
  | nil => exact .refl
  | append _ h ih => exact ih.tail (.append h)
  | replacement _ hfirst h ih => exact ih.tail (.replacement hfirst h)

theorem Published.archive (h : Published st) :
    ArchiveInvariant st ([] : List (Displacement E)) where
  holds :=
    { order := by simp [h.lookup_archive (k := .displacedOrder _) rfl]
      contexts := by simp [h.lookup_archive (k := .displacedEventContext _) rfl]
      pointers := by simp [h.lookup_archive (k := .displacedHashPointer _) rfl, newestPosition,
        displacedPositions]
      state := h.lookup_archive rfl }
  ascending := .nil
  past := by simp
  valid := by simp
  count_lt := by simp [displacedCount, u64Bound]

theorem ArchiveInvariant.append (inv : ArchiveInvariant st ds) (live : LiveInvariant st k)
    {a : CanonicalLiveAppend E} {s' : RocksDbCanonicalStore D} {fence : CanonicalEventFence D}
    (h : commitLiveAppend st.store a activations = .ok (s', fence)) :
    ArchiveInvariant ⟨s', st.earlierRoots, st.chain ++ [a.visible]⟩ ds := by
  have harchive : ∀ k : Key, k.isArchive = true → s'.db.lookup k = st.store.db.lookup k :=
    fun k hk => commitLiveAppend_lookup_archive h hk
  obtain ⟨_, _, p, spec, hready, _, rfl, _⟩ := commitLiveAppend_eq_ok h
  refine ⟨inv.holds.of_untouched harchive, inv.ascending, fun d hd => ?_, inv.valid, inv.count_lt⟩
  have := inv.past d hd
  have := live.fence
  simp only [hready, appendedEvidence]
  omega

theorem ArchiveInvariant.replacement (inv : ArchiveInvariant st ds) (live : LiveInvariant st k)
    (ready : StoreReady st) {r : CanonicalLiveReplacement E} {first : CanonicalReplacementBlock E}
    {s' : RocksDbCanonicalStore D} {fence : CanonicalEventFence D}
    (hfirst : r.blocks.head? = some first)
    (h : commitLiveReplacement st.store r activations = .ok (s', fence)) :
    ArchiveInvariant ⟨s', st.earlierRoots, below first.block.height st.chain ++ r.chain⟩
      (ds ++ [displacement st r first]) := by
  obtain ⟨n, sizes, oldSizes, facts, rest, hreplaced⟩ := live.replacedSuffix hfirst h
  obtain ⟨hlt, displaced, rows, hcapture, hwrite, hdb⟩ := commitLiveReplacement_writes hfirst h
  have hfence := live.fence
  have hrange : (⟨first.block.height, st.store.readyEvidence.visibleTip.height⟩ :
      BlockHeightRange) = ⟨st.start.height + n + 1, st.start.height + st.chain.length⟩ := by
    rw [hreplaced.first_height hfirst live, live.tip_height]
  have hblocks : (displacement st r first).blocks = st.chain.drop n :=
    fromHeight_eq_drop hreplaced.kept
  have hheights : (displacement st r first).revertedRange.heights =
      (displacement st r first).blocks.map fun v => v.block.height := by
    rw [hblocks, live.linked.drop_heights n]
    exact congrArg BlockHeightRange.heights hrange
  rw [hrange] at hcapture
  have hdisplaced := ready.captures_eq_ok live hcapture
  rw [hdisplaced, ← hblocks] at hwrite
  have hevent : (displacement st r first).toDisplacedArchiveEvent =
      ⟨st.store.readyEvidence.visibleEpoch + 1, st.store.readyEvidence.visibleEpoch + 1,
        ⟨first.block.height, st.store.readyEvidence.visibleTip.height⟩, r.createdAt⟩ := by
    rw [hfence]
    simp only [displacement, hfence]
  rw [← hevent] at hwrite
  obtain ⟨⟨state, spec⟩, hchecked⟩ := prepareDisplacedArchiveWrite_rows hheights hwrite
  have hnodup : ((displacement st r first).blocks.map fun v => v.block.height).Nodup := by
    rw [← hheights, BlockHeightRange.heights]
    exact nodup_range'
  have hlater : ∀ d ∈ ds, d.eventSequence < (displacement st r first).eventSequence := by
    intro d hd
    have := inv.past d hd
    simp only [displacement]
    omega
  obtain ⟨holds, hcount⟩ := inv.holds.displaced spec hnodup hlater hdb
  have hsequence : s'.readyEvidence.visibleEventSequence =
      st.store.readyEvidence.visibleEventSequence + 1 := by
    rw [hreplaced.evidence, ← hfence]
    rfl
  exact
    { holds := holds
      ascending := pairwise_append.mpr ⟨inv.ascending, pairwise_singleton _ _,
        fun d hd d' hd' => by rw [mem_singleton.mp hd']; exact hlater d hd⟩
      past := by
        intro d hd
        simp only [hsequence]
        rcases mem_append.mp hd with hd | hd
        · have := inv.past d hd
          omega
        · rw [mem_singleton.mp hd]
          exact le_rfl
      valid := by
        intro d hd
        simp only [RocksDbCanonicalStore.window, hreplaced.plan]
        rcases mem_append.mp hd with hd | hd
        · exact inv.valid d hd
        · rw [mem_singleton.mp hd]
          exact
            { epoch_eq := by simp only [displacement, hfence]
              sequence_pos := by simp only [displacement]; omega
              sequence_lt := by simp only [displacement]; omega
              heights := hheights.symm
              count := spec.count_eq
              writable := fun v hv => (hchecked v hv).1
              replay_lt := fun v hv => (hchecked v hv).2.1
              raw_lt := fun v hv => (hchecked v hv).2.2 }
      count_lt := by
        by_cases hds : ds = []
        · have := (checkedReorgRangeCount_eq_ok.mp spec.count_eq)
          rw [hds, nil_append, displacedCount_singleton]
          simp only [u32Bound, u64Bound] at this ⊢
          omega
        · exact hcount hds }

/-- The archive after any run records exactly what the run displaced. -/
theorem DisplacementRun.archive {st₀ st : LiveState E} (h : Published st₀)
    (run : DisplacementRun st₀ ds st) : ArchiveInvariant st ds := by
  induction run with
  | nil => exact h.archive
  | append run hcommit ih =>
    obtain ⟨k, live⟩ := h.run_invariant run.liveSteps
    exact ih.append live hcommit
  | replacement run hfirst hcommit ih =>
    obtain ⟨k, live⟩ := h.run_invariant run.liveSteps
    exact ih.replacement live (h.run_ready run.liveSteps) hfirst hcommit

/-! ### Performed runs -/

/-- A commit requested on the current tip. -/
inductive LiveRequest (E : Env D) where
  | append (block : CanonicalBuildBlock E) (subtreeRoots : List CanonicalBuildSubtreeRoot)
      (settledTip : BlockId) (createdAt : Nat)
  | replace (blocks : List (CanonicalReplacementBlock E)) (createdAt : Nat)

def LiveState.perform (activations : NetworkUpgradeActivations) (st : LiveState E) :
    LiveRequest E → Option (LiveState E × List (Displacement E))
  | .append block subtreeRoots settledTip createdAt =>
    let a : CanonicalLiveAppend E :=
      ⟨st.store.eventFence, block, subtreeRoots, settledTip, createdAt⟩
    (commitLiveAppend st.store a activations).toOption.map fun committed =>
      (⟨committed.1, st.earlierRoots, st.chain ++ [a.visible]⟩, [])
  | .replace blocks createdAt =>
    let r : CanonicalLiveReplacement E := ⟨st.store.eventFence, blocks, createdAt⟩
    r.blocks.head?.bind fun first =>
      (commitLiveReplacement st.store r activations).toOption.map fun committed =>
        (⟨committed.1, st.earlierRoots, below first.block.height st.chain ++ r.chain⟩,
          [displacement st r first])

def LiveState.performAll (activations : NetworkUpgradeActivations) :
    LiveState E → List (LiveRequest E) → Option (LiveState E × List (Displacement E))
  | st, [] => some (st, [])
  | st, request :: requests =>
    (st.perform activations request).bind fun first =>
      (first.1.performAll activations requests).map fun rest => (rest.1, first.2 ++ rest.2)

theorem DisplacementRun.trans {st₀ st st' : LiveState E} {ds ds' : List (Displacement E)}
    (run : DisplacementRun st₀ ds st) (run' : DisplacementRun st ds' st') :
    DisplacementRun st₀ (ds ++ ds') st' := by
  induction run' with
  | nil => rwa [append_nil]
  | append _ h ih => exact ih.append h
  | replacement _ hfirst h ih =>
    rw [← append_assoc]
    exact ih.replacement hfirst h

theorem LiveState.performAll_run {requests : List (LiveRequest E)} {st st' : LiveState E}
    (h : st.performAll activations requests = some (st', ds)) : DisplacementRun st ds st' := by
  induction requests generalizing st ds with
  | nil =>
    cases h
    exact .nil _
  | cons request requests ih =>
    simp only [LiveState.performAll, Option.bind_eq_some_iff, Option.map_eq_some_iff] at h
    obtain ⟨⟨st₁, ds₁⟩, hstep, ⟨st₂, ds₂⟩, hrest, h⟩ := h
    cases h
    refine DisplacementRun.trans ?_ (ih hrest)
    cases request with
    | append block subtreeRoots settledTip createdAt =>
      obtain ⟨committed, hcommit, hstep⟩ := Option.map_eq_some_iff.mp hstep
      cases hstep
      exact (DisplacementRun.nil st).append (toOption_eq_some.mp hcommit)
    | replace blocks createdAt =>
      simp only [LiveState.perform, Option.bind_eq_some_iff, Option.map_eq_some_iff] at hstep
      obtain ⟨first, hfirst, committed, hcommit, hstep⟩ := hstep
      cases hstep
      exact (DisplacementRun.nil st).replacement hfirst (toOption_eq_some.mp hcommit)

def publishedState (b : CanonicalBaseline E) : Option (LiveState E) :=
  b.loadedRoots.toOption.bind fun roots =>
    (publishBaseline b).toOption.map fun s =>
      ⟨s, rootsBefore b.plan.historyPredecessor.tipMetadata roots,
        attachRoots roots b.plan.historyPredecessor.tipMetadata b.blocks⟩

theorem publishedState_published {b : CanonicalBaseline E} (h : publishedState b = some st) :
    Published st := by
  simp only [publishedState, Option.bind_eq_some_iff, Option.map_eq_some_iff] at h
  obtain ⟨roots, hroots, s, hs, rfl⟩ := h
  exact .intro (toOption_eq_some.mp hroots) (toOption_eq_some.mp hs)

end Runs

end Zinder.Canonical
