import Zinder.Canonical.ReplacementSpec

/-!
# Zinder.Canonical.LiveRun

Runs of live transitions. A `LiveState` is an admitted store together with the visible chain it
was brought to; a `LiveStep` is one successful append or replacement and says how the chain
changes.

`LiveInvariant st k` is what every reachable state satisfies, `k` being the number of settled
blocks: the height-keyed families hold the chain, the evidence summarises it, and the settled
summary is the summary of its first `k` blocks. `LiveStep.preserves` is the step theorem; it also
says that the settled prefix is never rewritten.
-/

namespace Zinder.Canonical

open KeyValue List

variable {D : Type} {E : Env D}

/-- A store, the roots completed before its retained history, and its visible chain. -/
structure LiveState (E : Env D) where
  store : RocksDbCanonicalStore D
  earlierRoots : List SubtreeRootArtifact
  chain : Chain E

def LiveState.start (st : LiveState E) : BlockId :=
  st.store.buildPlan.historyPredecessor.blockId

def below (height : Nat) (chain : Chain E) : Chain E :=
  chain.takeWhile fun v => v.block.height < height

theorem below_blocks (height : Nat) (chain : Chain E) :
    (below height chain).map VisibleBlock.block =
    (chain.map VisibleBlock.block).takeWhile fun b => b.height < height := by
  rw [takeWhile_map]
  rfl

inductive LiveStep [DecidableEq D] : LiveState E → LiveState E → Prop where
  | append {st : LiveState E} {a : CanonicalLiveAppend E}
      {activations : NetworkUpgradeActivations} {s' : RocksDbCanonicalStore D}
      {fence : CanonicalEventFence D}
      (h : commitLiveAppend st.store a activations = .ok (s', fence)) :
      LiveStep st ⟨s', st.earlierRoots, st.chain ++ [a.visible]⟩
  | replacement {st : LiveState E} {r : CanonicalLiveReplacement E}
      {first : CanonicalReplacementBlock E} {activations : NetworkUpgradeActivations}
      {s' : RocksDbCanonicalStore D} {fence : CanonicalEventFence D}
      (hfirst : r.blocks.head? = some first)
      (h : commitLiveReplacement st.store r activations = .ok (s', fence)) :
      LiveStep st ⟨s', st.earlierRoots, below first.block.height st.chain ++ r.chain⟩

/-- What holds of every reachable live state with `k` settled blocks. -/
structure LiveInvariant (st : LiveState E) (k : Nat) : Prop where
  holds : HoldsChain st.store.buildPlan st.earlierRoots st.chain st.store.db
  settled_pos : 0 < k
  settled_le : k ≤ st.chain.length
  visible : st.store.readyEvidence.visibleSummary = sequenceSummary st.start st.chain
  settled : st.store.readyEvidence.sequenceCheckpoint =
    sequenceSummary st.start (st.chain.take k)
  epoch : ∃ e, st.store.db.lookup (Key.chainEpoch st.store.readyEvidence.visibleEpoch) = some e ∧
    e.visibleTip = st.store.readyEvidence.visibleTip ∧
    e.settledTip = st.store.readyEvidence.sequenceCheckpoint.through
  fence : st.store.readyEvidence.visibleEpoch = st.store.readyEvidence.visibleEventSequence
  window : st.store.readyEvidence.visibleTip.height -
    st.store.readyEvidence.sequenceCheckpoint.through.height ≤ st.store.window

/-! ## Prefixes of a linked chain -/

variable {r : CanonicalLiveReplacement E} {activations : NetworkUpgradeActivations} {k : Nat}
  {first : CanonicalReplacementBlock E} {rest : List (Op (Val D))} {s' : RocksDbCanonicalStore D}
  {chain : Chain E} {a : CanonicalLiveAppend E} {start : BlockId} {st : LiveState E}
  {facts : List CanonicalBlockFacts} {gone : Chain E}

section

variable (h : Linked start chain)
include h

theorem Linked.take (n : Nat) : Linked start (chain.take n) :=
  (linked_append.mp (by rw [take_append_drop]; exact h)).1

theorem Linked.drop (n : Nat) : Linked (tipId start (chain.take n)) (chain.drop n) :=
  (linked_append.mp (by rw [take_append_drop]; exact h)).2

theorem Linked.tipId_take_height {n : Nat} (hn : n ≤ chain.length) :
    (tipId start (chain.take n)).height = start.height + n := by
  rw [(h.take n).tipId_height, length_take, Nat.min_eq_left hn]

theorem Linked.exists_at {n : Nat} (hpos : 0 < n) (hn : n ≤ chain.length) :
    ∃ v, chain[n - 1]? = some v ∧ v ∈ chain ∧ tipId start (chain.take n) = v.block.blockId ∧
      v.block.height = start.height + n := by
  obtain ⟨i, rfl⟩ : ∃ i, n = i + 1 := Nat.exists_eq_add_one.mpr hpos
  have hv : chain[i]? = some chain[i] := getElem?_eq_getElem hn
  refine ⟨chain[i], hv, getElem_mem _, by rw [take_succ_eq hv, tipId_concat], ?_⟩
  rw [h.height_of_getElem? hv]
  omega

theorem Linked.below_eq_take (height : Nat) :
    below height chain = chain.take (height - (start.height + 1)) := by
  induction chain generalizing start with
  | nil => simp [below]
  | cons v chain ih =>
    obtain ⟨hheight, _, hrest⟩ := h
    by_cases hlt : v.block.height < height
    · have hsplit : height - (start.height + 1) = height - (v.block.blockId.height + 1) + 1 := by
        rw [CanonicalBuildBlock.blockId_height]
        omega
      rw [hsplit, take_succ_cons, ← ih hrest]
      simp [below, hlt]
    · have : height - (start.height + 1) = 0 := by omega
      rw [this, take_zero]
      simp [below, hlt]

theorem Linked.drop_heights (n : Nat) :
    (chain.drop n).map (fun v => v.block.height) =
      (⟨start.height + n + 1, start.height + chain.length⟩ : BlockHeightRange).heights := by
  refine ext_getElem? fun i => ?_
  rw [BlockHeightRange.heights, getElem?_map, getElem?_drop]
  by_cases hi : n + i < chain.length
  · have hv : chain[n + i]? = some chain[n + i] := getElem?_eq_getElem hi
    rw [hv, Option.map_some, h.height_of_getElem? hv, getElem?_range' (by simp only; omega)]
    simp only [Option.some.injEq]
    omega
  · rw [getElem?_eq_none (by omega), Option.map_none, eq_comm, List.getElem?_eq_none_iff,
      length_range']
    simp only
    omega

end

/-! ## The tip -/

section

variable (inv : LiveInvariant st k)
include inv

theorem LiveInvariant.linked : Linked st.start st.chain :=
  inv.holds.linked

theorem LiveInvariant.visible_eq :
    st.store.readyEvidence.visibleTip = tipId st.start st.chain ∧
      st.store.readyEvidence.visibleBlockCount = st.chain.length ∧
      st.store.readyEvidence.visibleDigest = CanonicalBlockFactsSequenceDigest.ofItems E.hash
        (st.chain.map fun v => v.block.digest) ∧
      st.store.readyEvidence.visibleLogicalReplayBytes =
        (st.chain.map fun v => v.block.replayBytes).sum := by
  simpa only [CanonicalStoreReadyEvidence.visibleSummary, sequenceSummary,
    CanonicalSequenceCheckpoint.mk.injEq] using inv.visible

theorem LiveInvariant.tip_eq :
    st.store.readyEvidence.visibleTip = tipId st.start st.chain := inv.visible_eq.1

theorem LiveInvariant.tip_height :
    st.store.readyEvidence.visibleTip.height = st.start.height + st.chain.length := by
  rw [inv.tip_eq]
  exact inv.linked.tipId_height

/-! ## The settled summary -/

variable {checkpoint : CanonicalSequenceCheckpoint D}

variable {sizes : ChainTipMetadata}

/-- The settled summary after an append is the summary of a prefix at least as long as before,
ending at the requested settled tip. -/
theorem LiveInvariant.advanceSettled [DecidableEq D] (h : AppendSpec st.store a sizes checkpoint) :
    checkpoint.through = a.settledTip ∧ ∃ k', k ≤ k' ∧ k' ≤ st.chain.length + 1 ∧
      checkpoint = sequenceSummary st.start ((st.chain ++ [a.visible]).take k') := by
  have hadvance := h.checkpoint_eq
  have htip := inv.tip_height
  simp only [advanceSettledSequenceCheckpoint] at hadvance
  split at hadvance
  · next hsame =>
    cases hadvance
    refine ⟨hsame.symm, k, le_rfl, by have := inv.settled_le; omega, ?_⟩
    rw [inv.settled, take_append_of_le_length inv.settled_le]
  · simp only [bind_eq_ok, rejectIf_eq_ok, not_not] at hadvance
    obtain ⟨persisted, hresume, c, hc, _, hthrough, hadvance⟩ := hadvance
    cases hadvance
    rw [inv.settled] at hresume
    obtain ⟨hle, hpersisted⟩ := inv.holds.resume_eq_ok hresume inv.settled_le (by
      exact (min_le_right _ _).trans_eq htip)
    refine ⟨hthrough, ?_⟩
    simp only [includeSettledBlock] at hc
    split at hc
    · next hvisible =>
      -- the appended block itself is settled
      have hheight : a.settledTip.height = st.start.height + st.chain.length + 1 := by
        rw [hvisible, CanonicalBuildBlock.blockId_height, h.height, htip]
      have hall : min a.settledTip.height st.store.readyEvidence.visibleTip.height -
          st.store.buildPlan.historyPredecessor.blockId.height = st.chain.length := by
        have : st.store.buildPlan.historyPredecessor.blockId.height = st.start.height := rfl
        omega
      rw [hall, take_length] at hpersisted
      rw [hpersisted] at hc
      refine ⟨st.chain.length + 1, by have := inv.settled_le; omega, le_rfl, ?_⟩
      rw [appendToSequence_summary (v := a.visible) hc, take_of_length_le (by simp)]
      rfl
    · next hbelow =>
      cases hc
      have hsettled := h.settlement.settled_le
      simp only [CanonicalBuildBlock.blockId_height] at hsettled hbelow
      have hmin : min a.settledTip.height st.store.readyEvidence.visibleTip.height =
          a.settledTip.height := by
        have := h.height
        omega
      rw [hmin] at hpersisted hle
      have hpred : st.store.buildPlan.historyPredecessor.blockId.height = st.start.height := rfl
      have hheight := h.height
      refine ⟨a.settledTip.height - st.start.height, by omega, by omega, ?_⟩
      rw [hpersisted, take_append_of_le_length (by omega)]
      rfl

end

/-! ## Appending -/

theorem HoldsChain.replace {plan : CanonicalStoreBuildPlan} {earlier : List SubtreeRootArtifact}
    {kept gone new : Chain E} {db : Db D} (h : HoldsChain plan earlier (kept ++ gone) db)
    (hnew : ∀ v ∈ new, Admitted v.block)
    (hlinked : Linked (tipId plan.historyPredecessor.blockId kept) new) {dels : List Key}
    (hdels : ∀ k : Key, k.IsHeightKey → (k ∈ dels ↔ k ∈ gone.flatMap VisibleBlock.ownedKeys))
    (hrest : ∀ k ∈ rest.map Op.key, ¬ k.IsHeightKey) :
    HoldsChain plan earlier (kept ++ new)
      (write (dels.map Op.delete ++ (new.flatMap VisibleBlock.rows).map Op.ofRow ++ rest) db) := by
  have hkept : Linked plan.historyPredecessor.blockId kept := (linked_append.mp h.linked).1
  have hchain : Linked plan.historyPredecessor.blockId (kept ++ new) :=
    linked_append.mpr ⟨hkept, hlinked⟩
  have hadmitted : ∀ v ∈ kept ++ gone, Admitted v.block := h.admitted
  simp only [mem_append] at hadmitted
  refine ⟨hchain, fun v hv => ?_, ?_⟩
  · rcases mem_append.mp hv with hv | hv
    · exact hadmitted v (.inl hv)
    · exact hnew v hv
  · refine agreesOn_replace h.rows (fun v hv => hadmitted v (.inr hv))
      (fun v hv => hadmitted v (.inl hv)) hnew (fun k hk => h.linked.apart hk)
      (fun k hk => hchain.apart hk) (fun k hk v hv hmem => ?_) hdels
      (fun k hk v hv => count_rows_of_heightKey (hnew v hv) hk)
      (fun k hk hmem => hrest k hmem hk)
    refine notMem_base_of_lt hk hmem ?_
    rcases mem_append.mp hv with hv | hv
    · exact h.linked.lt_height (mem_append_right _ hv)
    · exact hchain.lt_height (mem_append_right _ hv)

theorem HoldsChain.append {plan : CanonicalStoreBuildPlan} {earlier : List SubtreeRootArtifact}
    {db : Db D} (h : HoldsChain plan earlier chain db) {v : VisibleBlock E} (hv : Admitted v.block)
    (hlinked : Linked (tipId plan.historyPredecessor.blockId chain) [v])
    (hrest : ∀ k ∈ rest.map Op.key, ¬ k.IsHeightKey) :
    HoldsChain plan earlier (chain ++ [v]) (write (v.rows.map Op.ofRow ++ rest) db) := by
  have hnil : HoldsChain plan earlier (chain ++ []) db := by rwa [append_nil]
  have hnone : ∀ k : Key, k.IsHeightKey →
      (k ∈ ([] : List Key) ↔ k ∈ ([] : Chain E).flatMap VisibleBlock.ownedKeys) := by simp
  simpa using hnil.replace (by simpa using hv) hlinked hnone hrest

theorem LivePublication.not_heightKey (p : LivePublication D) {k : Key}
    (hk : k ∈ (p.rows.map Op.ofRow).map Op.key) : ¬ k.IsHeightKey := by
  rw [Op.map_key_ofRow, p.rows_keys] at hk
  simp only [mem_cons, not_mem_nil, or_false] at hk
  rcases hk with rfl | rfl | rfl <;> simp [Key.IsHeightKey, Key.height?]

theorem LivePublication.lookup_epoch (p : LivePublication D) (batch : List (Op (Val D)))
    (db : Db D) :
    (write (batch ++ p.rows.map Op.ofRow) db).lookup (Key.chainEpoch p.ready.visibleEpoch) =
      some p.epoch := by
  have honce : p.rows.keys.count (.chainEpoch p.ready.visibleEpoch) ≤ 1 := by
    simp [p.rows_keys]
  rw [write_append, lookup_write_puts honce]
  simp [LivePublication.rows]

theorem PreparedLiveReplacement.lookup_epoch (p : PreparedLiveReplacement D) (db : Db D) :
    (write p.batch db).lookup (Key.chainEpoch p.publication.ready.visibleEpoch) =
      some p.publication.epoch := by
  rw [PreparedLiveReplacement.batch, ← append_assoc]
  exact p.publication.lookup_epoch _ _

def appendedStore (s : RocksDbCanonicalStore D) (a : CanonicalLiveAppend E)
    (p : LivePublication D) : RocksDbCanonicalStore D :=
  { s with
    db := write (a.visible.rows.map Op.ofRow ++ p.rows.map Op.ofRow) s.db
    readyEvidence := p.ready }

theorem AppendSpec.linked [DecidableEq D]
    (spec : AppendSpec st.store a sizes checkpoint)
    (inv : LiveInvariant st k) : Linked (tipId st.start st.chain) [a.visible] := by
  rw [← inv.tip_eq]
  exact ⟨spec.height, spec.parent, trivial⟩

theorem LiveInvariant.appended [DecidableEq D] (inv : LiveInvariant st k) {p : LivePublication D}
    (spec : AppendSpec st.store a sizes checkpoint)
    (hready : p.ready = appendedEvidence st.store.readyEvidence a.block checkpoint)
    (hepoch : p.epoch = ⟨a.block.blockId, a.settledTip, a.block.tipMetadata, a.createdAt⟩) :
    ∃ k', k ≤ k' ∧ LiveInvariant
      ⟨appendedStore st.store a p, st.earlierRoots, st.chain ++ [a.visible]⟩ k' := by
  obtain ⟨hthrough, k', hkk', hk', hcheckpoint⟩ := inv.advanceSettled spec
  refine ⟨k', hkk', ?_⟩
  exact
    { holds := inv.holds.append spec.admitted (spec.linked inv) fun k hk => p.not_heightKey hk
      settled_pos := inv.settled_pos.trans_le hkk'
      settled_le := by simpa using hk'
      visible := by
        obtain ⟨_, hcount, hdigest, hbytes⟩ := inv.visible_eq
        simp only [CanonicalStoreReadyEvidence.visibleSummary, appendedStore, hready,
          appendedEvidence, LiveState.start, sequenceSummary_concat,
          CanonicalStoreReadyEvidence.visibleDigest]
        simp only [sequenceSummary, ← hdigest, hcount, hbytes, CanonicalLiveAppend.visible,
          CanonicalStoreReadyEvidence.visibleDigest, CanonicalBlockFactsSequenceDigest.push]
      settled := by
        simp only [appendedStore, hready, appendedEvidence]
        exact hcheckpoint
      epoch := ⟨p.epoch, p.lookup_epoch _ _, by simp only [appendedStore, hepoch, hready]; rfl, by
        simp only [appendedStore, hepoch, hready]
        exact hthrough.symm⟩
      fence := by simp [appendedStore, hready, appendedEvidence]
      window := by
        have := spec.settlement.lag_le
        simp only [appendedStore, hready, appendedEvidence, hthrough]
        exact this }

theorem LiveInvariant.append [DecidableEq D] (inv : LiveInvariant st k)
    {fence : CanonicalEventFence D}
    (h : commitLiveAppend st.store a activations = .ok (s', fence)) :
    ∃ k', k ≤ k' ∧ LiveInvariant ⟨s', st.earlierRoots, st.chain ++ [a.visible]⟩ k' := by
  obtain ⟨sizes, checkpoint, p, spec, hready, hepoch, rfl, _⟩ := commitLiveAppend_eq_ok h
  exact inv.appended spec hready hepoch

/-! ## Replacing -/

/-- Facts with the identity and the digest of a visible block. -/
def MatchesFacts (v : VisibleBlock E) (facts : CanonicalBlockFacts) : Prop :=
  facts.height = v.block.height ∧ facts.blockHash = v.block.hash ∧
    (v.block.OwnEnvelope → facts = v.block.facts)

def factsDeletions (facts : CanonicalBlockFacts) : List Key :=
  blockDeletions facts.height facts.blockHash
    (facts.transactions.map CanonicalTransactionFacts.transactionId)

theorem mem_blockDeletions {height : Nat} {hash : BlockHash} {ids : List TransactionId} {k : Key} :
    k ∈ blockDeletions height hash ids ↔ k ∈ blockKeys height hash ids := by
  rw [mem_blockKeys]
  cases k with
  | transactionLocation t =>
    simp only [blockDeletions, mem_append, mem_flatMap, mem_cons,
      not_mem_nil, or_false, reduceCtorEq, false_or, Key.transactionLocation.injEq]
    constructor
    · rintro ⟨⟨t', i⟩, hmem, rfl⟩
      exact (mem_zipIdx' hmem).2 ▸ getElem_mem _
    · intro ht
      obtain ⟨i, hi, rfl⟩ := mem_iff_getElem.mp ht
      exact ⟨(ids[i], i), mem_zipIdx_iff_getElem?.mpr (getElem?_eq_getElem hi), rfl⟩
  | transactionBlob h i =>
    simp only [blockDeletions, mem_append, mem_flatMap, mem_cons,
      not_mem_nil, or_false, reduceCtorEq, false_or, Key.transactionBlob.injEq]
    constructor
    · rintro ⟨⟨t', j⟩, hmem, rfl, rfl⟩
      exact ⟨rfl, (mem_zipIdx' hmem).1⟩
    · rintro ⟨rfl, hi⟩
      exact ⟨(ids[i], i), mem_zipIdx_iff_getElem?.mpr (getElem?_eq_getElem hi), rfl, rfl⟩
  | _ => simp [blockDeletions]

section Deletions

variable [DecidableEq D] {s : RocksDbCanonicalStore D} {earlier : List SubtreeRootArtifact}
  {chain : Chain E}

theorem HoldsChain.collect_deletions (h : HoldsChain s.buildPlan earlier chain s.db)
    {gone : Chain E} (hgone : ∀ v ∈ gone, v ∈ chain) {displaced : List CanonicalDisplacedBlock}
    (hlength : displaced.length = gone.length) {dels : List (List Key)}
    (hcollect : collect (prepareBlockDeletions E s)
      ((gone.map fun v => v.block.height).zip displaced) = .ok dels) :
    ∃ facts : List CanonicalBlockFacts, List.Forall₂ MatchesFacts gone facts ∧
      dels = facts.map factsDeletions := by
  induction gone generalizing displaced dels with
  | nil =>
    simp only [map_nil, zip_nil_left, collect, Except.ok.injEq] at hcollect
    exact ⟨[], .nil, by simp [← hcollect]⟩
  | cons v gone ih =>
    cases displaced with
    | nil => simp at hlength
    | cons d displaced =>
      simp only [map_cons, zip_cons_cons, collect, bind_eq_ok] at hcollect
      obtain ⟨first, hfirst, rest, hrest, hdels⟩ := hcollect
      cases hdels
      obtain ⟨facts, hmatch, rfl⟩ := ih (fun w hw => hgone w (mem_cons_of_mem _ hw))
        (by simpa using hlength) hrest
      obtain ⟨f, hheight, hhash, _, hown, hread⟩ :=
        h.readPersistedReplay_eq_ok (hgone v mem_cons_self)
      simp only [prepareBlockDeletions, bind_eq_ok, hread] at hfirst
      obtain ⟨_, ⟨_, rfl⟩, _, _, _, _, hfirst⟩ := hfirst
      cases hfirst
      refine ⟨f :: facts, .cons ⟨hheight, hhash, hown⟩ hmatch, ?_⟩
      simp only [map_cons, factsDeletions, hheight]

/-- Everything a replacement deletes: the keys of each displaced block, by its stored facts, and
the subtree roots completed between the parent and the old tip. -/
theorem HoldsChain.deletions_eq_ok (h : HoldsChain s.buildPlan earlier chain s.db) {n : Nat}
    {range : BlockHeightRange}
    (hrange : range = ⟨s.buildPlan.historyPredecessor.blockId.height + n + 1,
      s.buildPlan.historyPredecessor.blockId.height + chain.length⟩)
    {displaced : List CanonicalDisplacedBlock}
    (hcapture : captureDisplacedBlocks E s range = .ok displaced)
    {sizes oldSizes : ChainTipMetadata} {dels : List Key}
    (hdels : prepareCanonicalDeletions E s range sizes oldSizes displaced = .ok dels) :
    SubtreeMonotone sizes oldSizes ∧ ∃ facts : List CanonicalBlockFacts,
      List.Forall₂ MatchesFacts (chain.drop n) facts ∧
      dels = facts.flatMap factsDeletions ++ (completedBetween sizes oldSizes).map subtreeKey := by
  have hheights : range.heights = (chain.drop n).map fun v => v.block.height := by
    rw [hrange, h.linked.drop_heights n]
  simp only [captureDisplacedBlocks, collect_eq_ok, hheights] at hcapture
  simp only [prepareCanonicalDeletions, bind_eq_ok, hheights] at hdels
  obtain ⟨blocks, hblocks, ranges, hranges, hdels⟩ := hdels
  cases hdels
  obtain ⟨hmono, hindexes⟩ := requiredSubtreeRootRanges_eq_ok hranges
  have hlength : displaced.length = (chain.drop n).length := by
    rw [← hcapture.length_eq, length_map]
  obtain ⟨facts, hmatch, rfl⟩ := h.collect_deletions (fun v hv => mem_of_mem_drop hv)
    hlength hblocks
  refine ⟨hmono, facts, hmatch, ?_⟩
  rw [hindexes, flatMap_def]

end Deletions

theorem exists_of_forall₂ {α β : Type} {R : α → β → Prop} {as : List α} {bs : List β} {b : β}
    (h : List.Forall₂ R as bs) (hb : b ∈ bs) : ∃ a ∈ as, R a b := by
  induction h with
  | nil => simp at hb
  | cons hr _ ih =>
    rcases mem_cons.mp hb with rfl | hb
    · exact ⟨_, mem_cons_self, hr⟩
    · obtain ⟨a, ha, hab⟩ := ih hb
      exact ⟨a, mem_cons_of_mem _ ha, hab⟩

theorem mem_deletions_heightKey (h : List.Forall₂ MatchesFacts gone facts)
    {positions : List (ShieldedProtocol × Nat)} {k : Key} (hk : k.IsHeightKey) :
    k ∈ facts.flatMap factsDeletions ++ positions.map subtreeKey ↔
      k ∈ gone.flatMap VisibleBlock.ownedKeys := by
  have hroot : k ∉ positions.map subtreeKey := by
    intro hmem
    obtain ⟨_, _, rfl⟩ := mem_map.mp hmem
    simp [subtreeKey, Key.IsHeightKey, Key.height?] at hk
  have hkeys : ∀ {v : VisibleBlock E} {f : CanonicalBlockFacts}, MatchesFacts v f →
      (k ∈ factsDeletions f ↔ k ∈ v.ownedKeys) := by
    intro v f hmatch
    rw [factsDeletions, mem_blockDeletions, mem_blockKeys, mem_ownedKeys, hmatch.1]
    cases k <;> first | rfl | simp [Key.IsHeightKey, Key.height?] at hk
  simp only [mem_append, hroot, or_false, mem_flatMap]
  constructor
  · rintro ⟨f, hf, hmem⟩
    obtain ⟨v, hv, hmatch⟩ := exists_of_forall₂ h hf
    exact ⟨v, hv, (hkeys hmatch).mp hmem⟩
  · rintro ⟨v, hv, hmem⟩
    obtain ⟨f, hf, hmatch⟩ := exists_of_forall₂ h.flip hv
    exact ⟨f, hf, (hkeys hmatch).mpr hmem⟩

theorem Key.IsHeightKey.isBlockFamily {k : Key} (hk : k.IsHeightKey) : k.isBlockFamily = true := by
  cases k <;> simp_all [Key.isBlockFamily, Key.IsHeightKey, Key.height?]

theorem Key.not_isArchive {k : Key} (hk : k.isBlockFamily = true) : ¬ k.isArchive = true := by
  cases k <;> simp_all [Key.isArchive, Key.isBlockFamily]

theorem LiveInvariant.tipId_kept [DecidableEq D] (inv : LiveInvariant st k) {parent : BlockId}
    (h : ∃ p, readPersistedReplay E st.store.db parent.height = .ok p ∧
      p.replay.facts.blockHash = parent.hash) :
    st.start.height < parent.height ∧
      tipId st.start (st.chain.take (parent.height - st.start.height)) = parent := by
  obtain ⟨p, hread, hhash⟩ := h
  obtain ⟨v, hv, hheight⟩ := inv.holds.block_of_readPersistedReplay hread
  obtain ⟨facts, _, hfacts, _, _, hspec⟩ := inv.holds.readPersistedReplay_eq_ok hv
  rw [← hheight, hspec] at hread
  obtain ⟨_, rfl⟩ := hread
  obtain ⟨i, hi⟩ := mem_iff_getElem?.mp hv
  have hindex := inv.linked.height_of_getElem? hi
  have hcount : parent.height - st.start.height = i + 1 := by omega
  refine ⟨by omega, ?_⟩
  rw [hcount, take_succ_eq hi, tipId_concat]
  exact BlockId.ext_of hheight (hfacts.symm.trans hhash)

/-- What a replacement does to a state with `k` settled blocks: it keeps the first `n` blocks,
deletes the keys of the others by their stored facts, and puts the rows of the new suffix. -/
structure ReplacedSuffix (st : LiveState E) (k : Nat) (r : CanonicalLiveReplacement E)
    (first : CanonicalReplacementBlock E) (s' : RocksDbCanonicalStore D) (n : Nat)
    (sizes oldSizes : ChainTipMetadata) (facts : List CanonicalBlockFacts)
    (rest : List (Op (Val D))) : Prop where
  settled_le : k ≤ n
  lt_length : n < st.chain.length
  displaced_le : st.chain.length - n ≤ st.store.window
  kept : below first.block.height st.chain = st.chain.take n
  linked : Linked (tipId st.start (st.chain.take n)) r.chain
  nonempty : r.chain ≠ []
  admitted : ∀ v ∈ r.chain, Admitted v.block
  sizes_eq : readPersistedTipMetadata st.store.db (tipId st.start (st.chain.take n)) = .ok sizes
  oldSizes_eq :
    readPersistedTipMetadata st.store.db st.store.readyEvidence.visibleTip = .ok oldSizes
  roots : RootsLinked sizes r.chain
  matched : List.Forall₂ MatchesFacts (st.chain.drop n) facts
  plan : s'.buildPlan = st.store.buildPlan
  evidence : s'.readyEvidence = replacedEvidence st.store.readyEvidence
    (sequenceSummary st.start (st.chain.take n ++ r.chain))
  epoch : ∃ e, s'.db.lookup (Key.chainEpoch s'.readyEvidence.visibleEpoch) = some e ∧
    e.visibleTip = s'.readyEvidence.visibleTip ∧
    e.settledTip = s'.readyEvidence.sequenceCheckpoint.through
  lag_le : s'.readyEvidence.visibleTip.height -
    s'.readyEvidence.sequenceCheckpoint.through.height ≤ st.store.window
  db : s'.db = write ((facts.flatMap factsDeletions ++
      (completedBetween sizes oldSizes).map subtreeKey).map Op.delete ++
    (r.chain.flatMap VisibleBlock.rows).map Op.ofRow ++ rest) st.store.db
  rest_keys : ∀ k ∈ rest.map Op.key, k.isBlockFamily = false

variable {sizes oldSizes : ChainTipMetadata}

theorem ReplacedSuffix.first_height {n : Nat}
    (h : ReplacedSuffix st k r first s' n sizes oldSizes facts rest)
    (hfirst : r.blocks.head? = some first) (inv : LiveInvariant st k) :
    first.block.height = st.start.height + n + 1 := by
  obtain ⟨tail, hcons⟩ := List.head?_eq_some_iff.mp hfirst
  have hlinked := h.linked
  rw [CanonicalLiveReplacement.chain, hcons] at hlinked
  rw [← inv.linked.tipId_take_height h.lt_length.le]
  exact hlinked.1

def replacedStore (s : RocksDbCanonicalStore D) (p : PreparedLiveReplacement D) :
    RocksDbCanonicalStore D :=
  { s with db := write p.batch s.db, readyEvidence := p.publication.ready }

theorem LiveInvariant.preparedSuffix [DecidableEq D] (inv : LiveInvariant st k)
    {p : PreparedLiveReplacement D} (hfirst : r.blocks.head? = some first)
    (h : prepareLiveReplacement st.store r activations = .ok p) :
    ∃ n sizes oldSizes facts,
      ReplacedSuffix st k r first (replacedStore st.store p) n sizes oldSizes facts
        (p.archive.map Op.ofRow ++ p.publication.rows.map Op.ofRow) := by
  obtain ⟨parent, settled, sizes, visible, spec, hthrough, hrows, harchive, hready, htip,
    hsettled⟩ := prepareLiveReplacement_eq_ok h
  obtain ⟨hparent, hkept⟩ := inv.tipId_kept spec.parent_hash
  have htipHeight := inv.tip_height
  have hlt := spec.parent_lt_tip
  have hheight : first.block.height = parent.height + 1 := by
    have hlinked := spec.linked
    obtain ⟨tail, hblocks⟩ := List.head?_eq_some_iff.mp hfirst
    rw [CanonicalLiveReplacement.chain, hblocks] at hlinked
    exact hlinked.1
  have hsettledTip : settled = st.store.readyEvidence.sequenceCheckpoint.through := by
    obtain ⟨e, he, _, hset⟩ := spec.epoch
    obtain ⟨e', he', _, hset'⟩ := inv.epoch
    rw [he, Option.some.injEq] at he'
    rw [← hset, ← hset', he']
  have hstart : st.store.buildPlan.historyPredecessor.blockId.height = st.start.height := rfl
  obtain ⟨n, hn⟩ : ∃ n, parent.height = st.start.height + n :=
    ⟨_, (Nat.add_sub_of_le hparent.le).symm⟩
  have hcount : parent.height - st.start.height = n := by omega
  rw [hcount] at hkept
  have hk : k ≤ n := by
    have hle := spec.settled_le_parent
    have hheight : settled.height = (tipId st.start (st.chain.take k)).height := by
      rw [hsettledTip, inv.settled]
      rfl
    have := inv.linked.tipId_take_height inv.settled_le
    omega
  obtain ⟨displaced, oldSizes, hcapture, hold, hdeletions⟩ := spec.deleted
  obtain ⟨_, facts, hmatch, hdels⟩ := inv.holds.deletions_eq_ok (n := n)
    (by rw [htipHeight, hn, hstart]) hcapture hdeletions
  have hvisible : visible = sequenceSummary st.start (st.chain.take n ++ r.chain) := by
    obtain ⟨c, hresume, hloop⟩ := spec.sequence
    rw [inv.settled] at hresume
    obtain ⟨_, rfl⟩ := inv.holds.resume_eq_ok hresume inv.settled_le (by omega)
    rw [hstart, hcount] at hloop
    exact replacement_sequence_loop hloop
  refine ⟨n, sizes, oldSizes, facts, ?_⟩
  exact
    { settled_le := hk
      lt_length := by omega
      displaced_le := by
        have := spec.displaced_le
        omega
      kept := by
        rw [inv.holds.linked.below_eq_take, hheight, hstart]
        congr 1
        omega
      linked := hkept ▸ spec.linked
      nonempty := spec.nonempty
      admitted := spec.admitted
      sizes_eq := hkept ▸ spec.sizes_eq
      oldSizes_eq := hold
      roots := spec.roots
      matched := hmatch
      plan := rfl
      evidence := by rw [← hvisible, ← hready]; rfl
      epoch := ⟨p.publication.epoch, p.lookup_epoch _,
        by simp only [replacedStore, htip, hready, ← hthrough]; rfl,
        by simp only [replacedStore, hsettled, hready, hsettledTip]; rfl⟩
      lag_le := by
        have := spec.lag_le
        rw [hsettledTip, ← hthrough] at this
        simp only [replacedStore, hready]
        exact this
      db := by rw [← hdels, ← hrows]; rfl
      rest_keys := by
        intro key hmem
        rw [map_append, Op.map_key_ofRow, mem_append] at hmem
        rcases hmem with hmem | hmem
        · exact Bool.eq_false_iff.mpr fun hblock => Key.not_isArchive hblock (harchive key hmem)
        · rw [Op.map_key_ofRow] at hmem
          exact (p.publication.key_not_block hmem).1 }

theorem LiveInvariant.replacedSuffix [DecidableEq D] (inv : LiveInvariant st k)
    {fence : CanonicalEventFence D} (hfirst : r.blocks.head? = some first)
    (h : commitLiveReplacement st.store r activations = .ok (s', fence)) :
    ∃ n sizes oldSizes facts rest,
      ReplacedSuffix st k r first s' n sizes oldSizes facts rest := by
  simp only [commitLiveReplacement, bind_eq_ok] at h
  obtain ⟨p, hp, _, _, h⟩ := h
  cases h
  obtain ⟨n, sizes, oldSizes, facts, hreplaced⟩ := inv.preparedSuffix hfirst hp
  exact ⟨n, sizes, oldSizes, facts, _, hreplaced⟩

theorem ReplacedSuffix.take_settled {k n : Nat}
    (h : ReplacedSuffix st k r first s' n sizes oldSizes facts rest) :
    (st.chain.take n ++ r.chain).take k = st.chain.take k := by
  have hk := h.settled_le
  have hn := h.lt_length
  rw [take_append_of_le_length (by simp; omega), take_take, Nat.min_eq_left hk]

theorem LiveInvariant.replacement {k n : Nat} (inv : LiveInvariant st k)
    (h : ReplacedSuffix st k r first s' n sizes oldSizes facts rest) :
    LiveInvariant ⟨s', st.earlierRoots, st.chain.take n ++ r.chain⟩ k := by
  have holds : HoldsChain st.store.buildPlan st.earlierRoots
      (st.chain.take n ++ st.chain.drop n) st.store.db := by
    rw [take_append_drop]
    exact inv.holds
  exact
    { holds := by
        simp only [h.plan, h.db]
        refine holds.replace h.admitted h.linked
          (fun key hkey => mem_deletions_heightKey h.matched hkey) fun key hmem hkey => ?_
        have hfamily := hkey.isBlockFamily
        simp [h.rest_keys key hmem] at hfamily
      settled_pos := inv.settled_pos
      settled_le := by
        have hk := h.settled_le
        have hn := h.lt_length
        simp only [length_append, length_take]
        omega
      visible := by
        simp only [h.evidence, CanonicalStoreReadyEvidence.visibleSummary, replacedEvidence,
          CanonicalStoreReadyEvidence.visibleDigest, LiveState.start, h.plan]
        rw [← sequenceSummary_digest]
      settled := by
        simp only [h.take_settled, h.evidence, LiveState.start, h.plan]
        exact inv.settled
      epoch := h.epoch
      fence := by simp [h.evidence, replacedEvidence]
      window := by
        simp only [RocksDbCanonicalStore.window, h.plan]
        exact h.lag_le }

/-! ## The step theorem -/

/-- A live transition keeps the invariant, never gives up a settled block, and never rewrites the
settled prefix. -/
theorem LiveStep.preserves [DecidableEq D] {st st' : LiveState E} (step : LiveStep st st')
    (inv : LiveInvariant st k) :
    ∃ k', k ≤ k' ∧ LiveInvariant st' k' ∧ st'.chain.take k = st.chain.take k := by
  cases step with
  | append h =>
    obtain ⟨k', hk, inv'⟩ := inv.append h
    exact ⟨k', hk, inv', take_append_of_le_length inv.settled_le⟩
  | replacement hfirst h =>
    obtain ⟨n, sizes, oldSizes, facts, rest, hreplaced⟩ := inv.replacedSuffix hfirst h
    rw [hreplaced.kept]
    exact ⟨k, le_rfl, inv.replacement hreplaced, hreplaced.take_settled⟩

end Zinder.Canonical
