import Zinder.Canonical.Finality

/-!
# Zinder.Canonical.BlockFamilies

The block families of a store hold exactly the rows of its visible chain, over whole runs.

`HoldsFamilies` extends the height-keyed agreement of `HoldsChain` to the hash index, the
transaction families and the subtree roots. It needs what the height-keyed part does not: block
hashes and transaction ids that are unique within a visible chain, and facts that are determined
by their digest, since a replacement deletes the transactions it reads back from the replay row.
-/

namespace Zinder.Canonical

open KeyValue Relation List

variable {D : Type} {E : Env D}

/-! ## Subtree roots of a chain -/

variable {i : Nat} {v : VisibleBlock E} {chain : Chain E} {p : ShieldedProtocol}
  {plan : CanonicalStoreBuildPlan} {sizes : ChainTipMetadata} {st : LiveState E} {db : Db D}
  {earlier : List SubtreeRootArtifact} {k : Key} {roots : List SubtreeRootArtifact}

theorem RootsLinked.mem_roots_iff (h : RootsLinked sizes chain) :
    (∃ v ∈ chain, (p, i) ∈ v.roots.map SubtreeRootArtifact.position) ↔
      (p, i) ∈ completedBetween sizes (tipSizes sizes chain) := by
  induction chain generalizing sizes with
  | nil =>
    rw [mem_completedBetween]
    simp only [not_mem_nil, false_and, exists_false, tipSizes, false_iff]
    omega
  | cons v chain ih =>
    obtain ⟨hmono, hroots, hrest⟩ := h
    have htail := ih hrest
    have hstep := hmono p
    have hend : v.block.tipMetadata.completedSubtreeCount p ≤
        (tipSizes v.block.tipMetadata chain).completedSubtreeCount p := hrest.monotone p
    simp only [mem_cons, exists_eq_or_imp, htail, hroots, mem_completedBetween, tipSizes]
    omega

theorem RootsLinked.roots_nodup (h : RootsLinked sizes chain) (hv : v ∈ chain) :
    (v.roots.map SubtreeRootArtifact.position).Nodup := by
  induction chain generalizing sizes with
  | nil => simp at hv
  | cons w chain ih =>
    obtain ⟨_, hroots, hrest⟩ := h
    rcases mem_cons.mp hv with rfl | hv
    · rw [hroots]
      exact completedBetween_nodup _ _
    · exact ih hrest hv

/-! ## Each key once -/

theorem subtreeKey_injective : Function.Injective subtreeKey := by
  rintro ⟨p, i⟩ ⟨q, j⟩ h
  simpa [subtreeKey] using h

theorem count_ownedKeys_le_one (hids : v.block.transactionIds.Nodup)
    (hroots : (v.roots.map SubtreeRootArtifact.position).Nodup) (k : Key) :
    v.ownedKeys.count k ≤ 1 := by
  have hblock : (blockKeys v.block.height v.block.hash v.block.transactionIds).count k ≤ 1 :=
    count_blockKeys_le_one (.inr hids)
  have hroot := nodup_iff_count_le_one.mp (hroots.map subtreeKey_injective) k
  rw [VisibleBlock.ownedKeys, count_append]
  by_cases hkey : ∃ p i, k = .subtreeRoot p i
  · obtain ⟨p, i, rfl⟩ := hkey
    have hnone : Key.subtreeRoot p i ∉
        blockKeys v.block.height v.block.hash v.block.transactionIds := by simp [mem_blockKeys]
    rw [count_eq_zero.mpr hnone]
    omega
  · have hnone : k ∉ (v.roots.map SubtreeRootArtifact.position).map subtreeKey := by
      intro hmem
      obtain ⟨position, _, rfl⟩ := mem_map.mp hmem
      exact hkey ⟨_, _, rfl⟩
    rw [count_eq_zero.mpr hnone]
    omega

theorem UniqueIds.nodup_transactionIds (h : UniqueIds chain) (hv : v ∈ chain) :
    v.block.transactionIds.Nodup :=
  (nodup_flatMap.mp h.transactionIds).1 v hv

theorem notMem_base (hlinked : Linked plan.historyPredecessor.blockId chain)
    (hroots : RootsLinked plan.historyPredecessor.tipMetadata chain)
    (hbefore : ∀ r ∈ earlier,
      r.subtreeIndex < plan.historyPredecessor.tipMetadata.completedSubtreeCount r.protocol)
    (hv : v ∈ chain) (hk : k ∈ v.ownedKeys) :
    k ∉ (predecessorRow plan :: earlier.map SubtreeRootArtifact.row : List (Row (Val D))).keys := by
  rw [keys_cons, rootRows_keys, mem_cons, not_or]
  constructor
  · rintro rfl
    have hheight : plan.historyPredecessor.blockId.height = v.block.height := mem_ownedKeys.mp hk
    have := hlinked.lt_height hv
    omega
  · intro hmem
    obtain ⟨position, hposition, rfl⟩ := mem_map.mp hmem
    obtain ⟨r, hr, rfl⟩ := mem_map.mp hposition
    have hlow := hbefore r hr
    have hhigh := mem_completedBetween_of_tail hroots (SubtreeMonotone.refl _) hv
      (mem_ownedKeys.mp hk)
    simp only [SubtreeRootArtifact.position] at hhigh
    omega

/-! ## The families -/

/-- The block families of `db` hold exactly the rows of `chain`, of the history predecessor's
checkpoint, and of the roots completed before retained history. -/
structure HoldsFamilies (plan : CanonicalStoreBuildPlan) (earlier : List SubtreeRootArtifact)
    (chain : Chain E) (db : Db D) : Prop where
  rows : AgreesOn (fun k => k.isBlockFamily = true) db (storedRows plan earlier chain)
  roots : RootsLinked plan.historyPredecessor.tipMetadata chain
  before : ∀ r ∈ earlier, r.subtreeIndex <
    plan.historyPredecessor.tipMetadata.completedSubtreeCount r.protocol
  once : (earlier.map SubtreeRootArtifact.position).Nodup

theorem HoldsFamilies.replace {kept gone new : Chain E}
    (h : HoldsFamilies plan earlier (kept ++ gone) db)
    (holds : HoldsChain plan earlier (kept ++ gone) db) (hunique : UniqueIds (kept ++ gone))
    (hnew : ∀ v ∈ new, Admitted v.block)
    (hlinked : Linked (tipId plan.historyPredecessor.blockId kept) new)
    (hroots : RootsLinked (tipSizes plan.historyPredecessor.tipMetadata kept) new)
    (hunique' : UniqueIds (kept ++ new)) {dels : List Key}
    (hdels : ∀ k : Key, k.isBlockFamily = true →
      (k ∈ dels ↔ k ∈ gone.flatMap VisibleBlock.ownedKeys))
    {rest : List (Op (Val D))} (hrest : ∀ k ∈ rest.map Op.key, k.isBlockFamily = false) :
    HoldsFamilies plan earlier (kept ++ new)
      (write (dels.map Op.delete ++ (new.flatMap VisibleBlock.rows).map Op.ofRow ++ rest) db) := by
  have hchain : Linked plan.historyPredecessor.blockId (kept ++ new) :=
    linked_append.mpr ⟨(linked_append.mp holds.linked).1, hlinked⟩
  have hchainRoots : RootsLinked plan.historyPredecessor.tipMetadata (kept ++ new) :=
    rootsLinked_append.mpr ⟨(rootsLinked_append.mp h.roots).1, hroots⟩
  have hadmitted : ∀ v ∈ kept ++ gone, Admitted v.block := holds.admitted
  simp only [mem_append] at hadmitted
  refine ⟨?_, hchainRoots, h.before, h.once⟩
  refine agreesOn_replace h.rows (fun v hv => hadmitted v (.inr hv))
    (fun v hv => hadmitted v (.inl hv)) hnew (fun k _ => hunique.apart holds.linked h.roots k)
    (fun k _ => hunique'.apart hchain hchainRoots k) (fun k _ v hv hmem => ?_) hdels
    (fun k _ v hv => ?_) (fun k hk hmem => by simp [hrest k hmem] at hk)
  · rcases mem_append.mp hv with hv | hv
    · exact notMem_base holds.linked h.roots h.before (mem_append_right _ hv) hmem
    · exact notMem_base hchain hchainRoots h.before (mem_append_right _ hv) hmem
  · have hmem : v ∈ kept ++ new := mem_append_right _ hv
    exact ((rows_keys_sublist (hnew v hv)).count_le k).trans
      (count_ownedKeys_le_one (hunique'.nodup_transactionIds hmem) (hchainRoots.roots_nodup hmem) k)

theorem count_base_le_one (honce : (earlier.map SubtreeRootArtifact.position).Nodup) (k : Key) :
    (predecessorRow plan :: earlier.map SubtreeRootArtifact.row :
      List (Row (Val D))).keys.count k ≤ 1 := by
  have hroots := nodup_iff_count_le_one.mp (honce.map subtreeKey_injective) k
  rw [keys_cons, rootRows_keys]
  by_cases hk : k = (predecessorRow plan : Row (Val D)).1
  · have hnone : k ∉ (earlier.map SubtreeRootArtifact.position).map subtreeKey := by
      rintro hmem
      obtain ⟨_, _, rfl⟩ := mem_map.mp hmem
      simp [subtreeKey, predecessorRow] at hk
    rw [hk, count_cons_self, ← hk, count_eq_zero.mpr hnone]
  · rw [count_cons_of_ne (Ne.symm hk)]
    exact hroots

theorem count_storedRows_of_unique (hlinked : Linked plan.historyPredecessor.blockId chain)
    (hadmitted : ∀ v ∈ chain, Admitted v.block)
    (hroots : RootsLinked plan.historyPredecessor.tipMetadata chain)
    (hbefore : ∀ r ∈ earlier,
      r.subtreeIndex < plan.historyPredecessor.tipMetadata.completedSubtreeCount r.protocol)
    (honce : (earlier.map SubtreeRootArtifact.position).Nodup) (hunique : UniqueIds chain)
    (k : Key) : (storedRows plan earlier chain).keys.count k ≤ 1 := by
  refine count_storedRows_le_one hadmitted (hunique.apart hlinked hroots k) (fun v hv => ?_)
    (count_base_le_one honce k) fun v hv hk => notMem_base hlinked hroots hbefore hv hk
  exact ((rows_keys_sublist (hadmitted v hv)).count_le k).trans
    (count_ownedKeys_le_one (hunique.nodup_transactionIds hv) (hroots.roots_nodup hv) k)

theorem HoldsFamilies.lookup_eq_some_iff (h : HoldsFamilies plan earlier chain db)
    (holds : HoldsChain plan earlier chain db) (hunique : UniqueIds chain)
    (hk : k.isBlockFamily = true) {v : Val D k} :
    db.lookup k = some v ↔ (⟨k, v⟩ : Row (Val D)) ∈ storedRows plan earlier chain := by
  rw [h.rows k hk]
  exact dlookup_eq_some_iff
    (count_storedRows_of_unique holds.linked holds.admitted h.roots h.before h.once hunique k)

/-! ## One step -/

/-- The tree sizes read at the end of a prefix are the sizes of its last block. -/
theorem HoldsChain.readPersistedTipMetadata_take (h : HoldsChain plan earlier chain db)
    (start : ChainTipMetadata) {n : Nat} (hpos : 0 < n) (hn : n ≤ chain.length) :
    readPersistedTipMetadata db (tipId plan.historyPredecessor.blockId (chain.take n)) =
      .ok (tipSizes start (chain.take n)) := by
  obtain ⟨m, rfl⟩ : ∃ m, n = m + 1 := ⟨n - 1, by omega⟩
  have hv : chain[m]? = some chain[m] := getElem?_eq_getElem (by omega)
  rw [take_succ_eq hv, tipId_concat, tipSizes_append]
  exact h.readPersistedTipMetadata_eq (mem_of_getElem? hv)

/-- A replacement deletes exactly the keys of the blocks it displaces, when their replay envelopes
encode their own facts. -/
theorem mem_deletions_blockFamily {gone : Chain E} (own : ∀ v ∈ gone, v.block.OwnEnvelope)
    {facts : List CanonicalBlockFacts} (h : List.Forall₂ MatchesFacts gone facts)
    (hroots : RootsLinked sizes gone) :
    k ∈ facts.flatMap factsDeletions ++
        (completedBetween sizes (tipSizes sizes gone)).map subtreeKey ↔
      k ∈ gone.flatMap VisibleBlock.ownedKeys := by
  have hfacts : facts = gone.map fun v => v.block.facts := by
    clear hroots
    induction h with
    | nil => rfl
    | cons hmatch _ ih =>
      rw [map_cons, ih fun v hv => own v (mem_cons_of_mem _ hv),
        hmatch.2.2 (own _ mem_cons_self)]
  have hblocks : k ∈ facts.flatMap factsDeletions ↔
      ∃ v ∈ gone, k ∈ blockKeys v.block.height v.block.hash v.block.transactionIds := by
    rw [hfacts, flatMap_map, mem_flatMap]
    exact exists_congr fun v => and_congr_right fun _ => mem_blockDeletions
  have hkeys : k ∈ (completedBetween sizes (tipSizes sizes gone)).map subtreeKey ↔
      ∃ v ∈ gone, k ∈ (v.roots.map SubtreeRootArtifact.position).map subtreeKey := by
    constructor
    · intro hmem
      obtain ⟨⟨p, i⟩, hposition, rfl⟩ := mem_map.mp hmem
      obtain ⟨v, hv, hroot⟩ := hroots.mem_roots_iff.mpr hposition
      exact ⟨v, hv, mem_map_of_mem hroot⟩
    · rintro ⟨v, hv, hmem⟩
      obtain ⟨⟨p, i⟩, hposition, rfl⟩ := mem_map.mp hmem
      exact mem_map_of_mem (hroots.mem_roots_iff.mp ⟨v, hv, hposition⟩)
  rw [mem_append, hblocks, hkeys, mem_flatMap, ← exists_or]
  refine exists_congr fun v => ?_
  rw [← and_or_left, VisibleBlock.ownedKeys, mem_append]

variable [DecidableEq D]

theorem HoldsFamilies.append {k : Nat} (inv : LiveInvariant st k)
    (h : HoldsFamilies st.store.buildPlan st.earlierRoots st.chain st.store.db)
    (hunique : UniqueIds st.chain) {a : CanonicalLiveAppend E}
    (hunique' : UniqueIds (st.chain ++ [a.visible])) {activations : NetworkUpgradeActivations}
    {s' : RocksDbCanonicalStore D} {fence : CanonicalEventFence D}
    (hcommit : commitLiveAppend st.store a activations = .ok (s', fence)) :
    HoldsFamilies s'.buildPlan st.earlierRoots (st.chain ++ [a.visible]) s'.db := by
  obtain ⟨sizes, checkpoint, p, spec, _, _, rfl, _, _⟩ := commitLiveAppend_eq_ok hcommit
  have hsizes : sizes = tipSizes st.store.buildPlan.historyPredecessor.tipMetadata st.chain := by
    have hread := inv.holds.readPersistedTipMetadata_take
      st.store.buildPlan.historyPredecessor.tipMetadata
      (inv.settled_pos.trans_le inv.settled_le) le_rfl
    rw [take_length] at hread
    have hspec := spec.sizes_eq
    rw [inv.tip_eq, LiveState.start, hread] at hspec
    cases hspec
    rfl
  have hroots : RootsLinked
      (tipSizes st.store.buildPlan.historyPredecessor.tipMetadata st.chain) [a.visible] := by
    rw [← hsizes]
    exact ⟨spec.monotone, (completedRoots_positions a.block a.subtreeRoots).trans spec.roots,
      trivial⟩
  have hchain : st.chain ++ [] = st.chain := append_nil _
  have hnone : ∀ k : Key, k.isBlockFamily = true →
      (k ∈ ([] : List Key) ↔ k ∈ ([] : Chain E).flatMap VisibleBlock.ownedKeys) := by simp
  have hadmitted : ∀ v ∈ [a.visible], Admitted v.block := by
    intro v hv
    rw [mem_singleton.mp hv]
    exact spec.admitted
  have hrest : ∀ k ∈ (p.rows.map Op.ofRow).map Op.key, k.isBlockFamily = false := by
    intro k hk
    exact (p.key_not_block hk).1
  simpa using HoldsFamilies.replace (hchain.symm ▸ h) (hchain.symm ▸ inv.holds)
    (hchain.symm ▸ hunique) hadmitted (spec.linked inv) hroots hunique' hnone hrest

omit [DecidableEq D] in
theorem HoldsFamilies.replacement (own : ∀ v ∈ st.chain, v.block.OwnEnvelope) {k n : Nat}
    (inv : LiveInvariant st k)
    (h : HoldsFamilies st.store.buildPlan st.earlierRoots st.chain st.store.db)
    (hunique : UniqueIds st.chain) {r : CanonicalLiveReplacement E}
    {first : CanonicalReplacementBlock E} {s' : RocksDbCanonicalStore D}
    {sizes oldSizes : ChainTipMetadata} {facts : List CanonicalBlockFacts}
    {rest : List (Op (Val D))}
    (hreplaced : ReplacedSuffix st k r first s' n sizes oldSizes facts rest)
    (hunique' : UniqueIds (st.chain.take n ++ r.chain)) :
    HoldsFamilies s'.buildPlan st.earlierRoots (st.chain.take n ++ r.chain) s'.db := by
  have hpos : 0 < n := inv.settled_pos.trans_le hreplaced.settled_le
  have hsplit : st.chain.take n ++ st.chain.drop n = st.chain := take_append_drop _ _
  have hsizes : sizes =
      tipSizes st.store.buildPlan.historyPredecessor.tipMetadata (st.chain.take n) := by
    have hread := inv.holds.readPersistedTipMetadata_take
      st.store.buildPlan.historyPredecessor.tipMetadata hpos hreplaced.lt_length.le
    exact Except.ok.inj (hreplaced.sizes_eq.symm.trans hread)
  have hold : oldSizes = tipSizes sizes (st.chain.drop n) := by
    have hread := inv.holds.readPersistedTipMetadata_take
      st.store.buildPlan.historyPredecessor.tipMetadata
      (inv.settled_pos.trans_le inv.settled_le) le_rfl
    rw [take_length] at hread
    have hspec := hreplaced.oldSizes_eq
    rw [inv.tip_eq] at hspec
    rw [Except.ok.inj (hspec.symm.trans hread), hsizes, ← tipSizes_append, hsplit]
  have hgone : RootsLinked sizes (st.chain.drop n) := by
    rw [hsizes]
    exact (rootsLinked_append.mp (hsplit.symm ▸ h.roots)).2
  rw [hreplaced.plan, hreplaced.db, hold]
  exact HoldsFamilies.replace (hsplit.symm ▸ h) (hsplit.symm ▸ inv.holds)
    (hsplit.symm ▸ hunique) hreplaced.admitted hreplaced.linked (hsizes ▸ hreplaced.roots)
    hunique' (fun k _ => mem_deletions_blockFamily
      (fun v hv => own v (mem_of_mem_drop hv)) hreplaced.matched hgone)
    hreplaced.rest_keys

/-! ## The baseline -/

omit [DecidableEq D] in
theorem SubtreesAdvance.monotone (h : SubtreesAdvance sizes chain) :
    SubtreeMonotone sizes (tipSizes sizes chain) := by
  induction chain generalizing sizes with
  | nil => exact SubtreeMonotone.refl _
  | cons v chain ih => exact h.1.trans (ih h.2)

omit [DecidableEq D] in
theorem rootsLinked_attachRoots {origin sizes : ChainTipMetadata}
    {blocks : List (CanonicalBuildBlock E)} (horigin : SubtreeMonotone origin sizes)
    (hadvance : SubtreesAdvance sizes (attachRoots roots sizes blocks))
    (hpositions : roots.map SubtreeRootArtifact.position =
      completedBetween origin (tipSizes sizes (attachRoots roots sizes blocks))) :
    RootsLinked sizes (attachRoots roots sizes blocks) := by
  induction blocks generalizing sizes with
  | nil => exact trivial
  | cons block blocks ih =>
    obtain ⟨hmono, hrest⟩ := hadvance
    refine ⟨hmono, ?_, ih (horigin.trans hmono) hrest hpositions⟩
    have hfilter := filter_completedBetween horigin hmono hrest.monotone
    have hmap : (roots.filter fun r => r.position ∈ completedBetween sizes block.tipMetadata).map
        SubtreeRootArtifact.position = (roots.map SubtreeRootArtifact.position).filter
          (· ∈ completedBetween sizes block.tipMetadata) := by
      rw [filter_map]
      rfl
    exact hmap.trans (hpositions ▸ hfilter)

omit [DecidableEq D] in
theorem mem_attachRoots_iff {origin sizes : ChainTipMetadata}
    {blocks : List (CanonicalBuildBlock E)}
    (hroots : RootsLinked sizes (attachRoots roots sizes blocks))
    (hpositions : roots.map SubtreeRootArtifact.position =
      completedBetween origin (tipSizes sizes (attachRoots roots sizes blocks)))
    (r : SubtreeRootArtifact) :
    (r ∈ rootsBefore sizes roots ∨ ∃ v ∈ attachRoots roots sizes blocks, r ∈ v.roots) ↔
      r ∈ roots := by
  have hattached : ∀ (s : ChainTipMetadata) (bs : List (CanonicalBuildBlock E)),
      ∀ v ∈ attachRoots roots s bs, ∀ x ∈ v.roots, x ∈ roots := by
    intro s bs
    induction bs generalizing s with
    | nil => simp [attachRoots]
    | cons b bs ih =>
      intro v hv x hx
      rcases mem_cons.mp hv with rfl | hv
      · exact (mem_filter.mp hx).1
      · exact ih _ v hv x hx
  constructor
  · rintro (hbefore | ⟨v, hv, hr⟩)
    · exact (mem_filter.mp hbefore).1
    · exact hattached _ _ v hv r hr
  · intro hr
    by_cases hlow : r.subtreeIndex < sizes.completedSubtreeCount r.protocol
    · exact .inl (mem_filter.mpr ⟨hr, by simpa using hlow⟩)
    · -- the position of `r` is completed inside the chain, so a block carries it
      have hposition : r.position ∈ completedBetween origin
          (tipSizes sizes (attachRoots roots sizes blocks)) :=
        hpositions ▸ mem_map_of_mem hr
      have hinside : (r.protocol, r.subtreeIndex) ∈ completedBetween sizes
          (tipSizes sizes (attachRoots roots sizes blocks)) := by
        rw [SubtreeRootArtifact.position, mem_completedBetween] at hposition
        rw [mem_completedBetween]
        omega
      obtain ⟨v, hv, hmem⟩ := hroots.mem_roots_iff.mpr hinside
      obtain ⟨x, hx, hsame⟩ := mem_map.mp hmem
      have hnodup : (roots.map SubtreeRootArtifact.position).Nodup :=
        hpositions ▸ completedBetween_nodup _ _
      have heq : x = r := inj_on_of_nodup_map hnodup (hattached _ _ v hv x hx) hr hsame
      exact .inr ⟨v, hv, heq ▸ hx⟩

omit [DecidableEq D] in
theorem mem_rootRows {value : SubtreeRootValue} :
    (⟨.subtreeRoot p i, value⟩ : Row (Val D)) ∈ roots.map SubtreeRootArtifact.row ↔
      ⟨p, i, value⟩ ∈ roots := by
  constructor
  · intro hmem
    obtain ⟨⟨q, j, w⟩, hr, heq⟩ := mem_map.mp hmem
    simp only [SubtreeRootArtifact.row, Sigma.mk.injEq] at heq
    obtain ⟨⟨rfl, rfl⟩, hvalue⟩ := heq
    cases hvalue
    exact hr
  · exact fun hr => mem_map_of_mem hr

omit [DecidableEq D] in
theorem mem_storedRows_root (hadmitted : ∀ v ∈ chain, Admitted v.block) {value : SubtreeRootValue} :
    (⟨.subtreeRoot p i, value⟩ : Row (Val D)) ∈ storedRows plan earlier chain ↔
      ⟨p, i, value⟩ ∈ earlier ∨ ∃ v ∈ chain, ⟨p, i, value⟩ ∈ v.roots := by
  have hblock : ∀ v ∈ chain, (⟨.subtreeRoot p i, value⟩ : Row (Val D)) ∉ blockRows v.block := by
    intro v hv hmem
    have hkey := (blockRows_keys_sublist v.block (hadmitted v hv).blobs_le).subset
      (mem_keys_of_mem hmem)
    simp [mem_blockKeys] at hkey
  have hrows : ∀ v ∈ chain, ((⟨.subtreeRoot p i, value⟩ : Row (Val D)) ∈ v.rows ↔
      ⟨p, i, value⟩ ∈ v.roots) := by
    intro v hv
    rw [VisibleBlock.rows, mem_append, mem_rootRows]
    exact or_iff_right (hblock v hv)
  rw [storedRows, mem_cons, mem_append, mem_rootRows, mem_flatMap]
  have hpredecessor : (⟨.subtreeRoot p i, value⟩ : Row (Val D)) ≠ predecessorRow plan := by
    intro heq
    have := congrArg Sigma.fst heq
    simp [predecessorRow] at this
  rw [or_iff_right hpredecessor]
  exact or_congr_right (exists_congr fun v => and_congr_right fun hv => hrows v hv)

omit [DecidableEq D] in
theorem PublicationSpec.holdsFamilies {b : CanonicalBaseline E} {s : RocksDbCanonicalStore D}
    {k : Nat}
    (spec : PublicationSpec b s (attachRoots roots b.plan.historyPredecessor.tipMetadata b.blocks) roots k)
    (hadvance : SubtreesAdvance b.plan.historyPredecessor.tipMetadata
      (attachRoots roots b.plan.historyPredecessor.tipMetadata b.blocks)) :
    HoldsFamilies b.plan (rootsBefore b.plan.historyPredecessor.tipMetadata roots)
      (attachRoots roots b.plan.historyPredecessor.tipMetadata b.blocks) s.db := by
  obtain ⟨origin, horigin, hpositions⟩ := spec.rootPositions
  obtain ⟨publication, hdb⟩ := spec.db
  have hlinked := rootsLinked_attachRoots horigin hadvance hpositions
  have hnodup : (roots.map SubtreeRootArtifact.position).Nodup :=
    hpositions ▸ completedBetween_nodup _ _
  have hbefore : ∀ r ∈ rootsBefore b.plan.historyPredecessor.tipMetadata roots,
      r.subtreeIndex < b.plan.historyPredecessor.tipMetadata.completedSubtreeCount r.protocol :=
    fun r hr => by simpa using (mem_filter.mp hr).2
  have honce : ((rootsBefore b.plan.historyPredecessor.tipMetadata roots).map
      SubtreeRootArtifact.position).Nodup :=
    hnodup.sublist (filter_sublist.map _)
  have hcount := count_storedRows_of_unique spec.linked spec.admitted hlinked hbefore
    honce spec.unique
  refine ⟨fun key hkey => ?_, hlinked, hbefore, honce⟩
  have huntouched : key ∉ (publication.rows.map Op.ofRow).map Op.key := by
    intro hmem
    simp [(publication.key_not_block hmem).1] at hkey
  rw [hdb, lookup_write_of_untouched huntouched]
  by_cases hroot : ∃ p i, key = .subtreeRoot p i
  · obtain ⟨p, i, rfl⟩ := hroot
    have hrows : (roots.map SubtreeRootArtifact.row : List (Row (Val D))).keys.count
        (.subtreeRoot p i) ≤ 1 := by
      rw [rootRows_keys]
      exact nodup_iff_count_le_one.mp (hnodup.map subtreeKey_injective) _
    have hloaded : Key.subtreeRoot p i ∉ ((loadedRows b.plan
        (attachRoots roots b.plan.historyPredecessor.tipMetadata b.blocks)).map Op.ofRow).map
          Op.key := by
      rw [Op.map_key_ofRow, loadedRows, keys_cons, mem_cons, not_or]
      refine ⟨by simp [predecessorRow], fun hmem => ?_⟩
      obtain ⟨row, hrow, hkey⟩ := mem_map.mp hmem
      obtain ⟨block, hblock, hrow⟩ := mem_flatMap.mp hrow
      obtain ⟨v, hv, rfl⟩ := mem_map.mp hblock
      have hown := (blockRows_keys_sublist v.block (spec.admitted v hv).blobs_le).subset
        (mem_keys_of_mem hrow)
      simp [mem_blockKeys, hkey] at hown
    rw [loadedDb, lookup_write_puts hrows, lookup_write_of_untouched hloaded,
      Finmap.lookup_empty, Option.or_none]
    refine dlookup_congr hrows (hcount _) fun value => ?_
    rw [mem_rootRows, mem_storedRows_root spec.admitted]
    exact (mem_attachRoots_iff hlinked hpositions _).symm
  · exact lookup_loadedDb_of_ne (fun p i heq => hroot ⟨p, i, heq⟩) _ (hcount key)

/-! ## Runs -/

/-- A transition to a chain whose blocks have ids of their own and replay envelopes that encode their
own facts. -/
structure UniqueStep (st st' : LiveState E) : Prop where
  step : LiveStep st st'
  unique : UniqueIds st'.chain
  own : ∀ v ∈ st'.chain, v.block.OwnEnvelope

theorem Published.holdsFamilies (h : Published st)
    (hfirst : ∀ v ∈ st.chain.head?,
      SubtreeMonotone st.store.buildPlan.historyPredecessor.tipMetadata v.block.tipMetadata) :
    UniqueIds st.chain ∧
      HoldsFamilies st.store.buildPlan st.earlierRoots st.chain st.store.db := by
  obtain ⟨hroots, h⟩ := h
  obtain ⟨k, spec⟩ := publishBaseline_eq_ok hroots h (attachRoots_blocks _ _ _)
  refine ⟨spec.unique, ?_⟩
  simp only [spec.plan] at hfirst ⊢
  refine spec.holdsFamilies ?_
  have hadvance := spec.advance
  revert hfirst hadvance
  cases attachRoots _ _ _ with
  | nil => exact fun _ _ => trivial
  | cons v chain => exact fun hfirst hadvance => ⟨hfirst v rfl, hadvance⟩

theorem UniqueStep.holdsFamilies {st st' : LiveState E} (step : UniqueStep st st') {k : Nat}
    (inv : LiveInvariant st k) (hunique : UniqueIds st.chain)
    (own : ∀ v ∈ st.chain, v.block.OwnEnvelope)
    (h : HoldsFamilies st.store.buildPlan st.earlierRoots st.chain st.store.db) :
    HoldsFamilies st'.store.buildPlan st'.earlierRoots st'.chain st'.store.db := by
  obtain ⟨step, hunique', _⟩ := step
  cases step with
  | append hcommit => exact h.append inv hunique hunique' hcommit
  | replacement hfirst hcommit =>
    obtain ⟨n, sizes, oldSizes, facts, rest, hreplaced⟩ := inv.replacedSuffix hfirst hcommit
    simp only [hreplaced.kept] at hunique' ⊢
    exact h.replacement own inv hunique hreplaced hunique'

theorem run_holdsFamilies {st₀ st : LiveState E} (h : Published st₀)
    (own : ∀ v ∈ st₀.chain, v.block.OwnEnvelope)
    (hfirst : ∀ v ∈ st₀.chain.head?, SubtreeMonotone
      st₀.store.buildPlan.historyPredecessor.tipMetadata v.block.tipMetadata)
    (run : ReflTransGen UniqueStep st₀ st) :
    (∃ k, LiveInvariant st k) ∧ (∀ v ∈ st.chain, v.block.OwnEnvelope) ∧ UniqueIds st.chain ∧
      HoldsFamilies st.store.buildPlan st.earlierRoots st.chain st.store.db := by
  induction run with
  | refl => exact ⟨h.invariant, own, h.holdsFamilies hfirst⟩
  | tail _ step ih =>
    obtain ⟨⟨k, inv⟩, own, hunique, hholds⟩ := ih
    obtain ⟨k', _, inv', _⟩ := step.step.preserves inv
    exact ⟨⟨k', inv'⟩, step.own, step.unique, step.holdsFamilies inv hunique own hholds⟩

omit [DecidableEq D] in
theorem HoldsChain.lookup_predecessor (h : HoldsChain plan earlier chain db) :
    db.lookup (predecessorRow plan : Row (Val D)).1 = some (predecessorRow plan : Row (Val D)).2 ∧
      predecessorRow plan ∉ chain.flatMap VisibleBlock.rows := by
  have hheight : (predecessorRow plan : Row (Val D)).1.IsHeightKey := rfl
  constructor
  · rw [h.rows _ hheight]
    exact dlookup_of_mem mem_cons_self (h.count_le_one hheight)
  · intro hmem
    obtain ⟨v, hv, hkey⟩ := mem_flatMap.mp
      (mem_keys_flatMap h.admitted (mem_keys_of_mem hmem))
    have hbase : (predecessorRow plan : Row (Val D)).1 ∉
        (predecessorRow plan :: earlier.map SubtreeRootArtifact.row : List (Row (Val D))).keys :=
      notMem_base_of_lt hheight hkey (h.linked.lt_height hv)
    simp at hbase

section Regressed

def sampleFrontiers (size : Nat) : CommitmentTreeFrontiers :=
  ⟨some ⟨size, repeatedByte 0, []⟩, none, none⟩

/-- A load of two blocks whose first block has fewer commitments than the history predecessor: the
predecessor has one complete subtree, block 1 none, block 2 two. -/
noncomputable def regressedBaseline : CanonicalBaseline sampleEnv where
  workload := .wallet
  plan :=
    { sampleBaseline.plan with
      historyPredecessor := ⟨⟨0, repeatedByte 0⟩, 0, sampleFrontiers subtreeLeafCount⟩
      buildTip := ⟨2, repeatedByte 2⟩
      predecessor_lt_buildTip := by decide }
  blocks :=
    [{ plainBlock sampleEnv (plainFacts 1 1 0 11) with treeStateCheckpoint := none },
      { plainBlock sampleEnv (plainFacts 2 2 1 12) with
        compactBlock :=
          ⟨2, repeatedByte 2, repeatedByte 1, 0, [], ⟨2 * subtreeLeafCount, 0, 0⟩⟩
        tipMetadata := ⟨2 * subtreeLeafCount, 0, 0⟩
        treeStateCheckpoint :=
          some ⟨⟨2, repeatedByte 2⟩, 0, sampleFrontiers (2 * subtreeLeafCount)⟩ }]
  roots := .retainedRange [⟨.sapling, 1, repeatedByte 7, 2⟩]
  sourceTipCheckpoint := ⟨⟨2, repeatedByte 2⟩, 0, sampleFrontiers (2 * subtreeLeafCount)⟩
  settledTip := ⟨2, repeatedByte 2⟩
  createdAt := 0

/-- The root of subtree 0, as the published store of `regressedBaseline` holds it. -/
noncomputable def regressedRoot : Except CanonicalStoreError (Option SubtreeRootValue) := do
  let s ← publishBaseline regressedBaseline
  .ok (s.db.lookup (Key.subtreeRoot .sapling 0))

end Regressed

/-- Two ways in which the block families differ from the rows of the visible blocks, both in a
store that has taken no live step. The checkpoint of the history predecessor is stored and belongs
to no visible block. And when the first loaded block has fewer commitments than the history
predecessor, a root that block 2 completes is missing. -/
theorem block_families_differ :
    (∃ st : LiveState sampleEnv, Published st ∧
      ∃ row : Row (Val Nat), row.1.isBlockFamily = true ∧ st.store.db.lookup row.1 = some row.2 ∧
        row ∉ st.chain.flatMap VisibleBlock.rows) ∧
    ∃ (st : LiveState sampleEnv) (first second : VisibleBlock sampleEnv), Published st ∧
      st.chain = [first, second] ∧
      (.sapling, 0) ∈ completedBetween first.block.tipMetadata second.block.tipMetadata ∧
      st.store.db.lookup (Key.subtreeRoot .sapling 0) = none := by
  constructor
  · obtain ⟨st, _, _, hpublished, _⟩ := sample_run
    obtain ⟨k, inv⟩ := hpublished.invariant
    obtain ⟨hlookup, hnone⟩ := inv.holds.lookup_predecessor
    exact ⟨st, hpublished, _, rfl, hlookup, hnone⟩
  · have hnone : (regressedRoot.toOption == some none) = true := by decide +kernel
    obtain ⟨s, hs⟩ : ∃ s, publishBaseline regressedBaseline = .ok s := by
      cases hs : publishBaseline regressedBaseline with
      | ok s => exact ⟨s, rfl⟩
      | error e => simp [regressedRoot, hs, Except.toOption] at hnone
    obtain ⟨st, hpublished, rfl, hblocks, _⟩ := exists_published hs
    have hlookup : st.store.db.lookup (Key.subtreeRoot .sapling 0) = none := by
      simpa [regressedRoot, hs, Except.toOption] using hnone
    obtain ⟨first, second, hchain⟩ : ∃ first second, st.chain = [first, second] :=
      length_eq_two.mp (by rw [← length_map, hblocks]; rfl)
    have hfirst := congrArg (fun l => l[0]?.map CanonicalBuildBlock.tipMetadata) hblocks
    have hsecond := congrArg (fun l => l[1]?.map CanonicalBuildBlock.tipMetadata) hblocks
    simp only [hchain, map_cons, map_nil, getElem?_cons_zero,
      getElem?_cons_succ, Option.map_some] at hfirst hsecond
    refine ⟨st, first, second, hpublished, hchain, ?_, hlookup⟩
    rw [Option.some.inj hfirst, Option.some.inj hsecond]
    decide

/-- Over every run from a published baseline, the block families hold exactly the rows of the
visible blocks, of the history predecessor's checkpoint and of the roots completed before retained
history; the subtree roots of the visible blocks are exactly those the chain completes. -/
theorem block_families_exact {st₀ st : LiveState E} (h : Published st₀)
    (own : ∀ v ∈ st₀.chain, v.block.OwnEnvelope)
    (hfirst : ∀ v ∈ st₀.chain.head?, SubtreeMonotone
      st₀.store.buildPlan.historyPredecessor.tipMetadata v.block.tipMetadata)
    (run : ReflTransGen UniqueStep st₀ st) :
    (∀ (k : Key) (value : Val D k), k.isBlockFamily = true →
      (st.store.db.lookup k = some value ↔ (⟨k, value⟩ : Row (Val D)) ∈
        storedRows st.store.buildPlan st.earlierRoots st.chain)) ∧
      Linked st.start st.chain ∧
      RootsLinked st.store.buildPlan.historyPredecessor.tipMetadata st.chain ∧
      ∀ r ∈ st.earlierRoots, r.subtreeIndex <
        st.store.buildPlan.historyPredecessor.tipMetadata.completedSubtreeCount r.protocol := by
  obtain ⟨⟨k, inv⟩, _, hunique, hholds⟩ := run_holdsFamilies h own hfirst run
  refine ⟨fun key value hkey => ?_, inv.linked, hholds.roots, hholds.before⟩
  exact hholds.lookup_eq_some_iff inv.holds hunique hkey

omit [DecidableEq D] in
theorem uniqueIds_of_blocks
    (hhashes : ((chain.map VisibleBlock.block).map CanonicalBuildBlock.hash).Nodup)
    (hids : ((chain.map VisibleBlock.block).flatMap CanonicalBuildBlock.transactionIds).Nodup) :
    UniqueIds chain := by
  rw [List.map_map] at hhashes
  rw [flatMap_map] at hids
  exact ⟨hhashes, hids⟩

omit [DecidableEq D] in
theorem ownEnvelope_of_blocks (facts : List CanonicalBlockFacts)
    (h : chain.map VisibleBlock.block = facts.map (plainBlock E)) :
    ∀ v ∈ chain, v.block.OwnEnvelope := by
  intro v hv
  obtain ⟨f, _, hblock⟩ := mem_map.mp (h ▸ mem_map_of_mem hv)
  rw [← hblock]
  rfl

theorem block_families_exact_sample : ∃ st₀ st : LiveState sampleEnv, Published st₀ ∧
    ReflTransGen UniqueStep st₀ st ∧ ∀ (k : Key) (value : Val Nat k), k.isBlockFamily = true →
      (st.store.db.lookup k = some value ↔ (⟨k, value⟩ : Row (Val Nat)) ∈
        storedRows st.store.buildPlan st.earlierRoots st.chain) := by
  obtain ⟨st₀, st₁, st₂, hpublished, h₁, h₂, hplan, hb₀, hb₁, hb₂⟩ := sample_run
  have hu₁ : UniqueIds st₁.chain := uniqueIds_of_blocks (by rw [hb₁]; decide)
    (by rw [hb₁]; decide)
  have hu₂ : UniqueIds st₂.chain := uniqueIds_of_blocks (by rw [hb₂]; decide)
    (by rw [hb₂]; decide)
  have hfirst : ∀ v ∈ st₀.chain.head?, SubtreeMonotone
      st₀.store.buildPlan.historyPredecessor.tipMetadata v.block.tipMetadata := by
    intro v hv p
    have hhead : (st₀.chain.map VisibleBlock.block).head? = some v.block := by
      rw [head?_map, hv]
      rfl
    rw [hb₀, head?_cons, Option.some.injEq] at hhead
    rw [hplan, ← hhead]
    cases p <;> decide
  have ho₀ := ownEnvelope_of_blocks [_] hb₀
  have run : ReflTransGen UniqueStep st₀ st₂ :=
    (ReflTransGen.single ⟨h₁, hu₁, ownEnvelope_of_blocks [_, _] hb₁⟩).tail
      ⟨h₂, hu₂, ownEnvelope_of_blocks [_, _] hb₂⟩
  exact ⟨st₀, st₂, hpublished, run, (block_families_exact hpublished ho₀ hfirst run).1⟩

end Zinder.Canonical
