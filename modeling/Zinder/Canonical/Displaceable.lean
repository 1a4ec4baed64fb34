import Zinder.Canonical.Displacements

/-!
# Zinder.Canonical.Displaceable

When a visible suffix can be displaced.

`Rewinds` says that the tree state at the end of a chain can be rebuilt from the last one stored;
`StoreReady.checkpointAt_ok` ties it to `checkpoint_at`. A run of
`DisplaceableStep`s is one whose admitted blocks meet what the displacement path later asks of them,
and `accepted_blocks_displaceable` is what then holds in every state it reaches. Admission itself checks less: `no_coinbase_not_displaceable`.
-/

namespace Zinder.Canonical

open KeyValue Relation List

variable {D : Type} [DecidableEq D] {E : Env D}

/-! ## The tree state at the end of a chain -/

/-- The tree state stored with the last block of a chain, or with the history predecessor. -/
def storedTrees (plan : CanonicalStoreBuildPlan) (chain : Chain E) :
    Option CommitmentTreeFrontiers :=
  match chain.getLast? with
  | none => some plan.historyPredecessor.frontiers
  | some v => v.block.treeStateCheckpoint.map CommitmentTreeCheckpoint.frontiers

/-- The tree state at the end of `chain` can be rebuilt: the commitments of the blocks above the last
stored tree state can be appended to it, and the frontiers after them can be written. -/
def Rewinds (plan : CanonicalStoreBuildPlan) (activations : NetworkUpgradeActivations)
    (chain : Chain E) : Prop :=
  ∃ base tail frontiers, chain = base ++ tail ∧
    (∀ v ∈ tail, v.block.treeStateCheckpoint = none) ∧ storedTrees plan base = some frontiers ∧
    (tail ≠ [] → ∃ seeded accumulator snapshot,
      CommitmentTreeAccumulator.fromValidatedFrontiers E.trees
        (tipId plan.historyPredecessor.blockId base).height frontiers activations = .ok seeded ∧
      loop (fun accumulator (v : VisibleBlock E) =>
        appendCompactCommitments accumulator v.block.height v.block.compactBlock) seeded tail =
          .ok accumulator ∧
      accumulator.validatedFrontiers = .ok snapshot)

omit [DecidableEq D] in
theorem Rewinds.concat {plan : CanonicalStoreBuildPlan} {activations : NetworkUpgradeActivations}
    {chain : Chain E} {v : VisibleBlock E} (h : v.block.treeStateCheckpoint.isSome = true) :
    Rewinds plan activations (chain ++ [v]) := by
  obtain ⟨checkpoint, hc⟩ := Option.isSome_iff_exists.mp h
  exact ⟨chain ++ [v], [], checkpoint.frontiers, by simp, by simp, by simp [storedTrees, hc],
    fun h => absurd rfl h⟩

theorem find?_reverse_range {p : Nat → Bool} {m n : Nat} (hm : m ≤ n) (hp : p m = true)
    (hnone : ∀ i, m < i → i ≤ n → p i = false) :
    (List.range (n + 1)).reverse.find? p = some m := by
  induction n with
  | zero =>
    obtain rfl : m = 0 := by omega
    simp [range_succ, hp]
  | succ n ih =>
    rw [range_succ, reverse_append, reverse_singleton, singleton_append,
      find?_cons]
    by_cases heq : m = n + 1
    · subst heq
      rw [hp]
    · rw [hnone (n + 1) (by omega) le_rfl]
      exact ih (by omega) fun i hlt hle => hnone i hlt (by omega)

section Rows

omit [DecidableEq D]

variable {plan : CanonicalStoreBuildPlan} {earlier : List SubtreeRootArtifact} {chain : Chain E}
  {db : Db D}

theorem mem_blockRows_checkpoint {b : CanonicalBuildBlock E} {x : Nat × CommitmentTreeFrontiers} :
    (⟨.treeStateCheckpoint b.height, x⟩ : Row (Val D)) ∈ blockRows b ↔
      b.treeStateCheckpoint.map (fun c => (c.blockTimeSeconds, c.frontiers)) = some x := by
  simp [blockRows, blockBlobRows, checkpointRows, finalRootsRows, mem_optionalRow, locationRow,
    transactionBlobRow]

theorem HoldsChain.lookup_treeState (h : HoldsChain plan earlier chain db) {v : VisibleBlock E}
    (hv : v ∈ chain) : db.lookup (Key.treeStateCheckpoint v.block.height) =
      v.block.treeStateCheckpoint.map fun c => (c.blockTimeSeconds, c.frontiers) := by
  refine Option.ext fun x => ?_
  rw [h.lookup_eq_some_iff hv rfl]
  exact mem_blockRows_checkpoint

end Rows

section Rewind

variable {st : LiveState E} {k : Nat} {base tail : Chain E} {frontiers : CommitmentTreeFrontiers}

omit [DecidableEq D] in
theorem LiveInvariant.checkpointAtOrBefore (inv : LiveInvariant st k) {rest : Chain E}
    (hchain : st.chain = base ++ tail ++ rest)
    (htail : ∀ v ∈ tail, v.block.treeStateCheckpoint = none)
    (hstored : storedTrees st.store.buildPlan base = some frontiers) :
    ∃ seconds, treeStateCheckpointAtOrBefore st.store (tipId st.start (base ++ tail)).height =
      .ok (some ⟨tipId st.start base, seconds, frontiers⟩) := by
  have hlinked : Linked st.start (base ++ tail ++ rest) := hchain ▸ inv.linked
  have hkept := (linked_append.mp hlinked).1
  have hbase := (linked_append.mp hkept).1
  have hheight : (tipId st.start (base ++ tail)).height =
      st.start.height + base.length + tail.length := by
    rw [hkept.tipId_height, length_append]
    omega
  have hbaseHeight := hbase.tipId_height
  -- no block above the base has a checkpoint row
  have hnone : ∀ i, st.start.height + base.length < i →
      i ≤ st.start.height + base.length + tail.length →
      (st.store.db.lookup (Key.treeStateCheckpoint i)).isSome = false := by
    intro i hlt hle
    obtain ⟨j, rfl⟩ := Nat.exists_eq_add_of_lt hlt
    have hj : tail[j]? = some tail[j] := getElem?_eq_getElem (by omega)
    have hget : st.chain[base.length + j]? = some tail[j] := by
      rw [hchain, append_assoc, getElem?_append_right (by omega),
        getElem?_append_left (by omega)]
      rw [← hj]
      congr 1
      omega
    have hv : tail[j] ∈ st.chain := mem_of_getElem? hget
    have hkey : st.start.height + base.length + j + 1 = tail[j].block.height := by
      rw [inv.linked.height_of_getElem? hget]
      omega
    rw [hkey, inv.holds.lookup_treeState hv, htail _ (getElem_mem _)]
    rfl
  rw [hheight]
  simp only [treeStateCheckpointAtOrBefore, checkpointHeightAtOrBefore]
  rcases eq_nil_or_concat base with rfl | ⟨init, v, rfl⟩
  · -- the history predecessor
    have hpre : st.store.db.lookup (Key.treeStateCheckpoint st.start.height) =
        some (st.store.buildPlan.historyPredecessor.blockTimeSeconds,
          st.store.buildPlan.historyPredecessor.frontiers) := inv.holds.lookup_predecessor.1
    have hfind := find?_reverse_range
      (p := fun h => (st.store.db.lookup (Key.treeStateCheckpoint h)).isSome)
      (m := st.start.height) (n := st.start.height + tail.length) (by omega)
      (by simp only [hpre]; rfl)
      (fun i hlt hle => hnone i (by simpa using hlt) (by simpa using hle))
    simp only [length_nil, Nat.add_zero]
    rw [hfind]
    simp only [storedTrees, getLast?_nil, Option.some.injEq] at hstored
    refine ⟨st.store.buildPlan.historyPredecessor.blockTimeSeconds, ?_⟩
    have hstart : st.start.height = st.store.buildPlan.historyPredecessor.blockId.height := rfl
    simp only [hpre, okOr_some, ok_bind]
    rw [if_pos hstart, rejectIf_of_not (by simp), ← hstored]
    rfl
  · rw [concat_eq_append] at hchain hstored hbaseHeight hnone ⊢
    have hv : v ∈ st.chain := by
      rw [hchain]
      simp
    have hvHeight : v.block.height = st.start.height + (init ++ [v]).length := by
      rw [← hbaseHeight, tipId_concat]
      rfl
    simp only [storedTrees, getLast?_concat, Option.map_eq_some_iff] at hstored
    obtain ⟨checkpoint, hc, rfl⟩ := hstored
    have hrow := inv.holds.lookup_treeState hv
    rw [hc, Option.map_some, hvHeight] at hrow
    have hheader := inv.holds.lookup_header hv
    rw [hvHeight] at hheader
    have hfind := find?_reverse_range
      (p := fun h => (st.store.db.lookup (Key.treeStateCheckpoint h)).isSome)
      (m := st.start.height + (init ++ [v]).length)
      (n := st.start.height + (init ++ [v]).length + tail.length) (by omega)
      (by simp only [hrow]; rfl) hnone
    rw [hfind]
    have hne : st.start.height + (init ++ [v]).length ≠
        st.store.buildPlan.historyPredecessor.blockId.height := by
      simp [LiveState.start]
    refine ⟨checkpoint.blockTimeSeconds, ?_⟩
    simp only [hrow, okOr_some, ok_bind]
    rw [if_neg hne, hheader, tipId_concat]
    simp only [okOr_some, ok_bind]
    rw [← hvHeight]
    rfl

omit [DecidableEq D] in
theorem HoldsChain.rewind_loop {plan : CanonicalStoreBuildPlan}
    {earlier : List SubtreeRootArtifact} {chain : Chain E} {db : Db D}
    (h : HoldsChain plan earlier chain db) {tail : Chain E} (hmem : ∀ v ∈ tail, v ∈ chain)
    {seeded accumulator : CommitmentTreeAccumulator E.trees}
    (hloop : loop (fun accumulator (v : VisibleBlock E) =>
      appendCompactCommitments accumulator v.block.height v.block.compactBlock) seeded tail =
        .ok accumulator) :
    loop (rewindStep E db) seeded (tail.map fun v => v.block.height) = .ok accumulator := by
  induction tail generalizing seeded with
  | nil => exact hloop
  | cons v tail ih =>
    obtain ⟨next, hstep, hrest⟩ := loop_cons_eq_ok.mp hloop
    have hv := hmem v mem_cons_self
    refine loop_cons_eq_ok.mpr ⟨next, ?_, ih (fun w hw => hmem w (mem_cons_of_mem _ hw)) hrest⟩
    simp only [rewindStep, h.lookup_compact hv, okOr_some, ok_bind]
    rw [rejectIf_of_not (not_not.mpr (h.admitted v hv).compact_height)]
    exact hstep

omit [DecidableEq D] in
theorem validateBlock_time [DecidableEq D] {w : CanonicalStoreWorkload} {r : RawBlobRetention}
    {b : CanonicalBuildBlock E} {tip : Nat} (h : validateBlock w r b tip = .ok ()) :
    u32OfInt b.facts.blockHeader.blockTime = some b.compactBlock.time := by
  simp only [validateBlock, bind_eq_ok, Unique.exists_iff, validateCompactBlockPayload, rejectIf_eq_ok,
    not_or, not_not] at h
  obtain ⟨_, _, ⟨⟨_, _, _, htime, _⟩, _⟩, _⟩ := h
  exact htime

theorem StoreReady.checkpointAt_ok (ready : StoreReady st) (inv : LiveInvariant st k) {n : Nat}
    {activations : NetworkUpgradeActivations}
    (h : Rewinds st.store.buildPlan activations (st.chain.take n)) :
    ∃ checkpoint, checkpointAt E st.store (tipId st.start (st.chain.take n)) activations =
      .ok checkpoint := by
  obtain ⟨base, tail, frontiers, hkept, htail, hstored, htrees⟩ := h
  have hchain : st.chain = base ++ tail ++ st.chain.drop n := by
    rw [← hkept, take_append_drop]
  obtain ⟨seconds, hfound⟩ := inv.checkpointAtOrBefore hchain htail hstored
  have hlinked : Linked st.start (base ++ tail ++ st.chain.drop n) := hchain ▸ inv.linked
  obtain ⟨hbase, htailLinked⟩ := linked_append.mp (linked_append.mp hlinked).1
  have hheight : (tipId st.start (base ++ tail)).height =
      (tipId st.start base).height + tail.length := by
    rw [tipId_append, htailLinked.tipId_height]
  rw [hkept]
  simp only [checkpointAt, bind_eq_ok, okOr_eq_ok, hfound]
  rcases eq_nil_or_concat tail with rfl | ⟨init, v, rfl⟩
  · refine ⟨⟨tipId st.start base, seconds, frontiers⟩, _, rfl, _, rfl, ?_⟩
    rw [append_nil, if_pos rfl, rejectIf_of_not (by simp)]
    rfl
  · rw [concat_eq_append] at *
    have hmem : ∀ w ∈ init ++ [v], w ∈ st.chain := by
      intro w hw
      rw [hchain]
      exact mem_append_left _ (mem_append_right _ hw)
    have hv := hmem v (by simp)
    obtain ⟨tip, hvalid⟩ := ready.valid v hv
    obtain ⟨seeded, accumulator, snapshot, hseeded, hloop, hsnapshot⟩ := htrees (by simp)
    have htarget : tipId st.start (base ++ (init ++ [v])) = v.block.blockId := by
      rw [← append_assoc, tipId_concat]
    have hheights : (init ++ [v]).map (fun w => w.block.height) =
        List.range' ((tipId st.start base).height + 1)
          ((tipId st.start (base ++ (init ++ [v]))).height - (tipId st.start base).height) := by
      have := htailLinked.drop_heights 0
      rw [drop_zero] at this
      rw [this, hheight]
      simp only [BlockHeightRange.heights, Nat.add_zero]
      congr 1
      omega
    have hrewound := inv.holds.rewind_loop hmem hloop
    rw [hheights] at hrewound
    have hne : (tipId st.start base).height ≠
        (tipId st.start (base ++ (init ++ [v]))).height := by
      rw [hheight]
      simp
    refine ⟨⟨tipId st.start (base ++ (init ++ [v])), v.block.compactBlock.time, snapshot.1⟩,
      _, rfl, _, rfl, ?_⟩
    rw [if_neg hne]
    simp only [bind_eq_ok, mapError_ok_iff, okOr_eq_ok, rejectIf_eq_ok, not_not]
    refine ⟨seeded, hseeded, accumulator, hrewound, v.block.facts.blockHeader, ?_, (), ?_, _, ?_,
      snapshot, hsnapshot, rfl⟩
    · rw [htarget]
      exact inv.holds.lookup_header hv
    · rw [htarget]
      rfl
    · exact validateBlock_time hvalid

end Rewind

/-! ## The evidence of reachable states -/

section Evidence

variable {st₀ st st' : LiveState E} {k : Nat}

theorem LiveStep.sequence_confirmed (step : LiveStep st st') :
    validateReadySequenceCheckpoint E st'.store.db st'.store.buildPlan st'.store.readyEvidence =
      .ok () := by
  cases step with
  | append h =>
    simp only [commitLiveAppend, bind_eq_ok, mapError_ok_iff, validateLiveCommitReadback,
      Unique.exists_iff] at h
    obtain ⟨_, _, ⟨_, _, _, hready⟩, h⟩ := h
    cases h
    exact hready
  | replacement _ h =>
    simp only [commitLiveReplacement, bind_eq_ok, mapError_ok_iff,
      PreparedLiveReplacement.validateReadback, Unique.exists_iff] at h
    obtain ⟨_, _, ⟨_, _, _, _, _, hready⟩, h⟩ := h
    cases h
    exact hready

/-- Every transition reads its sequence checkpoint back, so a reachable store passes the check. -/
theorem Published.run_sequence_confirmed (h : Published st₀) (run : ReflTransGen LiveStep st₀ st) :
    validateReadySequenceCheckpoint E st.store.db st.store.buildPlan st.store.readyEvidence =
      .ok () := by
  cases run with
  | refl =>
    obtain ⟨_, h⟩ := h
    obtain ⟨_, _, _, _, _, steps⟩ := publishBaseline_steps h
    exact steps.confirmed
  | tail _ step => exact step.sequence_confirmed

theorem resumeStep_bytes_lt {db : Db D} {c c' : CanonicalSequenceCheckpoint D} {height : Nat}
    (h : resumeStep E db c height = .ok c') : c'.logicalReplayBytes < u64Bound := by
  simp only [resumeStep, bind_eq_ok, okOr_eq_ok, checkedAdd_eq_some, Unique.exists_iff] at h
  obtain ⟨_, _, _, _, _, _, _, _, ⟨hlt, rfl⟩, h⟩ := h
  cases h
  exact hlt

theorem LiveInvariant.replayTotal_lt (inv : LiveInvariant st k)
    (hready : validateReadySequenceCheckpoint E st.store.db st.store.buildPlan
      st.store.readyEvidence = .ok ()) (hlt : k < st.chain.length) :
    replayTotal st.chain < u64Bound := by
  simp only [validateReadySequenceCheckpoint, bind_eq_ok, rejectIf_eq_ok, not_not,
    resumePersistedSequenceCheckpoint, okOr_eq_ok, checkedSub_eq_some, Unique.exists_iff] at hready
  obtain ⟨epoch, _, _, lag, _, _, resumed, ⟨_, ⟨_, rfl⟩, _, hloop⟩, heq⟩ := hready
  have hthrough := inv.settled_height
  have htip := inv.tip_height
  have hcount : st.store.readyEvidence.visibleTip.height -
      st.store.readyEvidence.sequenceCheckpoint.through.height = st.chain.length - k - 1 + 1 := by
    omega
  rw [hcount, range'_concat, loop_append_eq_ok] at hloop
  obtain ⟨mid, _, hlast⟩ := hloop
  obtain ⟨final, hstep, hend⟩ := loop_cons_eq_ok.mp hlast
  cases hend
  have hbytes := resumeStep_bytes_lt hstep
  have htotal : st.store.readyEvidence.visibleLogicalReplayBytes = replayTotal st.chain :=
    congrArg CanonicalSequenceCheckpoint.logicalReplayBytes inv.visible
  rw [heq] at hbytes
  simp only at hbytes
  rwa [htotal] at hbytes

end Evidence

/-! ## Runs of displaceable blocks -/

def LiveState.settledTip (st : LiveState E) : BlockId :=
  st.store.readyEvidence.sequenceCheckpoint.through

def LiveState.unsettled (st : LiveState E) : Chain E :=
  st.chain.filter fun v => st.settledTip.height < v.block.height

/-- Every suffix above the settled tip can be displaced. -/
structure Displaceable (activations : NetworkUpgradeActivations) (st : LiveState E) : Prop where
  archivable : ∀ v ∈ st.unsettled, Archivable v
  hashes : (st.unsettled.map fun v => v.block.hash).Nodup
  trees : ∀ n, st.settledTip.height ≤ st.start.height + n → n ≤ st.chain.length →
    Rewinds st.store.buildPlan activations (st.chain.take n)

/-- A transition whose new blocks meet what displacement asks of them: the replay envelope encodes
the block's facts, the first transaction is the only coinbase, the encoded sizes fit the archive, and
no two unsettled blocks share a hash. -/
structure DisplaceableStep (st st' : LiveState E) : Prop where
  step : LiveStep st st'
  archivable : ∀ v ∈ st'.chain, v ∈ st.chain ∨ Archivable v
  hashes : (st'.unsettled.map fun v => v.block.hash).Nodup

section Runs

variable {st₀ st st' : LiveState E} {k : Nat} {activations : NetworkUpgradeActivations}

/-- A transition keeps a prefix of the chain, and each new block comes with its tree state. -/
theorem LiveStep.new_blocks (step : LiveStep st st') (inv : LiveInvariant st k) :
    ∃ m new, st'.chain = st.chain.take m ++ new ∧
      ∀ v ∈ new, v.block.treeStateCheckpoint.isSome = true := by
  cases step with
  | @append a _ _ _ h =>
    refine ⟨st.chain.length, [a.visible], by simp, fun v hv => ?_⟩
    rw [mem_singleton.mp hv]
    obtain ⟨checkpoint, hc, _⟩ := validateLiveBlock_checkpoint (commitLiveAppend_valid h)
    exact Option.isSome_iff_exists.mpr ⟨checkpoint, hc⟩
  | @replacement r _ _ _ _ hfirst h =>
    obtain ⟨n, _, _, _, _, hreplaced⟩ := inv.replacedSuffix hfirst h
    refine ⟨n, r.chain, by rw [hreplaced.kept], fun v hv => ?_⟩
    obtain ⟨checkpoint, hc, _⟩ :=
      validateLiveBlock_checkpoint (commitLiveReplacement_valid h v hv)
    exact Option.isSome_iff_exists.mpr ⟨checkpoint, hc⟩

theorem DisplaceableStep.preserves (step : DisplaceableStep st st') (inv : LiveInvariant st k)
    (h : Displaceable activations st) : Displaceable activations st' := by
  obtain ⟨k', hk, inv', _⟩ := step.step.preserves inv
  have hplan := step.step.buildPlan_eq
  have hstart : st'.start = st.start := by rw [LiveState.start, hplan, LiveState.start]
  have hle : st.settledTip.height ≤ st'.settledTip.height := by
    have hbefore := inv.settled_height
    have hafter := inv'.settled_height
    rw [hstart] at hafter
    simp only [LiveState.settledTip]
    omega
  refine ⟨fun v hv => ?_, step.hashes, fun n hsettled hn => ?_⟩
  · obtain ⟨hmem, hlt⟩ := mem_filter.mp hv
    rcases step.archivable v hmem with hold | hnew
    · refine h.archivable v (mem_filter.mpr ⟨hold, ?_⟩)
      simp only [decide_eq_true_eq] at hlt ⊢
      omega
    · exact hnew
  · obtain ⟨m, new, hchain, hnew⟩ := step.step.new_blocks inv
    rw [hplan, hchain, take_append, take_take]
    rw [hstart] at hsettled
    have hlength : (st.chain.take m).length = min m st.chain.length := length_take
    rcases eq_nil_or_concat (new.take (n - (st.chain.take m).length)) with hnil | ⟨init, v, hc⟩
    · -- nothing of the new suffix is kept
      have hkept : n ≤ (st.chain.take m).length := by
        rw [take_eq_nil_iff] at hnil
        rcases hnil with hzero | hempty
        · omega
        · rw [hchain, hempty, append_nil] at hn
          exact hn
      rw [hnil, append_nil, Nat.min_eq_left (by omega)]
      exact h.trees n (by omega) (by omega)
    · rw [hc, concat_eq_append, ← append_assoc]
      refine Rewinds.concat (hnew v (mem_of_mem_take (i := n - (st.chain.take m).length) ?_))
      rw [hc, concat_eq_append]
      simp

theorem displaceable_run (h : Published st₀) (hloaded : Displaceable activations st₀)
    (run : ReflTransGen DisplaceableStep st₀ st) :
    ReflTransGen LiveStep st₀ st ∧ Displaceable activations st := by
  induction run with
  | refl => exact ⟨.refl, hloaded⟩
  | tail _ step ih =>
    obtain ⟨hrun, hdisplaceable⟩ := ih
    obtain ⟨k, inv⟩ := h.run_invariant hrun
    exact ⟨hrun.tail step.step, step.preserves inv hdisplaceable⟩

omit [DecidableEq D] in
theorem LiveInvariant.drop_unsettled (inv : LiveInvariant st k) {n : Nat}
    (hn : st.settledTip.height ≤ st.start.height + n) :
    (st.chain.drop n).Sublist st.unsettled := by
  have habove : ∀ v ∈ st.chain.drop n, st.settledTip.height < v.block.height := by
    intro v hv
    obtain ⟨i, hi⟩ := mem_iff_getElem?.mp hv
    rw [getElem?_drop] at hi
    have hheight := inv.linked.height_of_getElem? hi
    omega
  have hself : (st.chain.drop n).filter (fun v => st.settledTip.height < v.block.height) =
      st.chain.drop n := filter_eq_self.mpr fun v hv => decide_eq_true (habove v hv)
  rw [← hself]
  exact (drop_sublist n st.chain).filter _

/-- Every accepted block can be displaced where the blocks meet what the displacement path asks. The
baseline's unsettled blocks and the blocks of every later transition have replay envelopes that encode
their own facts, their first transaction as the only coinbase, sizes the archive can record and hashes
of their own; the compact blocks of the baseline extend its tree states. Then in every state reached, a replacement above the settled tip
that brings what it must is committed. -/
theorem accepted_blocks_displaceable (h : Published st₀)
    (hloaded : Displaceable activations st₀) (run : ReflTransGen DisplaceableStep st₀ st)
    {r : CanonicalLiveReplacement E} {n : Nat} (hasked : ReplacementAsked st r activations n) :
    ∃ s' fence, commitLiveReplacement st.store r activations = .ok (s', fence) := by
  obtain ⟨hrun, hdisplaceable⟩ := displaceable_run h hloaded run
  obtain ⟨k, inv⟩ := h.run_invariant hrun
  have ready := h.run_ready hrun
  have hk : k ≤ n := by
    have hthrough := inv.settled_height
    have hsettled := hasked.settled_le
    omega
  have hbytes := inv.replayTotal_lt (h.run_sequence_confirmed hrun) (hk.trans_lt hasked.lt_length)
  have hsuffix := inv.drop_unsettled hasked.settled_le
  exact hasked.commit_ok inv ready hbytes
    (ready.checkpointAt_ok inv (hdisplaceable.trees n hasked.settled_le hasked.lt_length.le))
    (fun v hv => hdisplaceable.archivable v (hsuffix.subset hv))
    (hdisplaceable.hashes.sublist (hsuffix.map _))

/-! ### A block without a coinbase -/

def replacementAsked (st : LiveState E) (r : CanonicalLiveReplacement E)
    (activations : NetworkUpgradeActivations) (n : Nat) : Bool :=
  activations.network = st.store.buildPlan.network &&
  activations.fingerprint = st.store.buildPlan.networkUpgradeActivationsFingerprint &&
  r.expectedFence = st.store.eventFence &&
  st.settledTip.height ≤ st.start.height + n && n < st.chain.length &&
  st.chain.length - n ≤ st.store.window && !r.blocks.isEmpty &&
  (validateReplacementBlocks st.store r.blocks (tipId st.start (st.chain.take n)) st.settledTip
    activations).isOk &&
  (readPersistedTipMetadata st.store.db (tipId st.start (st.chain.take n)) >>= fun sizes =>
    prepareReplacementRows sizes r.blocks).isOk &&
  st.start.height + n + r.blocks.length ≤ st.settledTip.height + st.store.window &&
  st.store.readyEvidence.visibleEpoch + 1 < u64Bound &&
  replayTotal (st.chain.take n ++ r.chain) < u64Bound &&
  (st.store.db.lookup Key.displacedState).all (fun state : ArchiveState =>
    state.blockCount + (st.chain.length - n) < u64Bound) &&
  (r.chain.map fun v => v.block.hash).Nodup && (r.chain.flatMap fun v => v.block.transactionIds).Nodup

theorem ReplacementAsked.of_computed {r : CanonicalLiveReplacement E} {n : Nat}
    (h : replacementAsked st r activations n = true) : ReplacementAsked st r activations n := by
  simp only [replacementAsked, Bool.and_eq_true, decide_eq_true_eq, isOk_eq_true, bind_eq_ok,
    Bool.not_eq_true', isEmpty_eq_false_iff, Option.all_eq_true, and_assoc] at h
  obtain ⟨hnetwork, hfingerprint, hfence, hsettled, hlt, hdisplaced, hblocks, ⟨_, hvalid⟩,
    ⟨rows, sizes, hsizes, hrows⟩, hlag, hepoch, hbytes, harchived, hhashes, hids⟩ := h
  exact ⟨hnetwork, hfingerprint, hfence, hsettled, hlt, hdisplaced, hblocks, fun _ => hvalid,
    ⟨sizes, rows, hsizes, hrows⟩, hlag, hepoch, hbytes, harchived, ⟨hhashes, hids⟩⟩

def appendedStates (b : CanonicalBaseline E) (block : CanonicalBuildBlock E) :
    Option (LiveState E × LiveState E) :=
  (publishedState b).bind fun st =>
    (st.perform sampleActivations (.append block [] b.settledTip 0)).map fun performed =>
      (st, performed.1)

theorem appendedStates_eq_some {b : CanonicalBaseline E} {block : CanonicalBuildBlock E}
    (h : appendedStates b block = some (st₀, st)) :
    Published st₀ ∧ LiveStep st₀ st ∧ st₀.chain.map VisibleBlock.block = b.blocks ∧
      st.chain.map VisibleBlock.block = b.blocks ++ [block] := by
  simp only [appendedStates, LiveState.perform, Option.bind_eq_some_iff,
    Option.map_eq_some_iff, Prod.mk.injEq] at h
  obtain ⟨st₀, hpublished, _, ⟨committed, hcommit, rfl⟩, rfl, rfl⟩ := h
  have hblocks : st₀.chain.map VisibleBlock.block = b.blocks := by
    simp only [publishedState, Option.bind_eq_some_iff, Option.map_eq_some_iff] at hpublished
    obtain ⟨_, _, _, _, rfl⟩ := hpublished
    exact attachRoots_blocks _ _ _
  refine ⟨publishedState_published hpublished, .append (toOption_eq_some.mp hcommit), hblocks, ?_⟩
  rw [map_append, hblocks]
  rfl

def noCoinbaseFacts : CanonicalBlockFacts := { plainFacts 2 2 1 12 with transactions := [] }

noncomputable def noCoinbaseEnv : Env Nat :=
  ⟨listedFactsHash [plainFacts 1 1 0 11, noCoinbaseFacts, plainFacts 2 3 1 13],
    listedReplayCodec [plainFacts 1 1 0 11, noCoinbaseFacts, plainFacts 2 3 1 13] (listedRecords 3),
    plainTrees⟩

noncomputable def noCoinbaseBaseline : CanonicalBaseline noCoinbaseEnv where
  workload := .wallet
  plan := sampleBaseline.plan
  blocks := [plainBlock noCoinbaseEnv (plainFacts 1 1 0 11)]
  roots := .retainedRange []
  sourceTipCheckpoint := ⟨⟨1, repeatedByte 1⟩, 0, .absent⟩
  settledTip := ⟨1, repeatedByte 1⟩
  createdAt := 0

noncomputable def noCoinbaseReplacement (st : LiveState noCoinbaseEnv) :
    CanonicalLiveReplacement noCoinbaseEnv :=
  ⟨st.store.eventFence, [⟨plainBlock noCoinbaseEnv (plainFacts 2 3 1 13), []⟩], 10⟩

/-- A block without transactions passes admission; the replacement of it is then refused by the
archive, although the new block passes every check. -/
theorem no_coinbase_not_displaceable : ∃ st₀ st : LiveState noCoinbaseEnv,
    Published st₀ ∧ ReflTransGen LiveStep st₀ st ∧
      ∃ r, ReplacementAsked st r sampleActivations 1 ∧
        commitLiveReplacement st.store r sampleActivations = .error (.displacedArchive
          "displaced canonical replay has no coinbase transaction") := by
  have hrun : (appendedStates noCoinbaseBaseline (plainBlock noCoinbaseEnv noCoinbaseFacts)).map
      (fun sts => (replacementAsked sts.2 (noCoinbaseReplacement sts.2) sampleActivations 1,
        match commitLiveReplacement sts.2.store (noCoinbaseReplacement sts.2) sampleActivations with
        | .ok _ => none
        | .error e => some e)) =
      some (true, some (.displacedArchive
        "displaced canonical replay has no coinbase transaction")) := by
    decide +kernel
  obtain ⟨⟨st₀, st⟩, hstates, heq⟩ := Option.map_eq_some_iff.mp hrun
  obtain ⟨hasked, hrefused⟩ := Prod.mk.inj heq
  obtain ⟨hpublished, step, _⟩ := appendedStates_eq_some hstates
  refine ⟨st₀, st, hpublished, .single step, noCoinbaseReplacement st, .of_computed hasked, ?_⟩
  cases hcommit : commitLiveReplacement st.store (noCoinbaseReplacement st) sampleActivations with
  | ok _ => simp [hcommit] at hrefused
  | error e => simpa [hcommit] using hrefused

/-- The sample baseline with block 2 appended, whose replacement is then committed. -/
theorem accepted_blocks_displaceable_sample : ∃ st₀ st : LiveState sampleEnv,
    Published st₀ ∧ Displaceable sampleActivations st₀ ∧ DisplaceableStep st₀ st ∧
      ReplacementAsked st (sampleReplacement st.store) sampleActivations 1 ∧
      ∃ s' fence, commitLiveReplacement st.store (sampleReplacement st.store) sampleActivations =
        .ok (s', fence) := by
  have hrun : (appendedStates sampleBaseline
      (plainBlock sampleEnv (plainFacts 2 2 1 12))).map (fun sts =>
        (sts.1.settledTip.height, sts.1.start.height,
          decide (∀ v ∈ sts.2.chain, v.block.replayBytes < u32Bound),
          decide (sts.2.unsettled.map fun v => v.block.hash).Nodup,
          replacementAsked sts.2 (sampleReplacement sts.2.store) sampleActivations 1)) =
      some (1, 0, true, true, true) := by
    decide +kernel
  obtain ⟨⟨st₀, st⟩, hstates, heq⟩ := Option.map_eq_some_iff.mp hrun
  simp only [Prod.mk.injEq, decide_eq_true_eq] at heq
  obtain ⟨hsettled, hstart, hbytes, hhashes, hasked⟩ := heq
  obtain ⟨hpublished, step, hloaded, hblocks⟩ := appendedStates_eq_some hstates
  obtain ⟨first, hfirst, hblock⟩ : ∃ first, st₀.chain = [first] ∧
      first.block = plainBlock sampleEnv (plainFacts 1 1 0 11) :=
    map_eq_singleton_iff.mp hloaded
  have hunsettled : st₀.unsettled = [] := by
    rw [LiveState.unsettled, hsettled, hfirst, filter_singleton, hblock]
    rfl
  have hdisplaceable : Displaceable sampleActivations st₀ := by
    refine ⟨by simp [hunsettled], by simp [hunsettled], fun n hle hn => ?_⟩
    obtain rfl : n = 1 := by
      rw [hfirst, length_singleton] at hn
      omega
    rw [hfirst]
    have hchain : [first].take 1 = [] ++ [first] := rfl
    rw [hchain]
    exact Rewinds.concat (by rw [hblock]; rfl)
  have hstep : DisplaceableStep st₀ st := by
    refine ⟨step, fun v hv => .inr ?_, hhashes⟩
    have hmem : v.block ∈ sampleBaseline.blocks ++ [plainBlock sampleEnv (plainFacts 2 2 1 12)] :=
      hblocks ▸ mem_map_of_mem hv
    simp only [sampleBaseline, singleton_append, mem_cons, not_mem_nil,
      or_false] at hmem
    rcases hmem with hv₁ | hv₂
    · exact plainBlock_archivable hv₁ (hbytes v hv)
    · exact plainBlock_archivable hv₂ (hbytes v hv)
  have hask := ReplacementAsked.of_computed hasked
  exact ⟨st₀, st, hpublished, hdisplaceable, hstep, hask, accepted_blocks_displaceable
    hpublished hdisplaceable (.single hstep) hask⟩

end Runs

end Zinder.Canonical
