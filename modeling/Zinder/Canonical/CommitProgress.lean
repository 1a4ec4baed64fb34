import Zinder.Canonical.BlockFamilies
import Zinder.Canonical.StoreReady

/-!
# Zinder.Canonical.CommitProgress

When a live transition succeeds. `Follows` is what a store asks of one block and of the tree state
before it; `commitLiveAppend_ok` and `commitLiveReplacement_ok` say that a proposal of such blocks,
within the settlement window and with room in the counters, is committed.
-/

namespace Zinder.Canonical

open KeyValue List

variable {D : Type} [DecidableEq D] {E : Env D}

/-! ## Sequence summaries -/

def replayTotal (chain : Chain E) : Nat := (chain.map fun v => v.block.replayBytes).sum

omit [DecidableEq D] in
theorem replayTotal_append (a b : Chain E) :
    replayTotal (a ++ b) = replayTotal a + replayTotal b := by
  simp [replayTotal]

omit [DecidableEq D] in
theorem replayTotal_take_le (chain : Chain E) (n : Nat) :
    replayTotal (chain.take n) ≤ replayTotal chain := by
  have := replayTotal_append (chain.take n) (chain.drop n)
  rw [take_append_drop] at this
  omega

omit [DecidableEq D] in
theorem CanonicalBuildBlock.height_lt (b : CanonicalBuildBlock E) : b.height < u32Bound :=
  b.facts.blockHeader.height.isLt

variable {activations : NetworkUpgradeActivations} {k : Nat} {chain : Chain E}
  {a : CanonicalLiveAppend E} {st : LiveState E}

omit [DecidableEq D] in
theorem Linked.length_lt {start : BlockId} (h : Linked start chain) : chain.length < u32Bound := by
  rcases eq_nil_or_concat chain with rfl | ⟨init, v, rfl⟩
  · simp [u32Bound]
  · have hheight := h.tipId_height
    rw [concat_eq_append, tipId_concat] at hheight
    have hlt := v.block.height_lt
    rw [CanonicalBuildBlock.blockId_height] at hheight
    simp only [concat_eq_append]
    omega

namespace HoldsChain

variable {plan : CanonicalStoreBuildPlan} {earlier : List SubtreeRootArtifact} {chain : Chain E}
  {db : Db D}

section

variable (h : HoldsChain plan earlier chain db) (hbytes : replayTotal chain < u64Bound)
include h hbytes

theorem resumeStep_ok {k : Nat} {v : VisibleBlock E} (hv : chain[k]? = some v) :
    resumeStep E db (sequenceSummary plan.historyPredecessor.blockId (chain.take k))
      v.block.height =
        .ok (sequenceSummary plan.historyPredecessor.blockId (chain.take (k + 1))) := by
  have hlt : k < chain.length := (List.getElem?_eq_some_iff.mp hv).1
  have hlength := h.linked.length_lt
  have hu : u32Bound < u64Bound := by decide
  have htotal := replayTotal_take_le chain (k + 1)
  have hsplit : replayTotal (chain.take (k + 1)) =
      replayTotal (chain.take k) + v.block.replayBytes := by
    rw [take_succ_eq hv, replayTotal_append]
    simp [replayTotal]
  have hparent : v.block.parentHash =
      (tipId plan.historyPredecessor.blockId (chain.take k)).hash := by
    have hdrop := h.linked.drop k
    have hcons : chain.drop k = v :: chain.drop (k + 1) := by
      obtain ⟨_, rfl⟩ := List.getElem?_eq_some_iff.mp hv
      exact drop_eq_getElem_cons hlt
    rw [hcons] at hdrop
    exact hdrop.2.1
  obtain ⟨facts, _, hhash, hfacts, _, hread⟩ := h.readPersistedReplay_eq_ok (mem_of_getElem? hv)
  simp only [resumeStep, bind_eq_ok, rejectIf_eq_ok, okOr_eq_ok, hread, not_not,
    CanonicalBlockFactsSequenceDigest.tryAppend_eq_some, checkedAdd_eq_some]
  have hcount : (sequenceSummary plan.historyPredecessor.blockId
      (chain.take k)).retainedBlockCount = k := by
    simp only [sequenceSummary, length_take]
    omega
  have hdigest : (sequenceSummary plan.historyPredecessor.blockId
      (chain.take k)).sequenceDigest.blockCount = k := by
    simp only [sequenceSummary, CanonicalBlockFactsSequenceDigest.blockCount_ofItems,
      length_map, length_take]
    omega
  refine ⟨_, ⟨by omega, rfl⟩, (), hfacts.trans hparent, _, ⟨by omega, rfl⟩, _, ⟨by omega, rfl⟩, _,
    ⟨?_, rfl⟩, ?_⟩
  · have : (sequenceSummary plan.historyPredecessor.blockId
        (chain.take k)).logicalReplayBytes = replayTotal (chain.take k) := rfl
    simp only [this]
    omega
  · rw [take_succ_eq hv, sequenceSummary_concat]
    simp only [hhash]
    rfl

theorem resume_ok
    {k m maximum : Nat} (hk : k ≤ m) (hm : m ≤ chain.length) (hmaximum : m - k ≤ maximum) :
    resumePersistedSequenceCheckpoint E db
      (sequenceSummary plan.historyPredecessor.blockId (chain.take k))
      (plan.historyPredecessor.blockId.height + m) maximum =
        .ok (sequenceSummary plan.historyPredecessor.blockId (chain.take m)) := by
  have hthrough : (sequenceSummary plan.historyPredecessor.blockId (chain.take k)).through.height =
      plan.historyPredecessor.blockId.height + k := h.linked.tipId_take_height (hk.trans hm)
  simp only [resumePersistedSequenceCheckpoint, hthrough, bind_eq_ok, okOr_eq_ok,
    checkedSub_eq_some, rejectIf_eq_ok, not_lt]
  refine ⟨m - k, ⟨by omega, by omega⟩, (), hmaximum, ?_⟩
  obtain ⟨n, rfl⟩ := Nat.exists_eq_add_of_le hk
  rw [Nat.add_sub_cancel_left]
  clear hthrough hmaximum hk
  induction n generalizing k with
  | zero => rfl
  | succ n ih =>
    have hlt : k < chain.length := by omega
    have hv : chain[k]? = some chain[k] := getElem?_eq_getElem hlt
    have hheight : plan.historyPredecessor.blockId.height + k + 1 = chain[k].block.height := by
      rw [h.linked.height_of_getElem? hv]
      omega
    rw [range'_succ, loop_cons_eq_ok]
    refine ⟨_, hheight ▸ h.resumeStep_ok hbytes hv, ?_⟩
    have hrest := ih (k := k + 1) (by omega)
    rwa [show k + 1 + n = k + (n + 1) by omega] at hrest

end

end HoldsChain

/-! ## Blocks that can follow a checkpoint -/

/-- `r` can be stored on top of the block `parent` is the tree state of, and `checkpoint` is the tree
state after it. -/
structure Follows (activations : NetworkUpgradeActivations) (workload : CanonicalStoreWorkload)
    (retention : RawBlobRetention) (parent : CommitmentTreeCheckpoint)
    (r : CanonicalReplacementBlock E) (checkpoint : CommitmentTreeCheckpoint) : Prop where
  valid : validateLiveBlock workload retention r.block = .ok ()
  height : r.block.height = parent.blockId.height + 1
  parentHash : r.block.parentHash = parent.blockId.hash
  checkpoint_eq : r.block.treeStateCheckpoint = some checkpoint
  trees : ∃ commitments seeded appended rooted,
    (∀ subject, compactCommitments subject r.block.height r.block.compactBlock =
      .ok commitments) ∧
    CommitmentTreeAccumulator.fromValidatedFrontiers E.trees parent.blockId.height
      parent.frontiers activations = .ok seeded ∧
    seeded.appendBlockCommitments r.block.height commitments.sapling commitments.orchard
      commitments.ironwood = .ok appended ∧
    appended.validatedFrontiers = .ok (checkpoint.frontiers, rooted) ∧
    rooted.tipMetadata = r.block.tipMetadata ∧
    CommitmentTreeAccumulator.fromValidatedFrontiers E.trees r.block.height checkpoint.frontiers
      activations = .ok rooted
  rows : fromBlock r.block parent.tipMetadata r.subtreeRoots = .ok r.visible.rows

def SuffixFollows (activations : NetworkUpgradeActivations) (workload : CanonicalStoreWorkload)
    (retention : RawBlobRetention) :
    CommitmentTreeCheckpoint → List (CanonicalReplacementBlock E) → Prop
  | _, [] => True
  | parent, r :: rest => ∃ checkpoint,
    Follows activations workload retention parent r checkpoint ∧
      SuffixFollows activations workload retention checkpoint rest

theorem validateLiveBlock_checkpoint {workload : CanonicalStoreWorkload}
    {retention : RawBlobRetention} {b : CanonicalBuildBlock E}
    (h : validateLiveBlock workload retention b = .ok ()) :
    ∃ checkpoint, b.treeStateCheckpoint = some checkpoint ∧ checkpoint.blockId = b.blockId ∧
      (checkpoint.blockTimeSeconds : Int) = b.facts.blockHeader.blockTime ∧
      checkpoint.tipMetadata = b.tipMetadata := by
  simp only [validateLiveBlock, validateBlock, bind_eq_ok, Unique.exists_iff] at h
  obtain ⟨_, _, _, _, _, hcheckpoint, _⟩ := h
  have hrequired : treeStateCheckpointRequired b.height b.height = true := by
    simp [treeStateCheckpointRequired]
  simp only [validateTreeStateCheckpoint, hrequired] at hcheckpoint
  cases hc : b.treeStateCheckpoint with
  | none => simp [hc] at hcheckpoint
  | some checkpoint =>
    simp only [hc, rejectIf_eq_ok, not_or, not_not] at hcheckpoint
    exact ⟨checkpoint, rfl, hcheckpoint⟩

namespace Follows

variable {activations : NetworkUpgradeActivations} {workload : CanonicalStoreWorkload}
  {retention : RawBlobRetention} {parent checkpoint : CommitmentTreeCheckpoint}
  {r : CanonicalReplacementBlock E}

theorem checkpoint_blockId (h : Follows activations workload retention parent r checkpoint) :
    checkpoint.blockId = r.block.blockId := by
  obtain ⟨c, hc, hid, _⟩ := validateLiveBlock_checkpoint h.valid
  rw [h.checkpoint_eq, Option.some.injEq] at hc
  rw [hc, hid]

theorem checkpoint_tipMetadata (h : Follows activations workload retention parent r checkpoint) :
    checkpoint.tipMetadata = r.block.tipMetadata := by
  obtain ⟨c, hc, _, _, hsizes⟩ := validateLiveBlock_checkpoint h.valid
  rw [h.checkpoint_eq, Option.some.injEq] at hc
  rw [hc, hsizes]

end Follows

/-! ## The anchor -/

omit [DecidableEq D] in
theorem HoldsChain.lookup_checkpoint {plan : CanonicalStoreBuildPlan}
    {earlier : List SubtreeRootArtifact} {db : Db D} (h : HoldsChain plan earlier chain db)
    {v : VisibleBlock E} (hv : v ∈ chain) {checkpoint : CommitmentTreeCheckpoint}
    (hc : v.block.treeStateCheckpoint = some checkpoint) :
    db.lookup (Key.treeStateCheckpoint v.block.height) =
      some (checkpoint.blockTimeSeconds, checkpoint.frontiers) :=
  h.lookup_row hv
    (r := ⟨.treeStateCheckpoint v.block.height,
      (checkpoint.blockTimeSeconds, checkpoint.frontiers)⟩)
    (by simp [blockRows, checkpointRows, hc, optionalRow]) rfl

omit [DecidableEq D] in
theorem LiveInvariant.exists_tip (inv : LiveInvariant st k) :
    ∃ v, st.chain.getLast? = some v ∧ v ∈ st.chain ∧
      st.store.readyEvidence.visibleTip = v.block.blockId := by
  rcases eq_nil_or_concat st.chain with hnil | ⟨init, v, hconcat⟩
  · have hk := inv.settled_le
    have hpos := inv.settled_pos
    rw [hnil, length_nil] at hk
    omega
  · rw [concat_eq_append] at hconcat
    refine ⟨v, by simp [hconcat], by simp [hconcat], ?_⟩
    rw [inv.tip_eq, hconcat, tipId_concat]

theorem StoreReady.appendAnchor_ok (ready : StoreReady st) (inv : LiveInvariant st k) :
    ∃ checkpoint, checkpoint.blockId = st.store.readyEvidence.visibleTip ∧
      (∀ v ∈ st.chain.getLast?, v.block.treeStateCheckpoint = some checkpoint) ∧
      st.store.appendAnchor =
        .ok ⟨st.store.eventFence, st.store.readyEvidence.sequenceCheckpoint.through, checkpoint⟩ := by
  obtain ⟨v, hlast, hv, htip⟩ := inv.exists_tip
  obtain ⟨checkpoint, hc, hid, _, hsizes⟩ := validateLiveBlock_checkpoint (ready.tip_valid v hlast)
  obtain ⟨epoch, hepoch, hvisible, hsettled⟩ := inv.epoch
  have hmetadata := inv.holds.readPersistedTipMetadata_eq hv
  refine ⟨checkpoint, hid.trans htip.symm, fun w hw => ?_, ?_⟩
  · cases hlast.symm.trans hw
    exact hc
  simp only [RocksDbCanonicalStore.appendAnchor, bind_eq_ok, readChainEpoch, okOr_eq_ok,
    rejectIf_eq_ok, not_not, readPersistedTipCheckpoint]
  refine ⟨epoch, hepoch, (), hvisible, checkpoint,
    ⟨(checkpoint.blockTimeSeconds, checkpoint.frontiers), ?_, ?_⟩, v.block.tipMetadata, ?_, (),
    hsizes, by rw [hsettled]⟩
  · rw [hvisible, htip]
    exact inv.holds.lookup_checkpoint hv hc
  · rw [hvisible, htip, ← hid]
  · rw [hvisible, htip]
    exact hmetadata

/-! ## Publication -/

theorem LiveInvariant.validateReadySequenceCheckpoint_ok (inv : LiveInvariant st k)
    (hbytes : replayTotal st.chain < u64Bound) :
    validateReadySequenceCheckpoint E st.store.db st.store.buildPlan st.store.readyEvidence =
      .ok () := by
  obtain ⟨epoch, hepoch, hvisible, hsettled⟩ := inv.epoch
  have htip := inv.tip_height
  have hthrough := inv.settled_height
  have hwindow := inv.window
  have hle := inv.settled_le
  simp only [validateReadySequenceCheckpoint, readChainEpoch, bind_eq_ok, okOr_eq_ok,
    rejectIf_eq_ok, not_or, not_not, checkedSub_eq_some, not_lt]
  refine ⟨epoch, hepoch, (), ⟨hvisible, hsettled⟩, _, ⟨by omega, rfl⟩, (), hwindow,
    sequenceSummary st.start st.chain, ?_, inv.visible.symm⟩
  have hlag : st.chain.length - k ≤ st.store.buildPlan.reorgWindowBlocks := by
    rw [htip, hthrough] at hwindow
    simp only [RocksDbCanonicalStore.window] at hwindow
    omega
  have hresume := inv.holds.resume_ok hbytes hle le_rfl hlag
  rw [take_length] at hresume
  rw [inv.settled, htip]
  exact hresume

omit [DecidableEq D] in
theorem LiveInvariant.validateEpochRecord_ok (inv : LiveInvariant st k) {firstHeight : Nat}
    (hfirst : firstHeight = st.start.height + 1) {epoch : ChainEpochRecord}
    (hvisible : epoch.visibleTip = st.store.readyEvidence.visibleTip)
    (hsettled : epoch.settledTip = st.store.readyEvidence.sequenceCheckpoint.through)
    (hsizes : readPersistedTipMetadata st.store.db st.store.readyEvidence.visibleTip =
      .ok epoch.tipMetadata) :
    validateEpochRecord st.store.db firstHeight st.store.readyEvidence.visibleTip epoch =
      .ok () := by
  have htip := inv.tip_height
  have hthrough := inv.settled_height
  have hle := inv.settled_le
  have hpos := inv.settled_pos
  obtain ⟨v, _, hv, hvtip⟩ := inv.exists_tip
  obtain ⟨w, _, hw, htake, _⟩ := inv.linked.exists_at hpos hle
  have hid : st.store.readyEvidence.sequenceCheckpoint.through = w.block.blockId := by
    rw [inv.settled]
    exact htake
  simp only [validateEpochRecord, bind_eq_ok, rejectIf_eq_ok, not_or, not_not, hvisible, hsettled]
  refine ⟨(), ⟨trivial, by omega, by omega⟩, v.block.hash, ?_, (), by rw [hvtip]; rfl,
    w.block.hash, ?_, (), by rw [hid]; rfl, _, hsizes, rfl⟩
  · rw [hvtip]
    exact inv.holds.retainedBlockHash_eq hv
  · rw [hid]
    exact inv.holds.retainedBlockHash_eq hw

/-! ## Reading a batch back -/

omit [DecidableEq D] in
theorem lookup_put {rows : List (Row (Val D))} {row : Row (Val D)} (hrow : row ∈ rows)
    (honce : rows.keys.count row.1 ≤ 1) (before : List (Op (Val D))) {after : List (Op (Val D))}
    (hafter : row.1 ∉ after.map Op.key) (db : Db D) :
    (write (before ++ rows.map Op.ofRow ++ after) db).lookup row.1 = some row.2 := by
  rw [write_append, write_append, lookup_write_of_untouched hafter, lookup_write_puts honce,
    dlookup_of_mem hrow honce]
  rfl

omit [DecidableEq D] in
theorem UniqueIds.count_rows_le_one {start : BlockId} {sizes : ChainTipMetadata}
    (h : UniqueIds chain) (hlinked : Linked start chain) (hroots : RootsLinked sizes chain)
    (hadmitted : ∀ v ∈ chain, Admitted v.block) (k : Key) :
    (chain.flatMap VisibleBlock.rows).keys.count k ≤ 1 := by
  rw [flatMap_keys]
  refine count_flatMap_le_one (fun v hv => ?_)
    ((h.apart hlinked hroots k).imp_of_mem fun {v w} hv hw hvw hkv hkw => ?_)
  · exact ((rows_keys_sublist (hadmitted v hv)).count_le k).trans
      (count_ownedKeys_le_one (h.nodup_transactionIds hv) (hroots.roots_nodup hv) k)
  · exact hvw ((rows_keys_sublist (hadmitted v hv)).subset hkv)
      ((rows_keys_sublist (hadmitted w hw)).subset hkw)

omit [DecidableEq D] in
theorem LivePublication.count_rows_le_one (p : LivePublication D) (k : Key) :
    p.rows.keys.count k ≤ 1 := by
  refine nodup_iff_count_le_one.mp ?_ k
  simp [p.rows_keys]

omit [DecidableEq D] in
theorem LivePublication.lookup_row (p : LivePublication D) (batch : List (Op (Val D))) (db : Db D)
    {row : Row (Val D)} (hrow : row ∈ p.rows) :
    (write (batch ++ p.rows.map Op.ofRow) db).lookup row.1 = some row.2 := by
  rw [← append_nil (batch ++ p.rows.map Op.ofRow)]
  exact lookup_put hrow (p.count_rows_le_one _) batch (by simp) db

/-! ## Appending -/

/-- An append that a state with `k` settled blocks can take: its block follows the tip, and it
settles the first `k'` blocks. -/
structure AppendEnabled (st : LiveState E) (k : Nat) (a : CanonicalLiveAppend E)
    (activations : NetworkUpgradeActivations) (k' : Nat) : Prop where
  network : activations.network = st.store.buildPlan.network
  fingerprint : activations.fingerprint =
    st.store.buildPlan.networkUpgradeActivationsFingerprint
  fence : a.expectedFence = st.store.eventFence
  follows : ∃ anchor next, st.store.appendAnchor = .ok anchor ∧
    Follows activations .wallet st.store.buildPlan.rawBlobRetention anchor.tipCheckpoint
      ⟨a.block, a.subtreeRoots⟩ next
  settled_le : k ≤ k'
  le_length : k' ≤ st.chain.length
  settled : a.settledTip = tipId st.start (st.chain.take k')
  advance_le : k' - k ≤ st.store.window
  lag_le : st.chain.length + 1 - k' ≤ st.store.window
  epoch_lt : st.store.readyEvidence.visibleEpoch + 1 < u64Bound
  bytes_lt : replayTotal (st.chain ++ [a.visible]) < u64Bound

namespace AppendEnabled

variable {k' : Nat}

section

variable (h : AppendEnabled st k a activations k') (inv : LiveInvariant st k)
include h inv

theorem settled_block :
    ∃ v ∈ st.chain, a.settledTip = v.block.blockId ∧ v.block.height = st.start.height + k' := by
  obtain ⟨v, _, hv, hid, hheight⟩ :=
    inv.linked.exists_at (inv.settled_pos.trans_le h.settled_le) h.le_length
  exact ⟨v, hv, h.settled.trans hid, hheight⟩

theorem settlement (ready : StoreReady st)
    (hheight : a.block.height = st.store.readyEvidence.visibleTip.height + 1) :
    SettlementSpec st.store.db st.store.readyEvidence
      ⟨st.store.window, st.store.readyEvidence.sequenceCheckpoint.through, a.settledTip,
        a.block.blockId⟩ := by
  obtain ⟨v, hv, hid, hsettled⟩ := h.settled_block inv
  have hpos := inv.settled_pos
  have hk := h.settled_le
  have hk' := h.le_length
  have hlag := h.lag_le
  have hadvance := h.advance_le
  have htip := inv.tip_height
  have hthrough := inv.settled_height
  have hfirst := ready.first
  have hheight' : a.settledTip.height = st.start.height + k' := by
    rw [hid]
    exact hsettled
  refine
    { through := rfl
      previous_le := by simp only; omega
      settled_le := by simp only [CanonicalBuildBlock.blockId_height]; omega
      lag_le := by simp only [CanonicalBuildBlock.blockId_height]; omega
      advance_le := by simp only; omega
      unchanged := ?_
      identity := .inr ⟨by simp only [CanonicalBuildBlock.blockId_height]; omega,
        by simp only; omega, ?_⟩ }
  · intro heq
    have : k' = k := by simp only at heq; omega
    rw [h.settled, this, inv.settled]
    rfl
  · simp only [hid]
    exact inv.holds.retainedBlockHash_eq hv

theorem advanceSettled_ok (hheight : a.block.height =
      st.store.readyEvidence.visibleTip.height + 1) :
    advanceSettledSequenceCheckpoint st.store.db st.store.readyEvidence
      ⟨st.store.window, st.store.readyEvidence.sequenceCheckpoint.through, a.settledTip,
        a.block.blockId⟩ a.block = .ok (sequenceSummary st.start (st.chain.take k')) := by
  obtain ⟨v, hv, hid, hsettled⟩ := h.settled_block inv
  have hk := h.settled_le
  have hk' := h.le_length
  have htip := inv.tip_height
  have hthrough := inv.settled_height
  have hheight' : a.settledTip.height = st.start.height + k' := by
    rw [hid]
    exact hsettled
  simp only [advanceSettledSequenceCheckpoint]
  split
  · next hsame =>
    have : k' = k := by
      have := congrArg BlockId.height hsame
      omega
    rw [this, inv.settled]
  · have hbytes : replayTotal st.chain < u64Bound := by
      have := h.bytes_lt
      rw [replayTotal_append] at this
      omega
    have hresume := inv.holds.resume_ok hbytes hk hk' h.advance_le
    have hmin : min a.settledTip.height st.store.readyEvidence.visibleTip.height =
        st.store.buildPlan.historyPredecessor.blockId.height + k' := by
      have : st.store.buildPlan.historyPredecessor.blockId.height = st.start.height := rfl
      omega
    simp only [bind_eq_ok, rejectIf_eq_ok, not_not]
    refine ⟨_, by rw [hmin, inv.settled]; exact hresume, _, ?_, (), ?_, rfl⟩
    · have hne : a.settledTip.height ≠ a.block.height := by omega
      exact if_neg hne
    · exact h.settled.symm

end

end AppendEnabled

theorem prepareLiveAppend_ok {k k' : Nat} (inv : LiveInvariant st k) (ready : StoreReady st)
    (h : AppendEnabled st k a activations k') :
    ∃ prepared, prepareLiveAppend st.store a activations = .ok prepared := by
  obtain ⟨checkpoint, hid, _, hanchor⟩ := ready.appendAnchor_ok inv
  obtain ⟨anchor, next, hanchor', hfollows⟩ := h.follows
  cases hanchor.symm.trans hanchor'
  obtain ⟨commitments, seeded, appended, rooted, hcommitments, hseeded, happended, hfrontiers,
    hsizes, _⟩ := hfollows.trees
  have hheight : a.block.height = st.store.readyEvidence.visibleTip.height + 1 := by
    rw [← hid]
    exact hfollows.height
  have hlt := a.block.height_lt
  have hlength := inv.linked.length_lt
  have hu : u32Bound < u64Bound := by decide
  obtain ⟨_, hcount, _, hreplayed⟩ := inv.visible_eq
  have hbytes := h.bytes_lt
  rw [replayTotal_append] at hbytes
  have hone : replayTotal [a.visible] = a.block.replayBytes := by
    simp [replayTotal, CanonicalLiveAppend.visible]
  have hidentity : validateActivationIdentity st.store activations "live append" = .ok () :=
    rejectIf_of_not (by simp [h.network, h.fingerprint])
  have hvalid : validateLiveBlock st.store.workload st.store.buildPlan.rawBlobRetention a.block =
      .ok () := by
    rw [ready.workload]
    exact hfollows.valid
  have hextends : validateLiveBlockExtension st.store.readyEvidence a.block =
      .ok a.block.blockId := by
    simp only [validateLiveBlockExtension, bind_eq_ok, okOr_eq_ok, nextHeight_eq_some,
      rejectIf_eq_ok, not_or, not_not]
    exact ⟨_, ⟨by omega, rfl⟩, (), ⟨hheight, by rw [← hid]; exact hfollows.parentHash⟩, trivial⟩
  have htransition : validateLiveCheckpointTransition
      ⟨st.store.eventFence, st.store.readyEvidence.sequenceCheckpoint.through, checkpoint⟩ a.block
      activations = .ok () := by
    simp only [validateLiveCheckpointTransition, bind_eq_ok, okOr_eq_ok, mapError_ok_iff,
      rejectIf_eq_ok, not_or, not_not]
    exact ⟨next, hfollows.checkpoint_eq, commitments, hcommitments _, seeded, hseeded, appended,
      happended, (next.frontiers, rooted), hfrontiers, hsizes, rfl⟩
  have hnext : nextLiveFence st.store.readyEvidence =
      .ok (st.store.readyEvidence.visibleEpoch + 1, st.store.readyEvidence.visibleEpoch + 1) :=
    nextLiveFence_eq_ok.mpr ⟨h.epoch_lt, inv.fence.symm, rfl, rfl⟩
  obtain ⟨sequence, hsequence⟩ :
      ∃ sequence, advanceVisibleSequence st.store.readyEvidence a.block = .ok sequence := by
    simp only [advanceVisibleSequence, bind_eq_ok, okOr_eq_ok,
      CanonicalBlockFactsSequenceDigest.tryAppend_eq_some, checkedAdd_eq_some]
    refine ⟨_, _, ⟨?_, rfl⟩, _, ⟨?_, rfl⟩, rfl⟩
    · simp only [CanonicalStoreReadyEvidence.visibleDigest, hcount]
      omega
    · rw [hreplayed]
      simp only [replayTotal] at hbytes hone
      omega
  simp only [prepareLiveAppend, bind_eq_ok, rejectIf_eq_ok, not_not]
  exact ⟨_, (), hidentity, _, hanchor, (), h.fence, (), hvalid, _, hextends, (), htransition, (),
    validateLiveSettledTip_eq_ok.mpr (h.settlement inv ready hheight), _,
    h.advanceSettled_ok inv hheight, _, hnext, sequence, hsequence, _, hfollows.rows, rfl⟩

theorem commitLiveAppend_ok {k k' : Nat} (inv : LiveInvariant st k) (ready : StoreReady st)
    (h : AppendEnabled st k a activations k') (hids : a.block.transactionIds.Nodup) :
    ∃ s' fence, commitLiveAppend st.store a activations = .ok (s', fence) := by
  obtain ⟨prepared, hprepared⟩ := prepareLiveAppend_ok inv ready h
  obtain ⟨sizes, checkpoint, spec, hrows, hready, hepoch, hevent, _, hprevious⟩ :=
    prepareLiveAppend_eq_ok hprepared
  have hlt := spec.epoch_lt
  obtain ⟨k₁, _, inv'⟩ := inv.appended spec hready hepoch
  have hlinked := spec.linked inv
  have hroots : RootsLinked sizes [a.visible] :=
    ⟨spec.monotone, (completedRoots_positions a.block a.subtreeRoots).trans spec.roots, trivial⟩
  have hunique : UniqueIds [a.visible] := by
    refine ⟨nodup_singleton _, ?_⟩
    rw [flatMap_singleton]
    exact hids
  have hcount : ∀ key, a.visible.rows.keys.count key ≤ 1 := by
    intro key
    have hadmitted : ∀ v ∈ [a.visible], Admitted v.block := by
      intro v hv
      rw [mem_singleton.mp hv]
      exact spec.admitted
    have := hunique.count_rows_le_one hlinked hroots hadmitted key
    rwa [flatMap_singleton] at this
  have htip : prepared.publication.ready.visibleTip = a.block.blockId := by
    rw [hready]
    rfl
  have hblock : ∀ row ∈ a.visible.rows, (appendedStore st.store a prepared.publication).db.lookup
      row.1 = some row.2 := by
    intro row hrow
    refine lookup_put hrow (hcount _) [] (fun hmem => ?_) _
    rw [Op.map_key_ofRow] at hmem
    have howned := isBlockFamily_of_owned
      ((rows_keys_sublist spec.admitted).subset (mem_map_of_mem (f := Sigma.fst) hrow))
    rw [(prepared.publication.key_not_block hmem).1] at howned
    cases howned
  have hpublished : ∀ row ∈ prepared.publication.rows,
      (appendedStore st.store a prepared.publication).db.lookup row.1 = some row.2 :=
    fun row hrow => prepared.publication.lookup_row _ _ hrow
  obtain ⟨epoch, hepochRow, hvisible, hsettled⟩ := spec.epoch
  have hold : (appendedStore st.store a prepared.publication).db.lookup
      (Key.chainEpoch st.store.readyEvidence.visibleEpoch) = some epoch := by
    refine (lookup_write_of_untouched ?_ _).trans hepochRow
    rw [map_append, Op.map_key_ofRow, Op.map_key_ofRow, mem_append, not_or,
      prepared.publication.rows_keys]
    constructor
    · intro hmem
      cases isBlockFamily_of_owned ((rows_keys_sublist spec.admitted).subset hmem)
    · simp [hready, appendedEvidence]
  have hsame : prepared.publication.ready.visibleEpoch = st.store.readyEvidence.visibleEpoch + 1 := by
    rw [hready]
    rfl
  have hpublication : validateLiveAppendPublication
      (appendedStore st.store a prepared.publication).db prepared.publication.ready
      prepared.previousEpochId = .ok () := by
    simp only [validateLiveAppendPublication, bind_eq_ok, rejectIf_eq_ok, not_or, not_not,
      readChainEpoch, readChainEvent, okOr_eq_ok, nextHeight_eq_some]
    have hheight := spec.height
    have hbound := a.block.height_lt
    refine ⟨(), ⟨?_, ?_⟩, epoch, by rw [hprevious]; exact hold, prepared.publication.epoch,
      hpublished ⟨.chainEpoch _, _⟩ (by simp [LivePublication.rows]), prepared.publication.event,
      hpublished ⟨.chainEvent _, _⟩ (by simp [LivePublication.rows]),
      a.block.height, ⟨by rw [hvisible]; omega, by rw [hvisible]; omega⟩, (), ?_, ?_⟩
    · rw [hready]
      rfl
    · rw [hsame, hprevious, Nat.min_eq_left (by omega)]
    · refine inv'.validateEpochRecord_ok ?_ ?_ ?_ ?_
      · rw [hready]
        exact ready.first
      · rw [hepoch]
        exact htip.symm
      · obtain ⟨e, he, _, hset⟩ := inv'.epoch
        rw [show e = prepared.publication.epoch from Option.some.inj
          (he.symm.trans (prepared.publication.lookup_epoch _ _))] at hset
        exact hset
      · have := inv'.holds.readPersistedTipMetadata_eq (v := a.visible) (by simp)
        simp only [appendedStore, htip, hepoch]
        exact this
    · rw [hevent, hepoch, hprevious]
      exact ⟨rfl, rfl, rfl, rfl, rfl, rfl⟩
  refine ⟨appendedStore st.store a prepared.publication,
    eventFenceFromReady prepared.publication.ready, ?_⟩
  simp only [commitLiveAppend, bind_eq_ok, mapError_ok_iff, validateLiveCommitReadback,
    validateRowsReadback_eq_ok]
  refine ⟨prepared, hprepared, (), ?_, by rw [hrows]; rfl⟩
  rw [hrows]
  exact ⟨(), hblock, (), hpublished, (), hpublication,
    inv'.validateReadySequenceCheckpoint_ok h.bytes_lt⟩

end Zinder.Canonical
