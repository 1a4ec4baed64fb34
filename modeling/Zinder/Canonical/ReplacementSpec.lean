import Zinder.Canonical.AppendSpec
import Zinder.Canonical.LiveReplacement

/-!
# Zinder.Canonical.ReplacementSpec

What a successful live replacement establishes (`ReplacementSpec`).
-/

namespace Zinder.Canonical

open KeyValue

variable {D : Type} {E : Env D}

def CanonicalReplacementBlock.visible (r : CanonicalReplacementBlock E) : VisibleBlock E :=
  ⟨r.block, r.subtreeRoots.map (completedRoot r.block)⟩

def CanonicalLiveReplacement.chain (r : CanonicalLiveReplacement E) : Chain E :=
  r.blocks.map CanonicalReplacementBlock.visible

def replacedEvidence (ready : CanonicalStoreReadyEvidence D)
    (visible : CanonicalSequenceCheckpoint D) : CanonicalStoreReadyEvidence D :=
  { ready with
    visibleTip := visible.through
    visibleEpoch := ready.visibleEpoch + 1
    visibleEventSequence := ready.visibleEpoch + 1
    visibleBlockCount := visible.retainedBlockCount
    visibleSequenceDigest := visible.sequenceDigest.bytes
    visibleLogicalReplayBytes := visible.logicalReplayBytes }

variable {s : RocksDbCanonicalStore D} {activations : NetworkUpgradeActivations}
  {blocks : List (CanonicalReplacementBlock E)}

theorem tipId_map_visible_eq {start : BlockId} {last : CanonicalReplacementBlock E}
    (h : blocks.getLast? = some last) :
    tipId start (blocks.map CanonicalReplacementBlock.visible) = last.block.blockId := by
  obtain ⟨front, rfl⟩ := List.getLast?_eq_some_iff.mp h
  simp [tipId, CanonicalReplacementBlock.visible]

theorem prepareReplacementRows_eq_ok {sizes : ChainTipMetadata} {rows : List (List (Row (Val D)))}
    (h : prepareReplacementRows sizes blocks = .ok rows) :
    RootsLinked sizes (blocks.map CanonicalReplacementBlock.visible) ∧
      rows.flatten =
        (blocks.map CanonicalReplacementBlock.visible).flatMap VisibleBlock.rows := by
  induction blocks generalizing sizes rows with
  | nil =>
    cases h
    exact ⟨trivial, rfl⟩
  | cons r blocks ih =>
    simp only [prepareReplacementRows, bind_eq_ok] at h
    obtain ⟨first, hfirst, tail, htail, h⟩ := h
    cases h
    obtain ⟨hmono, hroots, rfl⟩ := fromBlock_eq_ok hfirst
    obtain ⟨hlinked, hrows⟩ := ih htail
    refine ⟨⟨hmono, ?_, hlinked⟩, ?_⟩
    · exact (completedRoots_positions r.block r.subtreeRoots).trans hroots
    · rw [List.flatten_cons, hrows]
      rfl

/-! ## The parent checkpoint -/

theorem checkpointAt_blockId {target : BlockId} {checkpoint : CommitmentTreeCheckpoint}
    (h : checkpointAt E s target activations = .ok checkpoint) : checkpoint.blockId = target := by
  simp only [checkpointAt, bind_eq_ok] at h
  obtain ⟨_, _, found, _, h⟩ := h
  split at h
  · simp only [bind_eq_ok, rejectIf_eq_ok, not_not] at h
    obtain ⟨_, htarget, h⟩ := h
    cases h
    exact htarget
  · simp only [bind_eq_ok, Unique.exists_iff] at h
    obtain ⟨seeded, _, accumulator, _, header, _, _, time, _, frontiers, _, h⟩ := h
    cases h
    rfl

theorem replacementParentCheckpoint_blockId {parent : BlockId}
    {checkpoint : CommitmentTreeCheckpoint}
    (h : replacementParentCheckpoint E s parent activations = .ok checkpoint) :
    checkpoint.blockId = parent := by
  simp only [replacementParentCheckpoint, bind_eq_ok, Unique.exists_iff] at h
  obtain ⟨_, anchor, _, _, distance, _, _, h⟩ := h
  exact checkpointAt_blockId h

/-! ## The replacement blocks -/

theorem inclusiveCount_eq_ok {range : BlockHeightRange} {count : Nat} :
    inclusiveCount range = .ok count ↔
      range.start ≤ range.stop ∧ range.stop - range.start + 1 < u32Bound ∧
        range.stop - range.start + 1 = count := by
  simp only [inclusiveCount, okOr_eq_ok, Option.bind_eq_some_iff, checkedSub_eq_some,
    checkedAdd_eq_some]
  constructor
  · rintro ⟨_, ⟨hle, rfl⟩, hlt, rfl⟩
    exact ⟨hle, hlt, rfl⟩
  · rintro ⟨hle, hlt, rfl⟩
    exact ⟨_, ⟨hle, rfl⟩, hlt, rfl⟩

theorem validateReplacementBlocks_loop [DecidableEq D]
    {state final : BlockId × CommitmentTreeAccumulator E.trees}
    (h : loop (validateReplacementBlock s) state blocks = .ok final) :
    Linked state.1 (blocks.map CanonicalReplacementBlock.visible) ∧
      (∀ v ∈ blocks.map CanonicalReplacementBlock.visible, Admitted v.block) ∧
      final.1 = tipId state.1 (blocks.map CanonicalReplacementBlock.visible) := by
  induction blocks generalizing state with
  | nil =>
    cases h
    exact ⟨trivial, by simp, rfl⟩
  | cons r blocks ih =>
    obtain ⟨next, hstep, hrest⟩ := loop_cons_eq_ok.mp h
    obtain ⟨hlinked, hadmitted, hfinal⟩ := ih hrest
    simp only [validateReplacementBlock, bind_eq_ok, okOr_eq_ok, nextHeight_eq_some,
      rejectIf_eq_ok, not_or, not_not, Unique.exists_iff] at hstep
    obtain ⟨hvalid, _, ⟨_, rfl⟩, ⟨hheight, hparent⟩, _, _, _, _, _, _, _, hnext⟩ := hstep
    cases hnext
    refine ⟨⟨hheight, hparent, hlinked⟩, ?_, hfinal⟩
    intro v hv
    rcases List.mem_cons.mp hv with rfl | hv
    · exact validateBlock_admitted hvalid
    · exact hadmitted v hv

theorem replacement_sequence_loop {start : BlockId} {chain : Chain E}
    {c : CanonicalSequenceCheckpoint D} {countError bytesError : String}
    (h : loop (fun checkpoint (r : CanonicalReplacementBlock E) =>
        appendToSequence checkpoint r.block countError bytesError)
      (sequenceSummary start chain) blocks = .ok c) :
    c = sequenceSummary start (chain ++ blocks.map CanonicalReplacementBlock.visible) := by
  induction blocks generalizing chain with
  | nil =>
    cases h
    simp
  | cons r blocks ih =>
    obtain ⟨next, hstep, hrest⟩ := loop_cons_eq_ok.mp h
    rw [appendToSequence_summary (v := r.visible) hstep] at hrest
    rw [ih hrest]
    simp

/-! ## The replacement -/

variable [DecidableEq D]

/-- What a prepared replacement establishes about the store it was prepared against. `parent` is
the block below the new suffix, `sizes` its tree sizes, `settled` the settled tip and `visible` the
new summary. -/
structure ReplacementSpec (s : RocksDbCanonicalStore D) (r : CanonicalLiveReplacement E)
    (parent settled : BlockId) (sizes : ChainTipMetadata)
    (visible : CanonicalSequenceCheckpoint D) (deletions : List Key) : Prop where
  fence : r.expectedFence = s.eventFence
  epoch : ∃ e, s.db.lookup (Key.chainEpoch s.readyEvidence.visibleEpoch) = some e ∧
    e.visibleTip = s.readyEvidence.visibleTip ∧ e.settledTip = settled
  nonempty : r.chain ≠ []
  settled_le_parent : settled.height ≤ parent.height
  parent_lt_tip : parent.height < s.readyEvidence.visibleTip.height
  displaced_le : s.readyEvidence.visibleTip.height - parent.height ≤ s.window
  parent_hash : ∃ p, readPersistedReplay E s.db parent.height = .ok p ∧
    p.replay.facts.blockHash = parent.hash
  sizes_eq : readPersistedTipMetadata s.db parent = .ok sizes
  linked : Linked parent r.chain
  admitted : ∀ v ∈ r.chain, Admitted v.block
  roots : RootsLinked sizes r.chain
  lag_le : (tipId parent r.chain).height - settled.height ≤ s.window
  sequence : ∃ c, resumePersistedSequenceCheckpoint E s.db s.readyEvidence.sequenceCheckpoint
      parent.height s.window = .ok c ∧
    loop (fun checkpoint (r : CanonicalReplacementBlock E) =>
        appendToSequence checkpoint r.block "replacement block count exceeds u64"
          "replacement replay bytes exceed u64") c r.blocks = .ok visible
  deleted : ∃ displaced oldSizes,
    captureDisplacedBlocks E s ⟨parent.height + 1, s.readyEvidence.visibleTip.height⟩ =
      .ok displaced ∧
    readPersistedTipMetadata s.db s.readyEvidence.visibleTip = .ok oldSizes ∧
    prepareCanonicalDeletions E s ⟨parent.height + 1, s.readyEvidence.visibleTip.height⟩ sizes
      oldSizes displaced = .ok deletions

/-- The values that `PreparedLiveReplacement::new` goes through, under the source's names for them, and
what was checked of them. -/
structure ReplacementSteps (s : RocksDbCanonicalStore D) (r : CanonicalLiveReplacement E)
    (activations : NetworkUpgradeActivations) (p : PreparedLiveReplacement D) where
  anchor : CanonicalAppendAnchor D
  first : CanonicalReplacementBlock E
  last : CanonicalReplacementBlock E
  parentReplay : PersistedReplayStep D
  parentMetadata : ChainTipMetadata
  displaced : List CanonicalDisplacedBlock
  oldTipMetadata : ChainTipMetadata
  visible : CanonicalSequenceCheckpoint D
  fence : r.expectedFence = s.eventFence
  anchored : s.appendAnchor = .ok anchor
  head : r.blocks.head? = some first
  settled_lt : anchor.settledTip.height < first.block.height
  first_le : first.block.height ≤ s.readyEvidence.visibleTip.height
  displaced_le : s.readyEvidence.visibleTip.height - first.block.height + 1 ≤ s.window
  parent : readPersistedReplay E s.db (first.block.height - 1) = .ok parentReplay
  parentSizes : readPersistedTipMetadata s.db
    ⟨first.block.height - 1, parentReplay.replay.facts.blockHash⟩ = .ok parentMetadata
  validated : validateReplacementBlocks s r.blocks
    ⟨first.block.height - 1, parentReplay.replay.facts.blockHash⟩ anchor.settledTip activations =
      .ok ()
  getLast : r.blocks.getLast? = some last
  lag_le : last.block.height - anchor.settledTip.height ≤ s.window
  epoch_lt : s.readyEvidence.visibleEpoch + 1 < u64Bound
  captured : captureDisplacedBlocks E s ⟨first.block.height, s.readyEvidence.visibleTip.height⟩ =
    .ok displaced
  oldSizes : readPersistedTipMetadata s.db s.readyEvidence.visibleTip = .ok oldTipMetadata
  deleted : prepareCanonicalDeletions E s
    ⟨first.block.height, s.readyEvidence.visibleTip.height⟩ parentMetadata oldTipMetadata displaced =
      .ok p.deletions
  archived : prepareDisplacedArchiveWrite E s
    ⟨s.readyEvidence.visibleEpoch + 1, s.readyEvidence.visibleEpoch + 1,
      ⟨first.block.height, s.readyEvidence.visibleTip.height⟩, r.createdAt⟩ displaced = .ok p.archive
  sequenced : replacementVisibleSequence s anchor.settledTip (first.block.height - 1) r.blocks =
    .ok visible
  rows : prepareReplacementRows parentMetadata r.blocks = .ok p.replacementRows
  ready : p.publication.ready = { replacedEvidence s.readyEvidence visible with
    visibleTip := last.block.blockId }
  epoch : p.publication.epoch =
    ⟨last.block.blockId, anchor.settledTip, last.block.tipMetadata, r.createdAt⟩
  event : p.publication.event = liveEvent s.readyEvidence.visibleEpoch (some p.revertedRange)
    p.committedRange p.publication.ready
  control : p.publication.control = ⟨s.workload, s.buildPlan, p.publication.ready⟩
  previousEpochId : p.previousEpochId = s.readyEvidence.visibleEpoch
  revertedRange : p.revertedRange = ⟨first.block.height, s.readyEvidence.visibleTip.height⟩
  committedRange : p.committedRange = ⟨first.block.height, last.block.height⟩

theorem prepareLiveReplacement_steps {r : CanonicalLiveReplacement E}
    {p : PreparedLiveReplacement D} (h : prepareLiveReplacement s r activations = .ok p) :
    Nonempty (ReplacementSteps s r activations p) := by
  simp only [prepareLiveReplacement, bind_eq_ok, rejectIf_eq_ok, not_or, not_not, not_le, not_lt,
    okOr_eq_ok, checkedSub_eq_some, Unique.exists_iff] at h
  obtain ⟨-, hfence, anchor, hanchor, first, hfirst, hbounds, count, hcount, hwindow, parentHeight,
    hparent, replay, hreplay, sizes, hsizes, hblocks, last, hlast, lag, hlag, hlagle,
    ⟨epoch, sequence⟩, hnext, displaced, hdisplaced, oldSizes, hold, deletions, hdeletions, archive,
    harchive, visible, hvisible, rows, hrows, h⟩ := h
  obtain ⟨hpos, rfl⟩ := hparent
  obtain ⟨hcountle, _, rfl⟩ := inclusiveCount_eq_ok.mp hcount
  obtain ⟨_, rfl⟩ := hlag
  obtain ⟨hlt, _, rfl, rfl⟩ := nextLiveFence_eq_ok.mp hnext
  cases h
  exact ⟨anchor, first, last, replay, sizes, displaced, oldSizes, visible, hfence, hanchor, hfirst,
    hbounds.1, hbounds.2, hwindow, hreplay, hsizes, hblocks, hlast, hlagle, hlt, hdisplaced, hold,
    hdeletions, harchive, hvisible, hrows, rfl, rfl, rfl, rfl, rfl, rfl, rfl⟩

theorem prepareLiveReplacement_eq_ok {r : CanonicalLiveReplacement E}
    {p : PreparedLiveReplacement D} (h : prepareLiveReplacement s r activations = .ok p) :
    ∃ parent settled sizes visible,
      ReplacementSpec s r parent settled sizes visible p.deletions ∧
      visible.through = tipId parent r.chain ∧
      p.replacementRows.flatten = r.chain.flatMap VisibleBlock.rows ∧
      (∀ k ∈ p.archive.keys, k.isArchive = true) ∧
      p.publication.ready = replacedEvidence s.readyEvidence visible ∧
      p.publication.epoch.visibleTip = tipId parent r.chain ∧
      p.publication.epoch.settledTip = settled := by
  obtain ⟨steps⟩ := prepareLiveReplacement_steps h
  have hspec := appendAnchor_eq_ok steps.anchored
  have hsettled := steps.settled_lt
  have hfirst := steps.first_le
  have hwindow := steps.displaced_le
  have hparentHeight : steps.first.block.height - 1 + 1 = steps.first.block.height := by omega
  have hblocks := steps.validated
  simp only [validateReplacementBlocks, bind_eq_ok, rejectIf_eq_ok, not_lt] at hblocks
  obtain ⟨_, _, _, _, ⟨tip, _⟩, hloop, _⟩ := hblocks
  obtain ⟨hlinked, hadmitted, _⟩ := validateReplacementBlocks_loop hloop
  obtain ⟨hroots, hrowsEq⟩ := prepareReplacementRows_eq_ok steps.rows
  have hvisible := steps.sequenced
  simp only [replacementVisibleSequence, bind_eq_ok] at hvisible
  obtain ⟨c, hresume, _, _, hsequence⟩ := hvisible
  have htip : tipId ⟨steps.first.block.height - 1, steps.parentReplay.replay.facts.blockHash⟩
      r.chain = steps.last.block.blockId := tipId_map_visible_eq steps.getLast
  have hthrough : steps.visible.through = steps.last.block.blockId := by
    obtain ⟨front, hfront⟩ := List.getLast?_eq_some_iff.mp steps.getLast
    rw [hfront] at hsequence
    obtain ⟨mid, hmid⟩ := loop_append_eq_ok.mp hsequence
    obtain ⟨_, hlaststep, hend⟩ := loop_cons_eq_ok.mp hmid.2
    cases hend
    rw [(appendToSequence_eq_ok.mp hlaststep).2.2.2]
  refine ⟨⟨steps.first.block.height - 1, steps.parentReplay.replay.facts.blockHash⟩,
    steps.anchor.settledTip, steps.parentMetadata, steps.visible, ?_, ?_⟩
  · exact
      { fence := steps.fence
        epoch := hspec.epoch
        nonempty := by
          intro hnil
          rw [CanonicalLiveReplacement.chain, List.map_eq_nil_iff] at hnil
          have hhead := steps.head
          simp [hnil] at hhead
        settled_le_parent := by simp only; omega
        parent_lt_tip := by simp only; omega
        displaced_le := by simp only; omega
        parent_hash := ⟨_, steps.parent, rfl⟩
        sizes_eq := steps.parentSizes
        linked := hlinked
        admitted := hadmitted
        roots := hroots
        lag_le := by rw [htip]; exact steps.lag_le
        sequence := ⟨c, hresume, hsequence⟩
        deleted := ⟨_, _, by rw [hparentHeight]; exact steps.captured, steps.oldSizes,
          by rw [hparentHeight]; exact steps.deleted⟩ }
  · refine ⟨hthrough.trans htip.symm, hrowsEq,
      fun k hk => prepareDisplacedArchiveWrite_isArchive steps.archived hk, ?_, ?_, ?_⟩
    · rw [steps.ready, ← hthrough]
      rfl
    · rw [steps.epoch, htip]
    · rw [steps.epoch]

/-- A successful replacement writes one batch and publishes the new evidence. -/
theorem commitLiveReplacement_eq_ok {s s' : RocksDbCanonicalStore D}
    {r : CanonicalLiveReplacement E} {fence : CanonicalEventFence D}
    (h : commitLiveReplacement s r activations = .ok (s', fence)) :
    ∃ p, prepareLiveReplacement s r activations = .ok p ∧
      s' = { s with db := write p.batch s.db, readyEvidence := p.publication.ready } := by
  simp only [commitLiveReplacement, bind_eq_ok] at h
  obtain ⟨p, hprepared, _, _, h⟩ := h
  cases h
  exact ⟨p, hprepared, rfl⟩

end Zinder.Canonical
