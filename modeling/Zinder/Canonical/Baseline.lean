import Zinder.Canonical.LiveCommit

/-!
# Zinder.Canonical.Baseline

The first visible epoch of a store: the bulk load of its history, the load of the completed
subtree roots, and the publication of epoch 1 (`block_load.rs`, `subtree_load.rs`,
`publication.rs`).

* `bulkLoadBlocks` — every block checked against its predecessor, the summary carried along, the
  last `window + 1` summaries retained;
* `loadSubtreeRoots` — either the roots completed inside retained history or the complete prefix;
* `publishBaseline` — settlement, the three publication rows, and their readback.
-/

namespace Zinder.Canonical

open KeyValue

variable {D : Type} [DecidableEq D] {E : Env D}

/-! ## Block load -/

/-- `BlockSequence`: the summary of the blocks staged so far. -/
structure BlockSequence (D : Type) where
  checkpoint : CanonicalSequenceCheckpoint D
  tipMetadata : ChainTipMetadata
  retained : List (CanonicalSequenceCheckpoint D)

/-- `retain_checkpoint`: keep at most `count` of the latest summaries. -/
def retainCheckpoint (count : Nat) (retained : List (CanonicalSequenceCheckpoint D))
    (checkpoint : CanonicalSequenceCheckpoint D) : List (CanonicalSequenceCheckpoint D) :=
  let extended := retained ++ [checkpoint]
  if count < extended.length then extended.drop 1 else extended

def BlockSequence.new (block : CanonicalBuildBlock E) (retainedCount : Nat) :
    Except CanonicalStoreError (BlockSequence D) := do
  let digest ← okOr
    ((CanonicalBlockFactsSequenceDigest.start E.hash).tryAppend E.hash block.digest)
    (.blockLoadSequence "block sequence count exceeds u64::MAX")
  let checkpoint : CanonicalSequenceCheckpoint D :=
    ⟨block.blockId, 1, digest, block.replayBytes⟩
  .ok ⟨checkpoint, block.tipMetadata, retainCheckpoint retainedCount [] checkpoint⟩

def treeSizesAdvance (a b : ChainTipMetadata) : Prop :=
  a.saplingCommitmentTreeSize ≤ b.saplingCommitmentTreeSize ∧
    a.orchardCommitmentTreeSize ≤ b.orchardCommitmentTreeSize ∧
    a.ironwoodCommitmentTreeSize ≤ b.ironwoodCommitmentTreeSize

instance (a b : ChainTipMetadata) : Decidable (treeSizesAdvance a b) :=
  inferInstanceAs (Decidable (_ ∧ _))

def BlockSequence.append (retainedCount : Nat) (sequence : BlockSequence D)
    (block : CanonicalBuildBlock E) : Except CanonicalStoreError (BlockSequence D) := do
  let height := block.height
  let tip := sequence.checkpoint.through
  let tipHeight := tip.height
  rejectIf (nextHeight tip.height ≠ some block.height)
    (.blockLoadSequence s!"height {height} does not immediately follow height {tipHeight}")
  rejectIf (block.parentHash ≠ tip.hash)
    (.blockLoadSequence s!"block {height} parent does not match the preceding block")
  rejectIf (¬ treeSizesAdvance sequence.tipMetadata block.tipMetadata)
    (.blockLoadSequence s!"block {height} commitment-tree positions move backwards")
  let count ← okOr (checkedAdd u64Bound sequence.checkpoint.retainedBlockCount 1)
    (.blockLoadSequence "block count exceeds u64::MAX")
  let bytes ← okOr (checkedAdd u64Bound sequence.checkpoint.logicalReplayBytes block.replayBytes)
    (.blockLoadSequence "replay bytes exceed u64::MAX")
  let digest ← okOr (sequence.checkpoint.sequenceDigest.tryAppend E.hash block.digest)
    (.blockLoadSequence "block sequence count exceeds u64::MAX")
  let checkpoint : CanonicalSequenceCheckpoint D := ⟨block.blockId, count, digest, bytes⟩
  .ok ⟨checkpoint, block.tipMetadata,
    retainCheckpoint retainedCount sequence.retained checkpoint⟩

/-- `CanonicalBlockSstStager::stage`. -/
def stageBlock (workload : CanonicalStoreWorkload) (plan : CanonicalStoreBuildPlan)
    (sequence : Option (BlockSequence D)) (block : CanonicalBuildBlock E) :
    Except CanonicalStoreError (Option (BlockSequence D)) := do
  validateBlock workload plan.rawBlobRetention block plan.buildTip.height
  let staged ← match sequence with
    | some sequence => sequence.append (plan.reorgWindowBlocks + 1) block
    | none => BlockSequence.new block (plan.reorgWindowBlocks + 1)
  let height := block.height
  rejectIf (u32Bound < block.facts.transactions.length)
    (.blockLoadSequence s!"block {height} transaction count exceeds u32::MAX")
  rejectIf (u32Bound < block.transactionBlobs.length)
    (.blockLoadSequence s!"block {height} transaction blob count exceeds u32::MAX")
  .ok (some staged)

/-- `bulk_load_blocks`: the loaded rows and the summary of the loaded sequence. The two reverse
indexes are sorted by an external sorter that refuses equal keys. -/
def bulkLoadBlocks (workload : CanonicalStoreWorkload) (plan : CanonicalStoreBuildPlan)
    (blocks : List (CanonicalBuildBlock E)) :
    Except CanonicalStoreError (Db D × BlockSequence D) := do
  let staged ← loop (stageBlock workload plan) none blocks
  let sequence ← okOr staged
    (.blockLoadSequence "a canonical block load must contain at least one block")
  rejectIf
    (¬ (blocks.map CanonicalBuildBlock.hash).Nodup ∨
      ¬ (blocks.flatMap CanonicalBuildBlock.transactionIds).Nodup)
    (.blockLoadSequence "ordered logical-family keys are duplicated or not strictly increasing")
  let first ← okOr blocks.head?
    (.blockLoadSequence "a canonical block load must contain at least one block")
  let expected := plan.historyBounds.firstAvailableHeight
  let observed := first.height
  rejectIf (first.height ≠ plan.historyBounds.firstAvailableHeight)
    (.blockLoadSequence s!"expected first available height {expected}, observed {observed}")
  rejectIf (first.parentHash ≠ plan.historyPredecessor.blockId.hash)
    (.blockLoadSequence
      s!"block {observed} parent does not match the persisted history predecessor")
  rejectIf (sequence.checkpoint.through ≠ plan.buildTip)
    (.blockLoadSequence "expected build tip differs from the loaded tip")
  .ok (write ((predecessorRow plan :: blocks.flatMap blockRows).map Op.ofRow) ∅, sequence)

/-! ## Subtree roots -/

/-- How a build supplies its completed subtree roots. -/
inductive SubtreeRootLoad where
  | retainedRange (roots : List CanonicalBuildSubtreeRoot)
  | completePrefix (roots : List SubtreeRootArtifact)

variable (db : Db D) (plan : CanonicalStoreBuildPlan)

/-- `validate_source_subtree_root`, and the row with the retained completing block. -/
def stageRetainedRoot (protocol : ShieldedProtocol)
    (index : Nat) (previous : Option Nat) (root : CanonicalBuildSubtreeRoot) :
    Except CanonicalStoreError SubtreeRootArtifact := do
  let name := protocol.name
  let observedName := root.protocol.name
  let observed := root.subtreeIndex
  let height := root.completingBlockHeight
  rejectIf (root.protocol ≠ protocol ∨ root.subtreeIndex ≠ index)
    (.subtreeRootSequence
      s!"expected {name} subtree index {index}, observed {observedName} index {observed}")
  rejectIf (height < plan.historyBounds.firstAvailableHeight ∨ plan.buildTip.height < height)
    (.subtreeRootSequence
      s!"{name} subtree index {index} completed outside retained history at height {height}")
  rejectIf (∃ p ∈ previous, height < p)
    (.subtreeRootSequence s!"{name} subtree completion heights are not ascending")
  let hash ← retainedBlockHash db height
  .ok ⟨root.protocol, root.subtreeIndex, ⟨root.rootHash, height, hash⟩⟩

/-- `validate_complete_prefix_subtree_root`. -/
def stagePrefixRoot (protocol : ShieldedProtocol)
    (index : Nat) (previous : Option Nat) (root : SubtreeRootArtifact) :
    Except CanonicalStoreError SubtreeRootArtifact := do
  let name := protocol.name
  let observedName := root.protocol.name
  let observed := root.subtreeIndex
  let height := root.value.completingBlockHeight
  rejectIf (root.protocol ≠ protocol ∨ root.subtreeIndex ≠ index)
    (.subtreeRootSequence
      s!"expected {name} complete-prefix subtree index {index}, observed {observedName} index {observed}")
  rejectIf (plan.buildTip.height < height)
    (.subtreeRootSequence
      s!"{name} complete-prefix subtree index {index} completes after the build tip at height {height}")
  rejectIf (∃ p ∈ previous, height < p)
    (.subtreeRootSequence s!"{name} complete-prefix subtree completion heights are not ascending")
  if height < plan.historyBounds.firstAvailableHeight then
    let predecessor := plan.historyPredecessor.blockId
    rejectIf (predecessor.height < height)
      (.subtreeRootSequence
        s!"{name} complete-prefix subtree index {index} completes between the authenticated predecessor and retained history")
    rejectIf (height = predecessor.height ∧ root.value.completingBlockHash ≠ predecessor.hash)
      (.subtreeRootSequence
        s!"{name} complete-prefix subtree index {index} completing block differs from the authenticated predecessor")
    .ok root
  else
    let hash ← retainedBlockHash db height
    rejectIf (hash ≠ root.value.completingBlockHash)
      (.subtreeRootSequence
        s!"{name} complete-prefix subtree index {index} completing block differs from retained canonical history")
    .ok root

/-- One required range: consumes one source root per index; returns the rest of the source. -/
def stageRange {R : Type}
    (stage : ShieldedProtocol → Nat → Option Nat → R →
      Except CanonicalStoreError SubtreeRootArtifact)
    (label : String) :
    List (ShieldedProtocol × Nat) → Option Nat → List R →
      Except CanonicalStoreError (List SubtreeRootArtifact × List R)
  | [], _, source => .ok ([], source)
  | (protocol, index) :: _, _, [] =>
    let name := protocol.name
    .error (.subtreeRootSequence s!"missing {name} {label} at index {index}")
  | (protocol, index) :: rest, previous, root :: source => do
    let artifact ← stage protocol index previous root
    let (artifacts, remaining) ← stageRange stage label rest
      (some artifact.value.completingBlockHeight) source
    .ok (artifact :: artifacts, remaining)

/-- Every required range in order, then no root may be left over. -/
def stageRanges {R : Type}
    (stage : ShieldedProtocol → Nat → Option Nat → R →
      Except CanonicalStoreError SubtreeRootArtifact)
    (position : R → ShieldedProtocol × Nat) (label : String) :
    List SubtreeRootRange → List R → Except CanonicalStoreError (List SubtreeRootArtifact)
  | [], [] => .ok []
  | [], extra :: _ =>
    let name := (position extra).1.name
    let index := (position extra).2
    .error (.subtreeRootSequence s!"unexpected {name} {label} at index {index}")
  | range :: ranges, source => do
    let (artifacts, remaining) ← stageRange stage label range.indexes none source
    let rest ← stageRanges stage position label ranges remaining
    .ok (artifacts ++ rest)

/-- `load_subtree_roots` and `load_complete_subtree_root_prefix`. -/
def loadSubtreeRoots (tipMetadata : ChainTipMetadata) :
    SubtreeRootLoad → Except CanonicalStoreError (List SubtreeRootArtifact)
  | .retainedRange roots => do
    let ranges ← requiredSubtreeRootRanges plan.historyPredecessor.tipMetadata tipMetadata
    stageRanges (stageRetainedRoot db plan) CanonicalBuildSubtreeRoot.position "subtree root"
      ranges roots
  | .completePrefix roots => do
    let ranges ← requiredSubtreeRootRanges ChainTipMetadata.empty tipMetadata
    stageRanges (stagePrefixRoot db plan) SubtreeRootArtifact.position
      "complete-prefix subtree root" ranges roots

/-! ## Publication -/

structure CanonicalBaseline (E : Env D) where
  workload : CanonicalStoreWorkload
  plan : CanonicalStoreBuildPlan
  blocks : List (CanonicalBuildBlock E)
  roots : SubtreeRootLoad
  sourceTipCheckpoint : CommitmentTreeCheckpoint
  settledTip : BlockId
  createdAt : Nat

def validateSourceTipCheckpoint
    (tipMetadata : ChainTipMetadata) (source : CommitmentTreeCheckpoint) :
    Except CanonicalStoreError Unit := do
  rejectIf (source.blockId ≠ plan.buildTip ∨ source.tipMetadata ≠ tipMetadata)
    (.sourceTipCheckpoint
      "source checkpoint identity or tree positions differ from the fixed canonical tip")
  let row : Nat × CommitmentTreeFrontiers ←
    okOr (db.lookup (Key.treeStateCheckpoint plan.buildTip.height))
      (.sourceTipCheckpoint "fixed-tip tree-state checkpoint is absent")
  rejectIf (row.1 ≠ source.blockTimeSeconds ∨ row.2 ≠ source.frontiers)
    (.sourceTipCheckpoint
      "persisted fixed-tip checkpoint differs from the source-authenticated checkpoint")

/-- `prepare_baseline`: the settled summary among the retained ones. -/
def prepareBaseline (first tip : BlockId)
    (retained : List (CanonicalSequenceCheckpoint D)) (settledTip : BlockId) :
    Except CanonicalStoreError (CanonicalSequenceCheckpoint D) := do
  validateSettledTip db first tip settledTip
  let settledLag ← okOr (checkedSub tip.height settledTip.height)
    (.publication "settled tip exceeds visible tip")
  let window := plan.reorgWindowBlocks
  rejectIf (plan.reorgWindowBlocks < settledLag)
    (.publication
      s!"baseline settled tip lags visible tip by {settledLag} blocks; reorg window is {window}")
  okOr (retained.find? fun checkpoint => checkpoint.through = settledTip)
    (.publication "settled tip has no authenticated cold replay prefix")

/-- The evidence and the records of the first visible epoch. -/
def baselinePublication (b : CanonicalBaseline E) (first : CanonicalBuildBlock E)
    (sequence : BlockSequence D) (sequenceCheckpoint : CanonicalSequenceCheckpoint D) :
    LivePublication D :=
  let ready : CanonicalStoreReadyEvidence D :=
    { firstRetainedBlock := first.blockId
      visibleTip := sequence.checkpoint.through
      visibleEpoch := 1
      visibleEventSequence := 1
      visibleBlockCount := sequence.checkpoint.retainedBlockCount
      visibleSequenceDigest := sequence.checkpoint.sequenceDigest.bytes
      visibleLogicalReplayBytes := sequence.checkpoint.logicalReplayBytes
      sequenceCheckpoint }
  { ready
    epoch := ⟨ready.visibleTip, b.settledTip, sequence.tipMetadata, b.createdAt⟩
    event := liveEvent 0 none ⟨first.height, ready.visibleTip.height⟩ ready
    control := ⟨b.workload, b.plan, ready⟩ }

/-- The load and publication of a fresh build, from its blocks to the READY store. -/
def publishBaseline (b : CanonicalBaseline E) :
    Except CanonicalStoreError (RocksDbCanonicalStore D) := do
  let (blockDb, sequence) ← bulkLoadBlocks b.workload b.plan b.blocks
  let roots ← loadSubtreeRoots blockDb b.plan sequence.tipMetadata b.roots
  let db := write ((roots.map SubtreeRootArtifact.row).map Op.ofRow) blockDb
  rejectIf (b.workload = .explorer)
    (.publication "explorer publication requires authenticated daily value-pool evidence")
  validateSourceTipCheckpoint db b.plan sequence.tipMetadata b.sourceTipCheckpoint
  let first ← okOr b.blocks.head?
    (.blockLoadSequence "a canonical block load must contain at least one block")
  let sequenceCheckpoint ← prepareBaseline db b.plan first.blockId sequence.checkpoint.through
    sequence.retained b.settledTip
  let publication := baselinePublication b first sequence sequenceCheckpoint
  let published := write (publication.rows.map Op.ofRow) db
  validateReadySequenceCheckpoint E published b.plan publication.ready
  validateEpochRecord published first.height b.plan.buildTip publication.epoch
  .ok { db := published, workload := b.workload, buildPlan := b.plan
        readyEvidence := publication.ready }

end Zinder.Canonical
