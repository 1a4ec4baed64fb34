import Zinder.Canonical.LiveCommit
import Zinder.Canonical.Archive

/-!
# Zinder.Canonical.LiveReplacement

The atomic replacement of an unsettled suffix (`live_replacement.rs`): one batch deletes every row
of the displaced blocks, puts the rows of their replacements, archives the displaced facts and
publishes the new epoch, event and control record.
-/

namespace Zinder.Canonical

open KeyValue

variable {D : Type} [DecidableEq D] {E : Env D}

structure CanonicalReplacementBlock (E : Env D) where
  block : CanonicalBuildBlock E
  subtreeRoots : List CanonicalBuildSubtreeRoot

structure CanonicalLiveReplacement (E : Env D) where
  expectedFence : CanonicalEventFence D
  blocks : List (CanonicalReplacementBlock E)
  createdAt : Nat

/-! ## Tree state at the parent -/

def appendCompactCommitments (accumulator : CommitmentTreeAccumulator E.trees) (height : Nat)
    (compact : CompactBlockArtifact) :
    Except CanonicalStoreError (CommitmentTreeAccumulator E.trees) := do
  let commitments ← compactCommitments "replacement block" height compact
  (accumulator.appendBlockCommitments height commitments.sapling commitments.orchard
    commitments.ironwood).mapError (.liveCommitTree "")

/-- The height of the newest checkpoint row at or below `height`. -/
def checkpointHeightAtOrBefore (db : Db D) (height : Nat) : Option Nat :=
  (List.range (height + 1)).reverse.find? fun h =>
    (db.lookup (Key.treeStateCheckpoint h)).isSome

variable (s : RocksDbCanonicalStore D)

/-- `read_tree_state_checkpoint_at_or_before`. -/
def treeStateCheckpointAtOrBefore (height : Nat) :
    Except CanonicalStoreError (Option CommitmentTreeCheckpoint) :=
  match checkpointHeightAtOrBefore s.db height with
  | none => .ok none
  | some checkpointHeight => do
    let row : Nat × CommitmentTreeFrontiers ←
      okOr (s.db.lookup (Key.treeStateCheckpoint checkpointHeight))
        (.publication "tree-state checkpoint row is absent")
    let predecessor := s.buildPlan.historyPredecessor
    if checkpointHeight = predecessor.blockId.height then
      rejectIf (row.1 ≠ predecessor.blockTimeSeconds ∨ row.2 ≠ predecessor.frontiers)
        (.publication "tree-state history predecessor does not match the admitted build plan")
      .ok (some ⟨predecessor.blockId, row.1, row.2⟩)
    else
      let header : BlockHeaderArtifact ← okOr (s.db.lookup (Key.blockHeader checkpointHeight))
        (.publication "tree-state checkpoint header is absent")
      .ok (some ⟨⟨checkpointHeight, header.blockHash⟩, row.1, row.2⟩)

/-- One compact block of the rewind from a checkpoint to its target. -/
def rewindStep (E : Env D) (db : Db D) (accumulator : CommitmentTreeAccumulator E.trees)
    (height : Nat) : Except CanonicalStoreError (CommitmentTreeAccumulator E.trees) := do
  let compact : CompactBlockArtifact ← okOr (db.lookup (Key.compactBlock height))
    (.liveCommit "replacement parent compact block is absent")
  rejectIf (compact.height ≠ height)
    (.publication "compact block row has the wrong height")
  appendCompactCommitments accumulator height compact

def checkpointAt (E : Env D) (s : RocksDbCanonicalStore D) (target : BlockId)
    (activations : NetworkUpgradeActivations) :
    Except CanonicalStoreError CommitmentTreeCheckpoint := do
  let found ← treeStateCheckpointAtOrBefore s target.height
  let checkpoint ← okOr found (.liveCommit "replacement parent has no rewind checkpoint")
  if checkpoint.blockId.height = target.height then
    rejectIf (checkpoint.blockId ≠ target)
      (.liveCommit "replacement parent checkpoint has the wrong canonical hash")
    .ok checkpoint
  else
    let seeded ← (CommitmentTreeAccumulator.fromValidatedFrontiers E.trees
      checkpoint.blockId.height checkpoint.frontiers activations).mapError (.liveCommitTree "")
    let accumulator ← loop (rewindStep E s.db) seeded
      (List.range' (checkpoint.blockId.height + 1) (target.height - checkpoint.blockId.height))
    let header : BlockHeaderArtifact ← okOr (s.db.lookup (Key.blockHeader target.height))
      (.liveCommit "replacement parent block header is absent")
    rejectIf (header.blockHash ≠ target.hash)
      (.liveCommit "replacement parent header has the wrong canonical hash")
    let blockTimeSeconds ← okOr (u32OfInt header.blockTime)
      (.liveCommit "replacement parent block time is outside u32")
    let (frontiers, _) ← accumulator.validatedFrontiers.mapError (.liveCommitTree "")
    .ok ⟨target, blockTimeSeconds, frontiers⟩

def replacementParentCheckpoint (E : Env D) (s : RocksDbCanonicalStore D) (parent : BlockId)
    (activations : NetworkUpgradeActivations) :
    Except CanonicalStoreError CommitmentTreeCheckpoint := do
  validateActivationIdentity s activations "live replacement"
  let anchor ← s.appendAnchor
  rejectIf
    (parent.height < anchor.settledTip.height ∨
      anchor.eventFence.visibleTip.height ≤ parent.height)
    (.liveCommit
      "replacement parent must be within the admitted canonical suffix before the visible tip")
  let distance ← okOr (checkedSub anchor.eventFence.visibleTip.height parent.height)
    (.liveCommit "replacement parent exceeds tip")
  let window := s.window
  rejectIf (window < distance)
    (.liveCommit
      s!"replacement parent is {distance} blocks behind the visible tip; maximum is {window}")
  checkpointAt E s parent activations

/-! ## Replacement blocks -/

/-- One block of `validate_replacement_blocks`, from its parent and the accumulator after it. -/
def validateReplacementBlock (state : BlockId × CommitmentTreeAccumulator E.trees)
    (r : CanonicalReplacementBlock E) :
    Except CanonicalStoreError (BlockId × CommitmentTreeAccumulator E.trees) := do
  let (expectedParent, accumulator) := state
  validateLiveBlock s.workload s.buildPlan.rawBlobRetention r.block
  let expectedHeight ← okOr (nextHeight expectedParent.height)
    (.liveCommit "replacement height exceeds u32::MAX")
  let height := r.block.height
  rejectIf (r.block.height ≠ expectedHeight ∨ r.block.parentHash ≠ expectedParent.hash)
    (.liveCommit s!"replacement block {height} does not extend its admitted parent")
  let appended ← appendCompactCommitments accumulator r.block.height r.block.compactBlock
  let checkpoint ← okOr r.block.treeStateCheckpoint
    (.liveCommit "replacement block has no exact transition tree checkpoint")
  let (frontiers, rooted) ← appended.validatedFrontiers.mapError
    (.liveCommitTree "replacement commitment frontiers cannot be authenticated")
  rejectIf
    (checkpoint.blockId ≠ r.block.blockId ∨ checkpoint.tipMetadata ≠ r.block.tipMetadata ∨
      checkpoint.frontiers ≠ frontiers ∨ rooted.tipMetadata ≠ r.block.tipMetadata)
    (.liveCommit "replacement checkpoint is not derived from its admitted parent frontier")
  .ok (r.block.blockId, rooted)

def validateReplacementBlocks (blocks : List (CanonicalReplacementBlock E))
    (parent settledTip : BlockId) (activations : NetworkUpgradeActivations) :
    Except CanonicalStoreError Unit := do
  let checkpoint ← checkpointAt E s parent activations
  let accumulator ← (CommitmentTreeAccumulator.fromValidatedFrontiers E.trees parent.height
      checkpoint.frontiers activations).mapError
    (.liveCommitTree "replacement parent frontier cannot seed following")
  let (tip, _) ← loop (validateReplacementBlock s) (parent, accumulator) blocks
  rejectIf (tip.height < settledTip.height)
    (.liveCommit "replacement visible tip precedes the settled anchor")

def replacementVisibleSequence (settledTip : BlockId) (parentHeight : Nat)
    (blocks : List (CanonicalReplacementBlock E)) :
    Except CanonicalStoreError (CanonicalSequenceCheckpoint D) := do
  let sequencePrefix ← resumePersistedSequenceCheckpoint E s.db
    s.readyEvidence.sequenceCheckpoint parentHeight s.window
  rejectIf (sequencePrefix.through.height < settledTip.height)
    (.liveCommit "replacement sequence prefix precedes settled anchor")
  loop
    (fun checkpoint r => appendToSequence checkpoint r.block "replacement block count exceeds u64"
      "replacement replay bytes exceed u64")
    sequencePrefix blocks

/-! ## Displaced blocks -/

/-- One height of `capture_displaced_blocks`. -/
def captureDisplacedBlock (E : Env D) (s : RocksDbCanonicalStore D) (height : Nat) :
    Except CanonicalStoreError CanonicalDisplacedBlock := do
  let replayBytes : Bytes ← okOr (s.db.lookup (Key.blockReplay height))
    (.liveCommit "required block_replay row is absent")
  let validated ← readPersistedReplay E s.db height
  let blockId : BlockId := ⟨height, validated.replay.facts.blockHash⟩
  let rawBlockBytes : Option Bytes := s.db.lookup (Key.blockBlob height)
  let roots : Option BlockFinalNoteCommitmentRoots :=
    s.db.lookup (Key.blockFinalNoteCommitmentRoots height)
  rejectIf (rawBlockBytes.isSome ≠ s.buildPlan.rawBlobRetention.retainsBlockBlobs)
    (.liveCommit "canonical suffix raw block rows do not match admitted retention")
  match s.workload, roots with
  | .wallet, some _ =>
    .error (.liveCommit "wallet canonical suffix contains explorer-only rows")
  | .explorer, none =>
    .error (.liveCommit "explorer canonical suffix is missing archive facts")
  | .wallet, none | .explorer, some _ =>
    .ok { blockId, replayBytes, rawBlockBytes, finalNoteCommitmentRoots := roots }

def captureDisplacedBlocks (E : Env D) (s : RocksDbCanonicalStore D)
    (range : BlockHeightRange) : Except CanonicalStoreError (List CanonicalDisplacedBlock) :=
  collect (captureDisplacedBlock E s) range.heights

def blockDeletions (height : Nat) (hash : BlockHash) (ids : List TransactionId) : List Key :=
  [.blockHeader height, .blockReplay height, .compactBlock height, .blockBlob height,
    .treeStateCheckpoint height, .blockFinalNoteCommitmentRoots height, .blockHashIndex hash] ++
  ids.zipIdx.flatMap fun entry =>
    [.transactionBlob height entry.2, .transactionLocation entry.1]

/-- One height of `PreparedCanonicalDeletions::new`. -/
def prepareBlockDeletions (E : Env D) (s : RocksDbCanonicalStore D)
    (entry : Nat × CanonicalDisplacedBlock) : Except CanonicalStoreError (List Key) := do
  let (height, displaced) := entry
  let persisted ← readPersistedReplay E s.db height
  let facts := persisted.replay.facts
  rejectIf (facts.blockHash ≠ displaced.blockId.hash)
    (.liveCommit "displaced replay changed while preparing canonical deletion")
  rejectIf (u32Bound < facts.transactions.length)
    (.liveCommit "displaced transaction index exceeds u32")
  .ok (blockDeletions height facts.blockHash
    (facts.transactions.map CanonicalTransactionFacts.transactionId))

/-- `PreparedCanonicalDeletions::new`. -/
def prepareCanonicalDeletions (E : Env D) (s : RocksDbCanonicalStore D)
    (range : BlockHeightRange) (parentMetadata oldTipMetadata : ChainTipMetadata)
    (displaced : List CanonicalDisplacedBlock) : Except CanonicalStoreError (List Key) := do
  let blocks ← collect (prepareBlockDeletions E s) (range.heights.zip displaced)
  let ranges ← requiredSubtreeRootRanges parentMetadata oldTipMetadata
  .ok (blocks.flatten ++ (ranges.flatMap SubtreeRootRange.indexes).map subtreeKey)

/-! ## Preparation and commit -/

structure PreparedLiveReplacement (D : Type) where
  deletions : List Key
  replacementRows : List (List (Row (Val D)))
  archive : List (Row (Val D))
  publication : LivePublication D
  previousEpochId : Nat
  revertedRange : BlockHeightRange
  committedRange : BlockHeightRange

def prepareReplacementRows :
    ChainTipMetadata → List (CanonicalReplacementBlock E) →
      Except CanonicalStoreError (List (List (Row (Val D))))
  | _, [] => .ok []
  | previous, r :: rest => do
    let rows ← fromBlock r.block previous r.subtreeRoots
    let tail ← prepareReplacementRows r.block.tipMetadata rest
    .ok (rows :: tail)

def inclusiveCount (range : BlockHeightRange) : Except CanonicalStoreError Nat :=
  okOr ((checkedSub range.stop range.start).bind (checkedAdd u32Bound · 1))
    (.liveCommit "canonical replacement range is empty")

/-- `PreparedLiveReplacement::new`. -/
def prepareLiveReplacement (replacement : CanonicalLiveReplacement E)
    (activations : NetworkUpgradeActivations) :
    Except CanonicalStoreError (PreparedLiveReplacement D) := do
  validateActivationIdentity s activations "live replacement"
  rejectIf (replacement.expectedFence ≠ s.eventFence)
    (.liveCommit "expected canonical event fence is stale")
  let anchor ← s.appendAnchor
  let first ← okOr replacement.blocks.head?
    (.liveCommit "canonical replacement must contain at least one block")
  let firstHeight := first.block.height
  rejectIf
    (firstHeight ≤ anchor.settledTip.height ∨ s.readyEvidence.visibleTip.height < firstHeight)
    (.liveCommit
      "canonical replacement must begin after the settled tip within the visible suffix")
  let revertedRange : BlockHeightRange := ⟨firstHeight, s.readyEvidence.visibleTip.height⟩
  let displacedCount ← inclusiveCount revertedRange
  let window := s.window
  rejectIf (window < displacedCount)
    (.liveCommit s!"canonical replacement displaces {displacedCount} blocks; maximum is {window}")
  let parentHeight ← okOr (checkedSub firstHeight 1)
    (.liveCommit "canonical replacement cannot begin at height zero")
  let parentReplay ← readPersistedReplay E s.db parentHeight
  let parentId : BlockId := ⟨parentHeight, parentReplay.replay.facts.blockHash⟩
  let parentMetadata ← readPersistedTipMetadata s.db parentId
  validateReplacementBlocks s replacement.blocks parentId anchor.settledTip activations
  let last ← okOr replacement.blocks.getLast?
    (.liveCommit "canonical replacement lost its final block")
  let visibleTip := last.block.blockId
  let committedRange : BlockHeightRange := ⟨firstHeight, visibleTip.height⟩
  let visibleLag ← okOr (checkedSub visibleTip.height anchor.settledTip.height)
    (.liveCommit "replacement tip precedes settlement")
  rejectIf (window < visibleLag)
    (.liveCommit s!"replacement tip exceeds its {window}-block settlement window")
  let (epoch, sequence) ← nextLiveFence s.readyEvidence
  let displaced ← captureDisplacedBlocks E s revertedRange
  let oldTipMetadata ← readPersistedTipMetadata s.db s.readyEvidence.visibleTip
  let deletions ← prepareCanonicalDeletions E s revertedRange parentMetadata oldTipMetadata
    displaced
  let archive ← prepareDisplacedArchiveWrite E s
    { eventSequence := sequence
      displacementEpoch := epoch
      revertedRange
      displacedAt := replacement.createdAt }
    displaced
  let visible ← replacementVisibleSequence s anchor.settledTip parentHeight replacement.blocks
  let ready : CanonicalStoreReadyEvidence D :=
    { s.readyEvidence with
      visibleTip
      visibleEpoch := epoch
      visibleEventSequence := sequence
      visibleBlockCount := visible.retainedBlockCount
      visibleSequenceDigest := visible.sequenceDigest.bytes
      visibleLogicalReplayBytes := visible.logicalReplayBytes }
  let replacementRows ← prepareReplacementRows parentMetadata replacement.blocks
  .ok
    { deletions, replacementRows, archive
      publication :=
        { ready
          epoch := ⟨visibleTip, anchor.settledTip, last.block.tipMetadata, replacement.createdAt⟩
          event := liveEvent s.readyEvidence.visibleEpoch (some revertedRange) committedRange ready
          control := ⟨s.workload, s.buildPlan, ready⟩ }
      previousEpochId := s.readyEvidence.visibleEpoch
      revertedRange, committedRange }

def validateLiveReplacementPublication (db : Db D) (ready : CanonicalStoreReadyEvidence D)
    (previousEpochId : Nat) (revertedRange committedRange : BlockHeightRange) :
    Except CanonicalStoreError Unit := do
  rejectIf
    (ready.visibleEventSequence ≠ ready.visibleEpoch ∨
      ready.visibleEpoch ≠ min (previousEpochId + 1) (u64Bound - 1))
    (.publication "READY replacement epoch and chain-event sequence must advance together")
  let previousEpoch ← readChainEpoch db previousEpochId
  let currentEpoch ← readChainEpoch db ready.visibleEpoch
  let currentEvent ← readChainEvent db ready.visibleEventSequence
  validateEpochRecord db ready.firstRetainedBlock.height ready.visibleTip currentEpoch
  rejectIf
    (previousEpoch.settledTip ≠ currentEpoch.settledTip ∨ currentEvent.kind ≠ .reorg ∨
      currentEvent.resultingEpochId ≠ ready.visibleEpoch ∨
      currentEvent.previousEpochId ≠ previousEpochId ∨
      currentEvent.revertedRange ≠ some revertedRange ∨
      currentEvent.committedRange ≠ committedRange ∨
      revertedRange.stop ≠ previousEpoch.visibleTip.height ∨
      revertedRange.start ≤ previousEpoch.settledTip.height ∨
      committedRange.start ≠ revertedRange.start ∨
      committedRange.stop ≠ currentEpoch.visibleTip.height)
    (.publication "READY live transition is not one valid version-1 replacement")

/-- `PreparedCanonicalDeletions::validate_readback`: a deleted key is absent unless the
replacement put it again. -/
def validateDeletionsReadback (db : Db D) (deletions replacementKeys : List Key) :
    Except CanonicalStoreError Unit := do
  let _ ← collect
    (fun k : Key =>
      let family := k.family
      rejectIf (k ∉ replacementKeys ∧ (db.lookup k).isSome = true)
        (CanonicalStoreError.liveCommit
          s!"stale {family} row remains after canonical replacement"))
    deletions
  .ok ()

def PreparedLiveReplacement.validateReadback (E : Env D) (db : Db D)
    (plan : CanonicalStoreBuildPlan) (p : PreparedLiveReplacement D) :
    Except CanonicalStoreError Unit := do
  validateDeletionsReadback db p.deletions p.replacementRows.flatten.keys
  validateRowsReadback db p.replacementRows.flatten liveRowDiffers
  validateRowsReadback db p.archive fun _ =>
    .displacedArchive "archive row differs after atomic replacement write"
  validateRowsReadback db p.publication.rows fun _ =>
    .liveCommit "epoch, reorg event, or READY control differs after atomic replacement write"
  validateLiveReplacementPublication db p.publication.ready p.previousEpochId p.revertedRange
    p.committedRange
  validateReadySequenceCheckpoint E db plan p.publication.ready

def PreparedLiveReplacement.batch (p : PreparedLiveReplacement D) : List (Op (Val D)) :=
  p.deletions.map Op.delete ++ p.replacementRows.flatten.map Op.ofRow ++
    (p.archive.map Op.ofRow ++ p.publication.rows.map Op.ofRow)

def commitLiveReplacement (replacement : CanonicalLiveReplacement E)
    (activations : NetworkUpgradeActivations) :
    Except CanonicalStoreError (RocksDbCanonicalStore D × CanonicalEventFence D) := do
  let prepared ← prepareLiveReplacement s replacement activations
  let db := write prepared.batch s.db
  (prepared.validateReadback E db s.buildPlan).mapError .liveCommitCompletedButUnverified
  let ready := prepared.publication.ready
  .ok ({ s with db, readyEvidence := ready }, eventFenceFromReady ready)

end Zinder.Canonical
