import Zinder.Canonical.Rows
import Zinder.Canonical.Reads

/-!
# Zinder.Canonical.LiveCommit

The atomic append of one block (`live_commit.rs`).

`prepareLiveAppend` makes every check before anything is written and returns the prepared batch;
`commitLiveAppend` writes the batch, reads every row back and only then advances the admitted
evidence.
-/

namespace Zinder.Canonical

open KeyValue

variable {D : Type} [DecidableEq D] {E : Env D}

/-! ## Commitments of a compact block -/

structure BlockCommitments where
  sapling : List Bytes32
  orchard : List Bytes32
  ironwood : List Bytes32

/-- `compact_commitment_bytes`; `subject` is how the caller's error text names the block. -/
def commitmentBytes (subject : String) (height : Nat) (protocol : ShieldedProtocol)
    (bytes : Bytes) : Except CanonicalStoreError Bytes32 :=
  let name := protocol.name
  let count := bytes.length
  okOr (bytes32OfBytes bytes)
    (.liveCommit s!"{subject} {height} has a {name} commitment with {count} bytes")

def transactionCommitments (subject : String) (height : Nat) (t : CompactTransaction) :
    Except CanonicalStoreError BlockCommitments := do
  let sapling ← collect (commitmentBytes subject height .sapling) t.saplingOutputs
  let orchard ← collect (commitmentBytes subject height .orchard) t.orchardActions
  let ironwood ← collect (commitmentBytes subject height .ironwood) t.ironwoodActions
  .ok ⟨sapling, orchard, ironwood⟩

def compactCommitments (subject : String) (height : Nat) (compact : CompactBlockArtifact) :
    Except CanonicalStoreError BlockCommitments := do
  let parts ← collect (transactionCommitments subject height) compact.transactions
  .ok ⟨parts.flatMap BlockCommitments.sapling, parts.flatMap BlockCommitments.orchard,
    parts.flatMap BlockCommitments.ironwood⟩

/-! ## Preparation -/

structure CanonicalLiveAppend (E : Env D) where
  expectedFence : CanonicalEventFence D
  block : CanonicalBuildBlock E
  subtreeRoots : List CanonicalBuildSubtreeRoot
  settledTip : BlockId
  createdAt : Nat

structure LiveSettlementTransition where
  reorgWindowBlocks : Nat
  previousSettledTip : BlockId
  settledTip : BlockId
  visibleTip : BlockId

variable (s : RocksDbCanonicalStore D)

/-- The activation table must be the one the store was admitted with. -/
def validateActivationIdentity (activations : NetworkUpgradeActivations) (subject : String) :
    Except CanonicalStoreError Unit :=
  rejectIf
    (activations.network ≠ s.buildPlan.network ∨
      activations.fingerprint ≠ s.buildPlan.networkUpgradeActivationsFingerprint)
    (.liveCommit s!"{subject} activation table differs from the admitted store identity")

def validateLiveBlockExtension (ready : CanonicalStoreReadyEvidence D)
    (block : CanonicalBuildBlock E) : Except CanonicalStoreError BlockId := do
  let previousTip := ready.visibleTip
  let expectedHeight ← okOr (nextHeight previousTip.height)
    (.liveCommit "visible tip height is u32::MAX")
  let height := block.height
  let tipHeight := previousTip.height
  rejectIf (block.height ≠ expectedHeight ∨ block.parentHash ≠ previousTip.hash)
    (.liveCommit s!"block {height} does not extend visible tip {tipHeight}")
  .ok block.blockId

def validateLiveCheckpointTransition (anchor : CanonicalAppendAnchor D)
    (block : CanonicalBuildBlock E) (activations : NetworkUpgradeActivations) :
    Except CanonicalStoreError Unit := do
  let checkpoint ← okOr block.treeStateCheckpoint
    (.liveCommit "live append has no transition-tip tree checkpoint")
  let commitments ← compactCommitments "block" block.height block.compactBlock
  let seeded ← (CommitmentTreeAccumulator.fromValidatedFrontiers E.trees
      anchor.tipCheckpoint.blockId.height anchor.tipCheckpoint.frontiers activations).mapError
    (.liveCommitTree "persisted visible-tip frontier cannot seed live following")
  let appended ← (seeded.appendBlockCommitments block.height commitments.sapling
      commitments.orchard commitments.ironwood).mapError
    (.liveCommitTree "live block commitments cannot advance the persisted frontier")
  let (frontiers, accumulator) ← appended.validatedFrontiers.mapError
    (.liveCommitTree "live block commitment frontiers cannot be authenticated")
  rejectIf
    (accumulator.tipMetadata ≠ block.tipMetadata ∨ frontiers ≠ checkpoint.frontiers)
    (.liveCommit "live transition-tip checkpoint is not derived from the persisted frontier")

def validateLiveSettledTip (db : Db D) (ready : CanonicalStoreReadyEvidence D)
    (transition : LiveSettlementTransition) : Except CanonicalStoreError Unit := do
  let previous := transition.previousSettledTip
  let settled := transition.settledTip
  let visible := transition.visibleTip
  let window := transition.reorgWindowBlocks
  rejectIf (ready.sequenceCheckpoint.through ≠ previous)
    (.liveCommit "admitted sequence checkpoint does not match the previous settled tip")
  rejectIf (settled.height < previous.height ∨ visible.height < settled.height)
    (.liveCommit "settled tip must advance monotonically within visible history")
  let settledLag ← okOr (checkedSub visible.height settled.height)
    (.liveCommit "settled tip exceeds visible tip")
  rejectIf (window < settledLag)
    (.liveCommit s!"visible tip exceeds its {window}-block settlement window")
  let settlementAdvance ← okOr (checkedSub settled.height previous.height)
    (.liveCommit "settled tip regressed")
  rejectIf (window < settlementAdvance)
    (.liveCommit
      s!"settlement advance requires replaying {settlementAdvance} blocks; maximum is {window}")
  rejectIf (settled.height = previous.height ∧ settled.hash ≠ previous.hash)
    (.liveCommit "unchanged settled height must retain its canonical hash")
  if settled.height = visible.height then
    rejectIf (settled.hash ≠ visible.hash)
      (.liveCommit "settled visible tip has the wrong canonical hash")
  else
    validateSettledTip db ready.firstRetainedBlock visible settled

/-- Extending a sequence summary by one block that is not stored yet. -/
def appendToSequence (checkpoint : CanonicalSequenceCheckpoint D) (block : CanonicalBuildBlock E)
    (countError bytesError : String) :
    Except CanonicalStoreError (CanonicalSequenceCheckpoint D) := do
  let sequenceDigest ← okOr (checkpoint.sequenceDigest.tryAppend E.hash block.digest)
    (.liveCommit "canonical block facts sequence digest cannot exceed u64::MAX blocks")
  let retainedBlockCount ← okOr (checkedAdd u64Bound checkpoint.retainedBlockCount 1)
    (.liveCommit countError)
  let logicalReplayBytes ← okOr
    (checkedAdd u64Bound checkpoint.logicalReplayBytes block.replayBytes)
    (.liveCommit bytesError)
  .ok { through := block.blockId, retainedBlockCount, sequenceDigest, logicalReplayBytes }

/-- The last step of a settlement that reaches the block being appended. -/
def includeSettledBlock (transition : LiveSettlementTransition)
    (persisted : CanonicalSequenceCheckpoint D) (block : CanonicalBuildBlock E) :
    Except CanonicalStoreError (CanonicalSequenceCheckpoint D) :=
  if transition.settledTip.height = transition.visibleTip.height then
    appendToSequence persisted block "checkpoint count exceeds u64::MAX"
      "checkpoint replay bytes exceed u64::MAX"
  else .ok persisted

def advanceSettledSequenceCheckpoint (db : Db D) (ready : CanonicalStoreReadyEvidence D)
    (transition : LiveSettlementTransition) (block : CanonicalBuildBlock E) :
    Except CanonicalStoreError (CanonicalSequenceCheckpoint D) :=
  let previous := ready.sequenceCheckpoint
  if transition.settledTip = previous.through then
    .ok previous
  else do
    let persisted ← resumePersistedSequenceCheckpoint E db previous
      (min transition.settledTip.height ready.visibleTip.height) transition.reorgWindowBlocks
    let checkpoint ← includeSettledBlock transition persisted block
    rejectIf (checkpoint.through ≠ transition.settledTip)
      (.liveCommit "settled sequence checkpoint does not end at the requested settled tip")
    .ok checkpoint

def nextLiveFence (ready : CanonicalStoreReadyEvidence D) :
    Except CanonicalStoreError (Nat × Nat) := do
  let epoch ← okOr (checkedAdd u64Bound ready.visibleEpoch 1)
    (.liveCommit "chain epoch exceeds u64::MAX")
  let sequence ← okOr (checkedAdd u64Bound ready.visibleEventSequence 1)
    (.liveCommit "chain event exceeds u64::MAX")
  rejectIf (sequence ≠ epoch)
    (.liveCommit "chain epoch and event sequence do not share the version-1 fence")
  .ok (epoch, sequence)

def advanceVisibleSequence (ready : CanonicalStoreReadyEvidence D) (block : CanonicalBuildBlock E) :
    Except CanonicalStoreError (CanonicalBlockFactsSequenceDigest D × Nat) := do
  let digest ← okOr (ready.visibleDigest.tryAppend E.hash block.digest)
    (.liveCommit "canonical block facts sequence digest cannot exceed u64::MAX blocks")
  let replayBytes ← okOr (checkedAdd u64Bound ready.visibleLogicalReplayBytes block.replayBytes)
    (.liveCommit "visible replay bytes exceed u64::MAX")
  .ok (digest, replayBytes)

/-- What a live transition writes besides its block and archive rows. -/
structure LivePublication (D : Type) where
  ready : CanonicalStoreReadyEvidence D
  epoch : ChainEpochRecord
  event : ChainEventRecord D
  control : StoreControlRecord D

/-- The three publication rows close every live batch. -/
def LivePublication.rows (p : LivePublication D) : List (Row (Val D)) :=
  [⟨.chainEpoch p.ready.visibleEpoch, p.epoch⟩,
    ⟨.chainEvent p.ready.visibleEventSequence, p.event⟩,
    ⟨.storeControl, p.control⟩]

/-- `encode_live_event`: a transition with a reverted range is a reorg. -/
def liveEvent (previousEpoch : Nat) (revertedRange : Option BlockHeightRange)
    (committedRange : BlockHeightRange) (ready : CanonicalStoreReadyEvidence D) :
    ChainEventRecord D :=
  { kind := if revertedRange.isSome then .reorg else .committed
    resultingEpochId := ready.visibleEpoch
    previousEpochId := previousEpoch
    revertedRange, committedRange
    visibleTip := ready.visibleTip
    visibleBlockCount := ready.visibleBlockCount
    visibleSequenceDigest := ready.visibleSequenceDigest }

structure PreparedLiveAppendCommit (D : Type) where
  blockRows : List (Row (Val D))
  publication : LivePublication D
  previousEpochId : Nat

/-- `PreparedLiveAppendCommit::new`. -/
def prepareLiveAppend (append : CanonicalLiveAppend E) (activations : NetworkUpgradeActivations) :
    Except CanonicalStoreError (PreparedLiveAppendCommit D) := do
  validateActivationIdentity s activations "live append"
  let anchor ← s.appendAnchor
  rejectIf (append.expectedFence ≠ anchor.eventFence)
    (.liveCommit "expected canonical event fence is stale")
  validateLiveBlock s.workload s.buildPlan.rawBlobRetention append.block
  let visibleTip ← validateLiveBlockExtension s.readyEvidence append.block
  validateLiveCheckpointTransition anchor append.block activations
  let settlement : LiveSettlementTransition :=
    { reorgWindowBlocks := s.window
      previousSettledTip := anchor.settledTip
      settledTip := append.settledTip
      visibleTip }
  validateLiveSettledTip s.db s.readyEvidence settlement
  let sequenceCheckpoint ← advanceSettledSequenceCheckpoint s.db s.readyEvidence settlement
    append.block
  let (epoch, sequence) ← nextLiveFence s.readyEvidence
  let (digest, replayBytes) ← advanceVisibleSequence s.readyEvidence append.block
  let ready : CanonicalStoreReadyEvidence D :=
    { s.readyEvidence with
      visibleTip
      visibleEpoch := epoch
      visibleEventSequence := sequence
      visibleBlockCount := digest.blockCount
      visibleSequenceDigest := digest.bytes
      visibleLogicalReplayBytes := replayBytes
      sequenceCheckpoint }
  let blockRows ← fromBlock append.block anchor.tipCheckpoint.tipMetadata append.subtreeRoots
  .ok
    { blockRows
      publication :=
        { ready
          epoch := ⟨visibleTip, append.settledTip, append.block.tipMetadata, append.createdAt⟩
          event := liveEvent s.readyEvidence.visibleEpoch none
            ⟨visibleTip.height, visibleTip.height⟩ ready
          control := ⟨s.workload, s.buildPlan, ready⟩ }
      previousEpochId := s.readyEvidence.visibleEpoch }

/-! ## Commit -/

/-- `validate_readback`: every listed row is stored with the value written. -/
def validateRowsReadback (db : Db D) (rows : List (Row (Val D)))
    (failure : Key → CanonicalStoreError) : Except CanonicalStoreError Unit := do
  let _ ← collect (fun row => rejectIf (db.lookup row.1 ≠ some row.2) (failure row.1)) rows
  .ok ()

def liveRowDiffers (k : Key) : CanonicalStoreError :=
  let family := k.family
  .liveCommit s!"{family} live row differs after atomic write"

def validateLiveAppendPublication (db : Db D) (ready : CanonicalStoreReadyEvidence D)
    (previousEpochId : Nat) : Except CanonicalStoreError Unit := do
  rejectIf
    (ready.visibleEventSequence ≠ ready.visibleEpoch ∨
      ready.visibleEpoch ≠ min (previousEpochId + 1) (u64Bound - 1))
    (.publication "READY live epoch and chain-event sequence must advance together")
  let previousEpoch ← readChainEpoch db previousEpochId
  let currentEpoch ← readChainEpoch db ready.visibleEpoch
  let currentEvent ← readChainEvent db ready.visibleEventSequence
  let appendedHeight ← okOr (nextHeight previousEpoch.visibleTip.height)
    (.publication "live append height exceeds u32::MAX")
  validateEpochRecord db ready.firstRetainedBlock.height ready.visibleTip currentEpoch
  rejectIf
    (currentEpoch.visibleTip.height ≠ appendedHeight ∨ currentEvent.kind ≠ .committed ∨
      currentEvent.resultingEpochId ≠ ready.visibleEpoch ∨
      currentEvent.previousEpochId ≠ previousEpochId ∨ currentEvent.revertedRange ≠ none ∨
      currentEvent.committedRange ≠ ⟨appendedHeight, appendedHeight⟩)
    (.publication "READY live transition is not one valid version-1 append")

def validateLiveCommitReadback (E : Env D) (db : Db D) (plan : CanonicalStoreBuildPlan)
    (prepared : PreparedLiveAppendCommit D) : Except CanonicalStoreError Unit := do
  validateRowsReadback db prepared.blockRows liveRowDiffers
  validateRowsReadback db prepared.publication.rows fun _ =>
    .liveCommit "epoch, event, or READY control differs after atomic live write"
  validateLiveAppendPublication db prepared.publication.ready prepared.previousEpochId
  validateReadySequenceCheckpoint E db plan prepared.publication.ready

def commitLiveAppend (append : CanonicalLiveAppend E) (activations : NetworkUpgradeActivations) :
    Except CanonicalStoreError (RocksDbCanonicalStore D × CanonicalEventFence D) := do
  let prepared ← prepareLiveAppend s append activations
  let db := write (prepared.blockRows.map Op.ofRow ++ prepared.publication.rows.map Op.ofRow) s.db
  (validateLiveCommitReadback E db s.buildPlan prepared).mapError
    .liveCommitCompletedButUnverified
  let ready := prepared.publication.ready
  .ok ({ s with db, readyEvidence := ready }, eventFenceFromReady ready)

end Zinder.Canonical
