import Zinder.Lib.KeyValue
import Zinder.Core.Replay
import Zinder.Core.CommitmentTree

/-!
# Zinder.Canonical.Store

The state of a READY canonical store: its rows, its build plan, and the evidence record that
summarises the visible chain.

A row key names its column family and position; `Val` gives the type of the value under it. The
source keeps every value in a fixed encoding and decodes it on each read; here a value is held
decoded, except for the replay rows, whose bytes are counted and decoded by the code modelled
below.
-/

namespace Zinder.Canonical

open KeyValue

/-- The library code the canonical store runs on. -/
structure Env (D : Type) where
  hash : FactsHash D
  replay : ReplayCodec D
  trees : TreeLibrary

/-- Store errors. An error the source formats into its text is kept as the value it is formatted
from. -/
inductive CanonicalStoreError where
  | liveCommit (reason : String)
  | liveCommitTree (reason : String) (source : CommitmentTreeAccumulatorError)
  | blockLoadSequence (reason : String)
  | blockReplaySequence (reason : String)
  | blockReplayInvalid (height : Nat) (reason : String)
  | blockReplayUndecodable (height : Nat) (source : CanonicalBlockReplayDecodeError)
  | subtreeRootSequence (reason : String)
  | displacedArchive (reason : String)
  | displacedArchiveReplay (reason : String) (source : CanonicalBlockReplayDecodeError)
  | publication (reason : String)
  | sourceTipCheckpoint (reason : String)
  | liveCommitCompletedButUnverified (source : CanonicalStoreError)
deriving DecidableEq

inductive CanonicalStoreWorkload where
  | wallet
  | explorer
deriving DecidableEq

inductive RawBlobRetention where
  | none
  | transactions
  | all
deriving DecidableEq

def RawBlobRetention.asKebabCase : RawBlobRetention → String
  | .none => "none"
  | .transactions => "transactions"
  | .all => "all"

def RawBlobRetention.retainsTransactionBlobs : RawBlobRetention → Bool
  | .none => false
  | .transactions => true
  | .all => true

def RawBlobRetention.retainsBlockBlobs : RawBlobRetention → Bool
  | .none => false
  | .transactions => false
  | .all => true

/-- Tree-state checkpoints are kept at every multiple of this height. -/
def treeStateCheckpointStride : Nat := 100

/-- `CanonicalHistoryBounds`: the checkpoint before the retained history, if it is not complete. -/
abbrev HistoryBounds := Option BlockId

def HistoryBounds.firstAvailableHeight : HistoryBounds → Nat
  | none => 1
  | some checkpoint => checkpoint.height + 1

/-- The fields of a plan, as the control record keeps them. -/
structure ControlBuildPlan where
  network : Network
  networkUpgradeActivationsFingerprint : Bytes32
  rawBlobRetention : RawBlobRetention
  reorgWindowBlocks : Nat
  historyBounds : HistoryBounds
  historyPredecessor : CommitmentTreeCheckpoint
  buildTip : BlockId
deriving DecidableEq

/-- The immutable plan of a store. Admission checks that the reorg window is positive, that the
history starts behind its predecessor and that the build tip does not precede it. -/
structure CanonicalStoreBuildPlan extends ControlBuildPlan where
  reorgWindowBlocks_pos : 0 < reorgWindowBlocks
  reorgWindowBlocks_lt : reorgWindowBlocks < u32Bound
  firstAvailable : historyBounds.firstAvailableHeight = historyPredecessor.blockId.height + 1
  predecessor_lt_buildTip : historyPredecessor.blockId.height < buildTip.height
deriving DecidableEq

/-! ## Evidence -/

/-- The authenticated prefix of the replay sequence through one block. -/
structure CanonicalSequenceCheckpoint (D : Type) where
  through : BlockId
  retainedBlockCount : Nat
  sequenceDigest : CanonicalBlockFactsSequenceDigest D
  logicalReplayBytes : Nat
deriving DecidableEq

structure CanonicalStoreReadyEvidence (D : Type) where
  firstRetainedBlock : BlockId
  visibleTip : BlockId
  visibleEpoch : Nat
  visibleEventSequence : Nat
  visibleBlockCount : Nat
  visibleSequenceDigest : D
  visibleLogicalReplayBytes : Nat
  sequenceCheckpoint : CanonicalSequenceCheckpoint D
deriving DecidableEq

def CanonicalStoreReadyEvidence.visibleDigest {D : Type} (e : CanonicalStoreReadyEvidence D) :
    CanonicalBlockFactsSequenceDigest D :=
  ⟨e.visibleBlockCount, e.visibleSequenceDigest⟩

structure CanonicalEventFence (D : Type) where
  chainEpochId : Nat
  chainEventSequence : Nat
  visibleTip : BlockId
  sequenceDigest : CanonicalBlockFactsSequenceDigest D
deriving DecidableEq

def eventFenceFromReady {D : Type} (e : CanonicalStoreReadyEvidence D) : CanonicalEventFence D :=
  { chainEpochId := e.visibleEpoch
    chainEventSequence := e.visibleEventSequence
    visibleTip := e.visibleTip
    sequenceDigest := e.visibleDigest }

/-! ## Rows -/

structure TransactionLocation where
  transactionId : TransactionId
  blockHeight : Nat
  blockHash : BlockHash
  txIndexInBlock : Nat
deriving DecidableEq

structure TransactionBlobArtifact where
  location : TransactionLocation
  rawTransactionBytes : Bytes
deriving DecidableEq

structure BlockBlobArtifact where
  height : Nat
  blockHash : BlockHash
  parentHash : BlockHash
  rawBlockBytes : Bytes
deriving DecidableEq

structure BlockFinalNoteCommitmentRoots where
  height : Nat
  blockHash : BlockHash
  sapling : Option Bytes32
  orchard : Option Bytes32
  ironwood : Option Bytes32
deriving DecidableEq

structure SubtreeRootValue where
  rootHash : Bytes32
  completingBlockHeight : Nat
  completingBlockHash : BlockHash
deriving DecidableEq

/-- One source-authenticated completed subtree root. -/
structure CanonicalBuildSubtreeRoot where
  protocol : ShieldedProtocol
  subtreeIndex : Nat
  rootHash : Bytes32
  completingBlockHeight : Nat
deriving DecidableEq

structure SubtreeRootArtifact where
  protocol : ShieldedProtocol
  subtreeIndex : Nat
  value : SubtreeRootValue
deriving DecidableEq

def SubtreeRootArtifact.position (a : SubtreeRootArtifact) : ShieldedProtocol × Nat :=
  (a.protocol, a.subtreeIndex)

structure ChainEpochRecord where
  visibleTip : BlockId
  settledTip : BlockId
  tipMetadata : ChainTipMetadata
  createdAt : Nat
deriving DecidableEq

inductive ChainEventKind where
  | committed
  | reorg
deriving DecidableEq

structure ChainEventRecord (D : Type) where
  kind : ChainEventKind
  resultingEpochId : Nat
  previousEpochId : Nat
  revertedRange : Option BlockHeightRange
  committedRange : BlockHeightRange
  visibleTip : BlockId
  visibleBlockCount : Nat
  visibleSequenceDigest : D
deriving DecidableEq

structure StoreControlRecord (D : Type) where
  workload : CanonicalStoreWorkload
  plan : CanonicalStoreBuildPlan
  ready : CanonicalStoreReadyEvidence D
deriving DecidableEq

structure ArchiveState where
  activationEventSequence : Nat
  activationEpoch : Nat
  activatedAt : Nat
  blockCount : Nat
  latestEventSequence : Nat
deriving DecidableEq

structure ArchivePosition where
  eventSequence : Nat
  height : Nat
  blockHash : BlockHash
deriving DecidableEq

structure ArchiveEventContext where
  eventSequence : Nat
  revertedRange : BlockHeightRange
  displacementEpoch : Nat
  displacedAt : Nat
  rowCount : Nat
  cumulativeBlockCount : Nat
deriving DecidableEq

structure ArchiveRecord where
  replayBytes : Bytes
  displacementEpoch : Nat
  displacedAt : Nat
  rawBlockBytes : Option Bytes
  finalNoteCommitmentRoots : Option BlockFinalNoteCommitmentRoots
deriving DecidableEq

/-- A column family and a position in it. -/
inductive Key where
  | blockHeader (height : Nat)
  | blockReplay (height : Nat)
  | compactBlock (height : Nat)
  | blockHashIndex (hash : BlockHash)
  | transactionLocation (id : TransactionId)
  | transactionBlob (height index : Nat)
  | blockBlob (height : Nat)
  | treeStateCheckpoint (height : Nat)
  | blockFinalNoteCommitmentRoots (height : Nat)
  | subtreeRoot (protocol : ShieldedProtocol) (index : Nat)
  | chainEpoch (id : Nat)
  | chainEvent (sequence : Nat)
  | storeControl
  | displacedState
  | displacedOrder (position : ArchivePosition)
  | displacedHashPointer (hash : BlockHash)
  | displacedEventContext (sequence : Nat)
deriving DecidableEq

@[reducible] def Val (D : Type) : Key → Type
  | .blockHeader _ => BlockHeaderArtifact
  | .blockReplay _ => Bytes
  | .compactBlock _ => CompactBlockArtifact
  | .blockHashIndex _ => Nat
  | .transactionLocation _ => TransactionLocation
  | .transactionBlob _ _ => Bytes
  | .blockBlob _ => Bytes
  | .treeStateCheckpoint _ => Nat × CommitmentTreeFrontiers
  | .blockFinalNoteCommitmentRoots _ => BlockFinalNoteCommitmentRoots
  | .subtreeRoot _ _ => SubtreeRootValue
  | .chainEpoch _ => ChainEpochRecord
  | .chainEvent _ => ChainEventRecord D
  | .storeControl => StoreControlRecord D
  | .displacedState => ArchiveState
  | .displacedOrder _ => ArchiveRecord
  | .displacedHashPointer _ => ArchivePosition
  | .displacedEventContext _ => ArchiveEventContext

instance {D : Type} [DecidableEq D] (k : Key) : DecidableEq (Val D k) :=
  match k with
  | .blockHeader _ => inferInstanceAs (DecidableEq BlockHeaderArtifact)
  | .blockReplay _ => inferInstanceAs (DecidableEq Bytes)
  | .compactBlock _ => inferInstanceAs (DecidableEq CompactBlockArtifact)
  | .blockHashIndex _ => inferInstanceAs (DecidableEq Nat)
  | .transactionLocation _ => inferInstanceAs (DecidableEq TransactionLocation)
  | .transactionBlob _ _ => inferInstanceAs (DecidableEq Bytes)
  | .blockBlob _ => inferInstanceAs (DecidableEq Bytes)
  | .treeStateCheckpoint _ => inferInstanceAs (DecidableEq (Nat × CommitmentTreeFrontiers))
  | .blockFinalNoteCommitmentRoots _ =>
    inferInstanceAs (DecidableEq BlockFinalNoteCommitmentRoots)
  | .subtreeRoot _ _ => inferInstanceAs (DecidableEq SubtreeRootValue)
  | .chainEpoch _ => inferInstanceAs (DecidableEq ChainEpochRecord)
  | .chainEvent _ => inferInstanceAs (DecidableEq (ChainEventRecord D))
  | .storeControl => inferInstanceAs (DecidableEq (StoreControlRecord D))
  | .displacedState => inferInstanceAs (DecidableEq ArchiveState)
  | .displacedOrder _ => inferInstanceAs (DecidableEq ArchiveRecord)
  | .displacedHashPointer _ => inferInstanceAs (DecidableEq ArchivePosition)
  | .displacedEventContext _ => inferInstanceAs (DecidableEq ArchiveEventContext)

/-- The column family of a key, by its RocksDB name. -/
def Key.family : Key → String
  | .blockHeader _ => "block_header"
  | .blockReplay _ => "block_replay"
  | .compactBlock _ => "compact_block"
  | .blockHashIndex _ => "block_hash_index"
  | .transactionLocation _ => "transaction_location"
  | .transactionBlob _ _ => "transaction_blob"
  | .blockBlob _ => "block_blob"
  | .treeStateCheckpoint _ => "tree_state_checkpoint"
  | .blockFinalNoteCommitmentRoots _ => "block_final_note_commitment_roots"
  | .subtreeRoot _ _ => "subtree_root"
  | .chainEpoch _ => "chain_epoch"
  | .chainEvent _ => "chain_event"
  | .storeControl => "default"
  | .displacedState | .displacedOrder _ | .displacedHashPointer _
  | .displacedEventContext _ => "displaced_block_facts"

/-- The column families that hold block rows. -/
def Key.isBlockFamily : Key → Bool
  | .blockHeader _ | .blockReplay _ | .compactBlock _ | .blockHashIndex _
  | .transactionLocation _ | .transactionBlob _ _ | .blockBlob _ | .treeStateCheckpoint _
  | .blockFinalNoteCommitmentRoots _ | .subtreeRoot _ _ => true
  | .chainEpoch _ | .chainEvent _ | .storeControl | .displacedState | .displacedOrder _
  | .displacedHashPointer _ | .displacedEventContext _ => false

/-- The displaced-block archive shares one column family. -/
def Key.isArchive : Key → Bool
  | .displacedState | .displacedOrder _ | .displacedHashPointer _
  | .displacedEventContext _ => true
  | _ => false

abbrev Db (D : Type) := Rows (Val D)

/-! ## Blocks and the store -/

section Store

variable {D : Type}

/-- One block prepared for the canonical store. -/
structure CanonicalBuildBlock (E : Env D) where
  facts : CanonicalBlockFacts
  replayEnvelope : CanonicalBlockReplayEnvelope E.hash E.replay
  compactBlock : CompactBlockArtifact
  tipMetadata : ChainTipMetadata
  treeStateCheckpoint : Option CommitmentTreeCheckpoint
  blockFinalNoteCommitmentRoots : Option BlockFinalNoteCommitmentRoots
  transactionBlobs : List TransactionBlobArtifact
  blockBlob : Option BlockBlobArtifact

namespace CanonicalBuildBlock

variable {E : Env D}

variable (b : CanonicalBuildBlock E)

def height : Nat := b.facts.height

def hash : BlockHash := b.facts.blockHash

def parentHash : BlockHash := b.facts.parentHash

def blockId : BlockId := b.facts.blockId

def digest : D := E.hash.digest b.facts

def replayBytes : Nat := b.replayEnvelope.bytes.length

/-- The replay envelope encodes the block's own facts. Block preparation builds it so; the store
compares the digests only. -/
def OwnEnvelope : Prop :=
  b.replayEnvelope.toReplayFields = encodeCanonicalBlockReplay E.hash E.replay b.facts

@[simp] theorem blockId_height : b.blockId.height = b.height := rfl

@[simp] theorem blockId_hash : b.blockId.hash = b.hash := rfl

end CanonicalBuildBlock

/-- An admitted READY store. -/
structure RocksDbCanonicalStore (D : Type) where
  db : Db D
  workload : CanonicalStoreWorkload
  buildPlan : CanonicalStoreBuildPlan
  readyEvidence : CanonicalStoreReadyEvidence D

namespace RocksDbCanonicalStore

def eventFence (s : RocksDbCanonicalStore D) : CanonicalEventFence D :=
  eventFenceFromReady s.readyEvidence

def window (s : RocksDbCanonicalStore D) : Nat := s.buildPlan.reorgWindowBlocks

end RocksDbCanonicalStore

end Store

end Zinder.Canonical
