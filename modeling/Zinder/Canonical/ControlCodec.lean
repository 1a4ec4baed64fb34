import Zinder.Lib.ByteReader
import Zinder.Canonical.Store

/-!
# Zinder.Canonical.ControlCodec

The control record of a canonical store (`control.rs`): what a build writes before its first block,
what a publication writes with every visible epoch, and the one decoder that admits either.

The record has a prefix that fixes the build, with up to three tree frontiers of variable length, and
a tail of fixed length that is all zero until the store is READY. The decoder reads it front to back,
checks every field against those before it, and refuses bytes behind the last one.

Each version enumeration of the source has one value, so a version is a constant here. The path that
an admission error names is left out.
-/

namespace Zinder.Canonical

/-! ## The plan -/

/-- `CanonicalStoreBuildPlanError`. -/
inductive CanonicalStoreBuildPlanError where
  | zeroReorgWindowBlocks
  | missingRequiredNetworkUpgrade (name : String)
  | checkpointHasNoSuccessor
  | checkpointAtGenesis
  | invalidHistoryPredecessor
  | completeHistoryHasFrontiers
  | predecessorFrontierTooLarge (protocol : ShieldedProtocol) (encodedBytes : Nat)
  | predecessorFrontierActivationMismatch (protocol : ShieldedProtocol) (checkpointHeight : Nat)
  | buildTipPrecedesHistory (buildTip firstAvailableHeight : Nat)
deriving DecidableEq

def genesisHash : Network → BlockHash
  | .zcashMainnet =>
    ⟨[0x08, 0xce, 0x3d, 0x97, 0x31, 0xb0, 0x00, 0xc0, 0x83, 0x38, 0x45, 0x5c, 0x8a, 0x4a, 0x6b, 0xd0,
      0x5d, 0xa1, 0x6e, 0x26, 0xb1, 0x1d, 0xaa, 0x1b, 0x91, 0x71, 0x84, 0xec, 0xe8, 0x0f, 0x04, 0x00],
      rfl⟩
  | .zcashTestnet =>
    ⟨[0x38, 0x2c, 0x4a, 0x33, 0x26, 0x61, 0xc7, 0xed, 0x06, 0x71, 0xf3, 0x2a, 0x34, 0xd7, 0x24, 0x61,
      0x9f, 0x08, 0x6c, 0x61, 0x87, 0x3b, 0xce, 0x7c, 0x99, 0x85, 0x9d, 0xd9, 0x92, 0x0a, 0xa6, 0x05],
      rfl⟩
  | .zcashRegtest =>
    ⟨[0x27, 0xe3, 0x01, 0x34, 0xd6, 0x20, 0xe9, 0xfe, 0x61, 0xf7, 0x19, 0x93, 0x83, 0x20, 0xba, 0xb6,
      0x3e, 0x7e, 0x72, 0xc9, 0x1b, 0x5e, 0x23, 0x02, 0x56, 0x76, 0xf9, 0x0e, 0xd8, 0x11, 0x9f, 0x02],
      rfl⟩

namespace ControlBuildPlan

variable (plan : ControlBuildPlan)

/-- The size bound of one predecessor frontier. -/
def validateFrontier (protocol : ShieldedProtocol) : Except CanonicalStoreBuildPlanError Unit :=
  match plan.historyPredecessor.frontiers.get protocol with
  | none => .ok ()
  | some frontier =>
    rejectIf (maxCommitmentTreeFrontierFinalStateBytes < frontier.finalStateBytes.length)
      (.predecessorFrontierTooLarge protocol frontier.finalStateBytes.length)

/-- The predecessor against the history bounds. -/
def validatePredecessor : Except CanonicalStoreBuildPlanError Unit :=
  match plan.historyBounds with
  | none =>
    rejectIf (plan.historyPredecessor.blockId ≠ ⟨0, genesisHash plan.network⟩)
      .invalidHistoryPredecessor
  | some checkpoint => do
    rejectIf (plan.historyPredecessor.blockId ≠ checkpoint) .invalidHistoryPredecessor
    rejectIf (checkpoint.height = 0) .checkpointAtGenesis

def validate : Except CanonicalStoreBuildPlanError ControlBuildPlan := do
  plan.validatePredecessor
  rejectIf (plan.historyBounds = none ∧ plan.historyPredecessor.frontiers ≠ .absent)
    .completeHistoryHasFrontiers
  plan.validateFrontier .sapling
  plan.validateFrontier .orchard
  plan.validateFrontier .ironwood
  rejectIf (plan.buildTip.height < plan.historyBounds.firstAvailableHeight)
    (.buildTipPrecedesHistory plan.buildTip.height plan.historyBounds.firstAvailableHeight)
  .ok plan

end ControlBuildPlan

/-! ## READY evidence -/

structure ControlReadyEvidence where
  evidence : CanonicalStoreReadyEvidence Bytes32
  constructionManifestVersion : Nat
  constructionManifestSha256 : Bytes32
deriving DecidableEq

inductive CanonicalStoreBuildState where
  | building
  | ready (evidence : ControlReadyEvidence)
deriving DecidableEq

structure DecodedStoreControl where
  network : Network
  workload : CanonicalStoreWorkload
  buildPlan : ControlBuildPlan
  cursorAuthKey : Bytes32
  buildState : CanonicalStoreBuildState
deriving DecidableEq

/-! ## Encoding -/

/-- The bytes of `"canonical"`. -/
def canonicalStoreIdentity : Bytes := [99, 97, 110, 111, 110, 105, 99, 97, 108]

def canonicalStoreSchemaVersion : Nat := 7

def canonicalConstructionManifestFormatVersion : Nat := 4

/-- The value of every contract version. -/
def contractVersion : Nat := 1

def readyFieldsLength : Nat :=
  4 + 32 + 4 + 32 + 8 + 8 + 8 + 2 + 4 + 2 + 32 + 8 + 4 + 32 + 8 + 2 + 32 + 8 + 2 + 32

def workloadCode : CanonicalStoreWorkload → UInt8
  | .wallet => 1
  | .explorer => 2

def retentionCode : RawBlobRetention → UInt8
  | .none => 0
  | .transactions => 1
  | .all => 2

def completeHistory : UInt8 := 0

def checkpointedHistory : UInt8 := 1

def frontierAbsent : UInt8 := 0

def frontierPresent : UInt8 := 1

def buildingState : UInt8 := 1

def readyState : UInt8 := 2

/-- One pool of `encode_predecessor_frontiers`. -/
def encodeFrontier (protocol : ShieldedProtocol) :
    Option CommitmentTreeFrontier → Except CanonicalStoreBuildPlanError Bytes
  | none => .ok [frontierAbsent]
  | some frontier => do
    rejectIf (2 ^ 16 ≤ frontier.finalStateBytes.length)
      (.predecessorFrontierTooLarge protocol frontier.finalStateBytes.length)
    .ok ([frontierPresent] ++ (frontier.finalRoot.bytes ++
      (LittleEndian.toBytes 2 frontier.finalStateBytes.length ++ frontier.finalStateBytes)))

def encodePredecessorFrontiers (frontiers : CommitmentTreeFrontiers) :
    Except CanonicalStoreBuildPlanError Bytes := do
  let sapling ← encodeFrontier .sapling frontiers.sapling
  let orchard ← encodeFrontier .orchard frontiers.orchard
  let ironwood ← encodeFrontier .ironwood frontiers.ironwood
  .ok (sapling ++ (orchard ++ ironwood))

def encodeBlockId (block : BlockId) : Bytes :=
  LittleEndian.toBytes 4 block.height ++ block.hash.bytes

/-- The history kind with the block before the retained history. -/
def encodeHistoryKind (bounds : HistoryBounds) (predecessor : BlockId) : Bytes :=
  match bounds with
  | none => completeHistory :: encodeBlockId predecessor
  | some checkpoint => checkpointedHistory :: encodeBlockId checkpoint

variable (workload : CanonicalStoreWorkload) (plan : ControlBuildPlan) (cursorAuthKey : Bytes32)

def encodeStoreControlPrefix : Except CanonicalStoreBuildPlanError Bytes := do
  let frontiers ← encodePredecessorFrontiers plan.historyPredecessor.frontiers
  .ok (canonicalStoreIdentity ++ (LittleEndian.toBytes 2 canonicalStoreSchemaVersion ++
    (LittleEndian.toBytes 4 plan.network.id ++ (LittleEndian.toBytes 2 contractVersion ++
      (plan.networkUpgradeActivationsFingerprint.bytes ++ ([workloadCode workload] ++
        ([retentionCode plan.rawBlobRetention] ++
        (LittleEndian.toBytes 4 plan.reorgWindowBlocks ++
          (encodeHistoryKind plan.historyBounds plan.historyPredecessor.blockId ++
            (LittleEndian.toBytes 4 plan.historyPredecessor.blockTimeSeconds ++ (frontiers ++
              (encodeBlockId plan.buildTip ++ cursorAuthKey.bytes))))))))))))

def encodeBuildingStoreControl : Except CanonicalStoreBuildPlanError Bytes := do
  let encoded ← encodeStoreControlPrefix workload plan cursorAuthKey
  .ok (encoded ++ (buildingState :: List.replicate readyFieldsLength 0))

def encodeSequenceCheckpoint (checkpoint : CanonicalSequenceCheckpoint Bytes32) : Bytes :=
  encodeBlockId checkpoint.through ++ (LittleEndian.toBytes 8 checkpoint.retainedBlockCount ++
    (LittleEndian.toBytes 2 contractVersion ++ (checkpoint.sequenceDigest.bytes.bytes ++
      LittleEndian.toBytes 8 checkpoint.logicalReplayBytes)))

def encodeReadyFields (ready : ControlReadyEvidence) : Bytes :=
  encodeBlockId ready.evidence.firstRetainedBlock ++ (encodeBlockId ready.evidence.visibleTip ++
    (LittleEndian.toBytes 8 ready.evidence.visibleEpoch ++
      (LittleEndian.toBytes 8 ready.evidence.visibleEventSequence ++
        (LittleEndian.toBytes 8 ready.evidence.visibleBlockCount ++
          (LittleEndian.toBytes 2 contractVersion ++ (LittleEndian.toBytes 4 contractVersion ++
            (LittleEndian.toBytes 2 contractVersion ++ (ready.evidence.visibleSequenceDigest.bytes ++
              (LittleEndian.toBytes 8 ready.evidence.visibleLogicalReplayBytes ++
                (encodeSequenceCheckpoint ready.evidence.sequenceCheckpoint ++
                  (LittleEndian.toBytes 2 ready.constructionManifestVersion ++
                    ready.constructionManifestSha256.bytes)))))))))))

def encodeReadyStoreControl (ready : ControlReadyEvidence) :
    Except CanonicalStoreBuildPlanError Bytes := do
  let encoded ← encodeStoreControlPrefix workload plan cursorAuthKey
  .ok (encoded ++ (readyState :: encodeReadyFields ready))

/-- The record of a control state, by whichever of the two encoders writes it. -/
def encodeStoreControl (control : DecodedStoreControl) :
    Except CanonicalStoreBuildPlanError Bytes :=
  match control.buildState with
  | .building => encodeBuildingStoreControl control.workload control.buildPlan control.cursorAuthKey
  | .ready evidence =>
    encodeReadyStoreControl control.workload control.buildPlan control.cursorAuthKey evidence

/-! ## Decoding -/

/-- Why a record is refused. An error the source formats into its text is kept as the value it is
formatted from. -/
inductive StoreControlError where
  | admission (reason : String)
  | unsupportedVersion (field : String) (encodedVersion : Nat)
  | buildPlan (source : CanonicalStoreBuildPlanError)
  | historyCheckpointHasNoSuccessor
  | predecessorFrontier (protocol : ShieldedProtocol) (source : CommitmentTreeFrontierValidationError)
deriving DecidableEq

abbrev ControlReader := ByteReader StoreControlError

section Decoder

open ByteReader

variable (field : String)

def truncatedField : StoreControlError :=
  .admission s!"store control {field} is truncated"

def ControlReader.readU8 : ControlReader UInt8 := byte (truncatedField field)

def ControlReader.readU16 : ControlReader Nat := littleEndian 2 (truncatedField field)

def ControlReader.readU32 : ControlReader Nat := littleEndian 4 (truncatedField field)

def ControlReader.readU64 : ControlReader Nat := littleEndian 8 (truncatedField field)

def readArray32 : ControlReader Bytes32 := do
  let bytes ← array 32 (truncatedField field)
  pure ⟨bytes.bytes, bytes.length_eq⟩

def check (bad : Prop) [Decidable bad] (e : StoreControlError) : ControlReader Unit :=
  lift (rejectIf bad e)

/-- A version that has to be the one there is. -/
def readVersion (width : Nat) (field : String) : ControlReader Unit := do
  let version ← littleEndian width (truncatedField field)
  check (version ≠ contractVersion) (.unsupportedVersion field version)

def workloadOf (code : UInt8) : Option CanonicalStoreWorkload :=
  if code = 1 then some .wallet else if code = 2 then some .explorer else none

def retentionOf (code : UInt8) : Option RawBlobRetention :=
  if code = 0 then some .none else if code = 1 then some .transactions
  else if code = 2 then some .all else none

def readBlockId (heightField hashField : String) : ControlReader BlockId := do
  let height ← ControlReader.readU32 heightField
  let hash ← readArray32 hashField
  pure ⟨height, hash⟩

def historyBoundsOf (kind : UInt8) (predecessor : BlockId) :
    Except StoreControlError HistoryBounds :=
  if kind = completeHistory then do
    rejectIf (predecessor.height ≠ 0)
      (.admission "complete history predecessor must be the height-zero block")
    .ok none
  else if kind = checkpointedHistory then do
    rejectIf (nextHeight predecessor.height = none) .historyCheckpointHasNoSuccessor
    .ok (some predecessor)
  else
    .error (.admission (toString "store control contains unknown history kind " ++ toString kind))

variable (T : TreeLibrary)

/-- `decode_predecessor_frontier`. -/
def readPredecessorFrontier (protocol : ShieldedProtocol) :
    ControlReader (Option CommitmentTreeFrontier) := do
  let presence ← ControlReader.readU8 "history predecessor frontier presence"
  if presence = frontierAbsent then pure none
  else if presence = frontierPresent then do
    let finalRoot ← readArray32 "history predecessor frontier root"
    let length ← ControlReader.readU16 "history predecessor frontier finalState length"
    let name := protocol.name
    check (maxCommitmentTreeFrontierFinalStateBytes < length)
      (.admission s!"store control {name} predecessor frontier finalState is {length} bytes; maximum is {maxCommitmentTreeFrontierFinalStateBytes}")
    let finalState ← take length (truncatedField "history predecessor frontier finalState bytes")
    let frontier ← lift ((CommitmentTreeFrontier.fromCanonicalFinalState T protocol finalRoot
      finalState).mapError (.predecessorFrontier protocol))
    pure (some frontier)
  else
    let name := protocol.name
    lift (.error (.admission s!"store control contains unknown {name} predecessor frontier presence {presence}"))

/-- `decode_history_bounds`. -/
def readHistoryBounds : ControlReader (HistoryBounds × CommitmentTreeCheckpoint) := do
  let kind ← ControlReader.readU8 "history kind"
  let predecessor ← readBlockId "history predecessor height" "history predecessor hash"
  let bounds ← lift (historyBoundsOf kind predecessor)
  let blockTimeSeconds ← ControlReader.readU32 "history predecessor block time"
  let sapling ← readPredecessorFrontier T .sapling
  let orchard ← readPredecessorFrontier T .orchard
  let ironwood ← readPredecessorFrontier T .ironwood
  pure (bounds, ⟨predecessor, blockTimeSeconds, ⟨sapling, orchard, ironwood⟩⟩)

/-- The block count of an inclusive height range. -/
def heightSpan (first last : Nat) : Option Nat := (checkedSub last first).map (· + 1)

/-- `decode_sequence_checkpoint`. -/
def readSequenceCheckpoint (firstHeight visibleTipHeight visibleLogicalReplayBytes : Nat) :
    ControlReader (CanonicalSequenceCheckpoint Bytes32) := do
  let through ← readBlockId "checkpoint through height" "checkpoint through hash"
  let retainedBlockCount ← ControlReader.readU64 "checkpoint retained block count"
  readVersion 2 "checkpoint sequence digest version"
  let digest ← readArray32 "checkpoint sequence digest"
  let logicalReplayBytes ← ControlReader.readU64 "checkpoint logical replay bytes"
  check (visibleTipHeight < through.height ∨
      heightSpan firstHeight through.height ≠ some retainedBlockCount ∨ logicalReplayBytes = 0 ∨
      visibleLogicalReplayBytes < logicalReplayBytes)
    (.admission "ready store control has an invalid sequence checkpoint")
  pure ⟨through, retainedBlockCount, ⟨retainedBlockCount, digest⟩, logicalReplayBytes⟩

/-- The epoch pointer of READY evidence: epoch 1 is the baseline, whose tip is the build tip; later
epochs are live. -/
def PointerExact (buildTip : BlockId) (epoch eventSequence : Nat) (tip : BlockId) : Prop :=
  epoch = 1 ∧ eventSequence = 1 ∧ tip = buildTip ∨ 1 < epoch ∧ eventSequence = epoch

instance (buildTip : BlockId) (epoch eventSequence : Nat) (tip : BlockId) :
    Decidable (PointerExact buildTip epoch eventSequence tip) :=
  inferInstanceAs (Decidable (_ ∨ _))

structure ReadyPosition where
  first : BlockId
  tip : BlockId
  epoch : Nat
  eventSequence : Nat
  blockCount : Nat

def readReadyPosition : ControlReader ReadyPosition := do
  let first ← readBlockId "first height" "first hash"
  let tip ← readBlockId "visible tip height" "visible tip hash"
  let epoch ← ControlReader.readU64 "visible epoch"
  let eventSequence ← ControlReader.readU64 "visible event sequence"
  let blockCount ← ControlReader.readU64 "visible block count"
  pure ⟨first, tip, epoch, eventSequence, blockCount⟩

def readContractVersions : ControlReader Unit := do
  readVersion 2 "block digest version"
  readVersion 4 "replay format version"
  readVersion 2 "sequence digest version"

def readManifestBinding : ControlReader (Nat × Bytes32) := do
  let version ← ControlReader.readU16 "construction manifest version"
  let sha256 ← readArray32 "construction manifest digest"
  pure (version, sha256)

variable (firstAvailableHeight : Nat) (buildTip : BlockId)

/-- The checks of `decode_ready_evidence` over all of its fields. -/
def validateReady (position : ReadyPosition)
    (replayBytes : Nat) (manifest : Nat × Bytes32) : Except StoreControlError Unit := do
  rejectIf (position.first.height ≠ firstAvailableHeight ∨
      ¬ PointerExact buildTip position.epoch position.eventSequence position.tip ∨
      heightSpan position.first.height position.tip.height ≠ some position.blockCount)
    (.admission "ready store control has an invalid chain position")
  rejectIf (replayBytes = 0) (.admission "ready store control is missing validation evidence")
  rejectIf (manifest.1 ≠ canonicalConstructionManifestFormatVersion ∨
      ∀ b ∈ manifest.2.bytes, b = 0)
    (.admission "ready store control has an unsupported contract version")

/-- `decode_ready_evidence`. -/
def readReadyEvidence : ControlReader ControlReadyEvidence := do
  let position ← readReadyPosition
  readContractVersions
  let digest ← readArray32 "visible sequence digest"
  let replayBytes ← ControlReader.readU64 "visible logical replay bytes"
  let checkpoint ← readSequenceCheckpoint position.first.height position.tip.height replayBytes
  let manifest ← readManifestBinding
  lift (validateReady firstAvailableHeight buildTip position replayBytes manifest)
  pure ⟨⟨position.first, position.tip, position.epoch, position.eventSequence, position.blockCount,
    digest, replayBytes, checkpoint⟩, manifest.1, manifest.2⟩

/-- `reject_nonzero_building_fields`. -/
def readBuildingFields : ControlReader Unit := do
  let fields ← take readyFieldsLength (truncatedField "reserved ready fields")
  check (∃ b ∈ fields, b ≠ 0) (.admission "building store control contains ready-state evidence")

def readBuildState : ControlReader CanonicalStoreBuildState := do
  let state ← ControlReader.readU8 "build state"
  if state = buildingState then do
    readBuildingFields
    pure .building
  else if state = readyState then do
    let evidence ← readReadyEvidence firstAvailableHeight buildTip
    pure (.ready evidence)
  else
    lift (.error (.admission (toString "store control contains unknown build state " ++ toString state)))

def readStoreIdentity : ControlReader Unit := do
  let identity ← take canonicalStoreIdentity.length (truncatedField "identity")
  check (identity ≠ canonicalStoreIdentity) (.admission "store identity must be exactly \"canonical\"")
  let schemaVersion ← ControlReader.readU16 "schema version"
  check (schemaVersion ≠ canonicalStoreSchemaVersion)
    (.admission s!"store schema version {schemaVersion} does not equal required version {canonicalStoreSchemaVersion}")

def readNetwork : ControlReader Network := do
  let networkId ← ControlReader.readU32 "network"
  lift (okOr (Network.fromId networkId)
    (.admission s!"store control contains unknown network id {networkId}"))

/-- `decode_network_upgrade_activations_fingerprint`. -/
def readFingerprint : ControlReader Bytes32 := do
  readVersion 2 "network upgrade activations fingerprint version"
  readArray32 "network upgrade activations fingerprint"

def readWorkload : ControlReader CanonicalStoreWorkload := do
  let workload ← ControlReader.readU8 "workload"
  lift (okOr (workloadOf workload)
    (.admission s!"store control contains unknown workload {workload}"))

/-- `decode_raw_blob_retention`. -/
def readRawBlobRetention : ControlReader RawBlobRetention := do
  let retention ← ControlReader.readU8 "raw blob retention"
  lift (okOr (retentionOf retention)
    (.admission s!"store control contains unknown raw blob retention {retention}"))

def readReorgWindowBlocks : ControlReader Nat := do
  let reorgWindowBlocks ← ControlReader.readU32 "reorg window blocks"
  check (reorgWindowBlocks = 0) (.buildPlan .zeroReorgWindowBlocks)
  pure reorgWindowBlocks

structure ControlHeader where
  network : Network
  fingerprint : Bytes32
  workload : CanonicalStoreWorkload
  rawBlobRetention : RawBlobRetention
  reorgWindowBlocks : Nat

def readControlHeader : ControlReader ControlHeader := do
  readStoreIdentity
  let network ← readNetwork
  let fingerprint ← readFingerprint
  let workload ← readWorkload
  let rawBlobRetention ← readRawBlobRetention
  let reorgWindowBlocks ← readReorgWindowBlocks
  pure ⟨network, fingerprint, workload, rawBlobRetention, reorgWindowBlocks⟩

/-- The fields of `decode_store_control` up to the last one. -/
def readStoreControl : ControlReader DecodedStoreControl := do
  let header ← readControlHeader
  let history ← readHistoryBounds T
  let buildTip ← readBlockId "build tip height" "build tip hash"
  let plan ← lift ((ControlBuildPlan.validate
    { network := header.network
      networkUpgradeActivationsFingerprint := header.fingerprint
      rawBlobRetention := header.rawBlobRetention
      reorgWindowBlocks := header.reorgWindowBlocks
      historyBounds := history.1
      historyPredecessor := history.2
      buildTip }).mapError .buildPlan)
  let cursorAuthKey ← readArray32 "cursor authentication key"
  let buildState ← readBuildState history.1.firstAvailableHeight buildTip
  pure ⟨header.network, header.workload, plan, cursorAuthKey, buildState⟩

def decodeStoreControl (encoded : Bytes) : Except StoreControlError DecodedStoreControl := do
  let (control, rest) ← readStoreControl T encoded
  let trailing := rest.length
  rejectIf (rest ≠ []) (.admission s!"store control contains {trailing} trailing bytes")
  .ok control

end Decoder

end Zinder.Canonical
