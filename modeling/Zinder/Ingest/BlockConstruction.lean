import Zinder.Canonical.LiveCommit

/-!
# Zinder.Ingest.BlockConstruction

From a source block to a canonical build block (`artifact_builder.rs`, and
`compact_block_commitments` of `construction.rs`).

Consensus deserialization and the extraction of a transaction's facts are library code and enter
as `BlockLibrary`. What is built from them is the source's own: the identity the parsed block must
share with the source block, the byte range of every transaction, the compact transactions with
the tree sizes they add, and the position of the block in the commitment trees.
-/

namespace Zinder.Ingest

open Canonical

structure SourceBlock where
  height : U32
  hash : BlockHash
  parentHash : BlockHash
  blockTimeSeconds : Nat
  rawBlockBytes : Bytes
deriving DecidableEq

def SourceBlock.blockId (b : SourceBlock) : BlockId := ⟨b.height.val, b.hash⟩

structure TransactionFactSet where
  publicFacts : TransactionPublicFacts
  intrinsicValueBalances : TransactionIntrinsicValueBalances
  transparentInputs : List TransparentInputFact
  transparentOutputs : List TransparentOutputFact

/-- Consensus blocks and transactions. -/
structure BlockLibrary where
  Block : Type
  Transaction : Type
  /-- The block at the start of the bytes, and how many bytes it took. -/
  deserialize : Bytes → Except String (Block × Nat)
  coinbaseHeight : Block → Option U32
  hash : Block → BlockHash
  previousBlockHash : Block → BlockHash
  merkleRoot : Block → Bytes32
  commitmentBytes : Block → Bytes32
  time : Block → Int
  difficultyThreshold : Block → U32
  nonce : Block → Bytes32
  version : Block → U32
  transactions : Block → List Transaction
  serializedSize : Transaction → Nat
  /-- `transaction_public_fact_set_from_parsed`. -/
  factSet : Transaction → Bytes → Nat → NetworkUpgradeActivations →
    Except String TransactionFactSet
  saplingSpendCount : Transaction → Nat
  transparentInputCount : Transaction → Nat
  transparentOutputCount : Transaction → Nat
  /-- The note commitments of a transaction, by pool. -/
  saplingOutputs : Transaction → List Bytes
  orchardActions : Transaction → List Bytes
  ironwoodActions : Transaction → List Bytes

inductive BlockMismatchField where
  | height
  | hash
  | parentHash
  | time
deriving DecidableEq

inductive CanonicalBlockConstructionError where
  | emptySourcePayload
  | blockParseFailed (source : String)
  | sourcePayloadNotFullyConsumed (consumedByteCount sourceByteCount : Nat)
  | parsedBlockMissingCoinbaseHeight
  | sourceBlockMismatch (field : BlockMismatchField) (expected actual : String)
  | commitmentTreeOverflow (protocol : ShieldedProtocol)
  | countOverflow (field : String)
  | transactionIndexOverflow
  | transactionFactCountMismatch (parsedTransactionCount canonicalFactCount : Nat)
  | compactBlockInvalidTransactionOrder
  | transactionFactsParseFailed (reason : String)
  | transactionByteRangeMismatch (blockByteCount : Nat)
deriving DecidableEq

/-! ## Parsing and identity -/

def hexDigits (byte : UInt8) : String :=
  String.ofList [Nat.digitChar (byte.toNat / 16), Nat.digitChar (byte.toNat % 16)]

/-- `encode_rpc_block_hash_hex`. -/
def formatBlockHash (hash : BlockHash) : String :=
  String.join (hash.bytes.reverse.map hexDigits)

def validateSourceBlockPayload (source : SourceBlock) :
    Except CanonicalBlockConstructionError Unit :=
  rejectIf (source.rawBlockBytes = []) .emptySourcePayload

variable {L : BlockLibrary}

def parseSourceBlock (L : BlockLibrary) (source : SourceBlock) :
    Except CanonicalBlockConstructionError L.Block := do
  let (parsed, consumedByteCount) ← (L.deserialize source.rawBlockBytes).mapError
    .blockParseFailed
  rejectIf (consumedByteCount ≠ source.rawBlockBytes.length)
    (.sourcePayloadNotFullyConsumed consumedByteCount source.rawBlockBytes.length)
  .ok parsed

variable (parsed : L.Block)

/-- `validate_parsed_block_identity`: the block must be what the source said it is. -/
def validateParsedBlockIdentity (source : SourceBlock) :
    Except CanonicalBlockConstructionError Unit := do
  let parsedHeight ← okOr (L.coinbaseHeight parsed) .parsedBlockMissingCoinbaseHeight
  rejectIf (parsedHeight ≠ source.height)
    (.sourceBlockMismatch .height (toString source.height.val) (toString parsedHeight.val))
  rejectIf (L.hash parsed ≠ source.hash)
    (.sourceBlockMismatch .hash (formatBlockHash source.hash) (formatBlockHash (L.hash parsed)))
  rejectIf (L.previousBlockHash parsed ≠ source.parentHash)
    (.sourceBlockMismatch .parentHash (formatBlockHash source.parentHash)
      (formatBlockHash (L.previousBlockHash parsed)))
  let parsedTime ← okOr (u32OfInt (L.time parsed)) (.countOverflow "parsed block time")
  rejectIf (parsedTime ≠ source.blockTimeSeconds)
    (.sourceBlockMismatch .time (toString source.blockTimeSeconds) (toString parsedTime))

def blockHeaderArtifactFromParsedBlock (height : U32)
    (blockSizeBytes : U64) : BlockHeaderArtifact :=
  { height
    blockHash := L.hash parsed
    parentHash := L.previousBlockHash parsed
    merkleRootHash := L.merkleRoot parsed
    commitmentBytes := L.commitmentBytes parsed
    blockTime := L.time parsed
    bits := L.difficultyThreshold parsed
    nonce := L.nonce parsed
    version := L.version parsed
    blockSizeBytes }

/-! ## Transactions -/

structure PreparedCanonicalTransactions where
  facts : List CanonicalTransactionFacts
  transactionBlobs : List TransactionBlobArtifact

/-- `transaction_byte_layout`: where the transactions start, and the size of each; together they
are the tail of the block. -/
def transactionByteLayout (source : SourceBlock) :
    Except CanonicalBlockConstructionError (Nat × List Nat) := do
  let mismatch := CanonicalBlockConstructionError.transactionByteRangeMismatch
    source.rawBlockBytes.length
  let sizes := (L.transactions parsed).map L.serializedSize
  let total ← loop (fun total size => okOr (checkedAdd u64Bound total size) mismatch) 0 sizes
  let first ← okOr (checkedSub source.rawBlockBytes.length total) mismatch
  .ok (first, sizes)

/-- `take_transaction_bytes`: the transaction's bytes and the offset after them. -/
def takeTransactionBytes (raw : Bytes) (byteOffset transactionByteCount : Nat) :
    Except CanonicalBlockConstructionError (Bytes × Nat) := do
  let byteEnd ← okOr (checkedAdd u64Bound byteOffset transactionByteCount)
    (.transactionByteRangeMismatch raw.length)
  rejectIf (raw.length < byteEnd) (.transactionByteRangeMismatch raw.length)
  .ok ((raw.drop byteOffset).take transactionByteCount, byteEnd)

/-- One transaction of `prepare_canonical_transactions_from_parsed`, from the offset of its bytes
and what was prepared before it. -/
def prepareCanonicalTransaction {D : Type} (H : FactsHash D) (source : SourceBlock)
    (activations : NetworkUpgradeActivations) (retention : RawBlobRetention)
    (state : Nat × PreparedCanonicalTransactions) (entry : (L.Transaction × Nat) × Nat) :
    Except CanonicalBlockConstructionError (Nat × PreparedCanonicalTransactions) := do
  let (byteOffset, prepared) := state
  let ((transaction, serializedSize), index) := entry
  rejectIf (u32Bound ≤ index) .transactionIndexOverflow
  let (raw, byteEnd) ← takeTransactionBytes source.rawBlockBytes byteOffset serializedSize
  let set ← (L.factSet transaction raw source.height.val activations).mapError
    .transactionFactsParseFailed
  let blobs : List TransactionBlobArtifact :=
    if retention.retainsTransactionBlobs then
      [⟨⟨set.publicFacts.transactionId, source.height.val, source.hash, index⟩, raw⟩]
    else []
  let facts : CanonicalTransactionFacts :=
    { publicFacts := set.publicFacts
      serializedBytesDigest := H.serializedBytes raw
      intrinsicValueBalances := set.intrinsicValueBalances
      transparentInputs := set.transparentInputs
      transparentOutputs := set.transparentOutputs }
  .ok (byteEnd, ⟨prepared.facts ++ [facts], prepared.transactionBlobs ++ blobs⟩)

def prepareCanonicalTransactionsFromParsed {D : Type} (H : FactsHash D) (parsed : L.Block)
    (source : SourceBlock) (activations : NetworkUpgradeActivations)
    (retention : RawBlobRetention) :
    Except CanonicalBlockConstructionError PreparedCanonicalTransactions := do
  let (first, sizes) ← transactionByteLayout parsed source
  let (byteOffset, prepared) ← loop (prepareCanonicalTransaction H source activations retention)
    (first, ⟨[], []⟩) ((L.transactions parsed).zip sizes).zipIdx
  rejectIf (byteOffset ≠ source.rawBlockBytes.length)
    (.transactionByteRangeMismatch source.rawBlockBytes.length)
  .ok prepared

/-- `CommitmentTreeSizes::checked_add`; the sizes are those of a chain tip. -/
def addTreeSizes (sizes additions : ChainTipMetadata) :
    Except CanonicalBlockConstructionError ChainTipMetadata := do
  let add := fun protocol : ShieldedProtocol =>
    okOr (checkedAdd u32Bound (sizes.commitmentTreeSize protocol)
        (additions.commitmentTreeSize protocol))
      (CanonicalBlockConstructionError.commitmentTreeOverflow protocol)
  let sapling ← add .sapling
  let orchard ← add .orchard
  let ironwood ← add .ironwood
  .ok ⟨sapling, orchard, ironwood⟩

def countToU32 (count : Nat) (field : String) : Except CanonicalBlockConstructionError Nat := do
  rejectIf (u32Bound ≤ count) (.countOverflow field)
  .ok count

def compactTransactionHasPayload (transaction : L.Transaction) : Bool :=
  L.saplingSpendCount transaction ≠ 0 ∨ L.saplingOutputs transaction ≠ [] ∨
    L.orchardActions transaction ≠ [] ∨ L.ironwoodActions transaction ≠ [] ∨
    L.transparentInputCount transaction ≠ 0 ∨ L.transparentOutputCount transaction ≠ 0

def compactTransaction (state : List CompactTransaction × ChainTipMetadata)
    (entry : (L.Transaction × CanonicalTransactionFacts) × Nat) :
    Except CanonicalBlockConstructionError (List CompactTransaction × ChainTipMetadata) := do
  let ((transaction, facts), index) := entry
  let compact : CompactTransaction :=
    { index
      transactionId := facts.transactionId
      saplingOutputs := L.saplingOutputs transaction
      orchardActions := L.orchardActions transaction
      ironwoodActions := L.ironwoodActions transaction }
  let sapling ← countToU32 compact.saplingOutputs.length "Sapling output count"
  let orchard ← countToU32 compact.orchardActions.length "Orchard action count"
  let ironwood ← countToU32 compact.ironwoodActions.length "Ironwood action count"
  let additions ← addTreeSizes state.2 ⟨sapling, orchard, ironwood⟩
  .ok (if compactTransactionHasPayload transaction then state.1 ++ [compact] else state.1,
    additions)

/-- `compact_transactions`: the compact transactions and the tree sizes the block adds. -/
def compactTransactions (facts : List CanonicalTransactionFacts) :
    Except CanonicalBlockConstructionError (List CompactTransaction × ChainTipMetadata) := do
  rejectIf ((L.transactions parsed).length ≠ facts.length)
    (.transactionFactCountMismatch (L.transactions parsed).length facts.length)
  loop compactTransaction ([], .empty) ((L.transactions parsed).zip facts).zipIdx

/-- `CompactBlockArtifact::new`: transaction indexes must increase. -/
def newCompactBlock (blockId : BlockId) (previousBlockHash : BlockHash) (time : Nat)
    (transactions : List CompactTransaction) (chainMetadata : ChainTipMetadata) :
    Except CanonicalBlockConstructionError CompactBlockArtifact := do
  rejectIf (∃ pair ∈ transactions.zip transactions.tail, pair.2.index ≤ pair.1.index)
    .compactBlockInvalidTransactionOrder
  .ok ⟨blockId.height, blockId.hash, previousBlockHash, time, transactions, chainMetadata⟩

/-! ## Canonical blocks -/

variable {D : Type} (E : Env D)

structure PreparedCanonicalBlock where
  facts : CanonicalBlockFacts
  replayEnvelope : CanonicalBlockReplayEnvelope E.hash E.replay
  blockBlob : Option BlockBlobArtifact
  transactionBlobs : List TransactionBlobArtifact
  partialCompactBlock : CompactBlockArtifact
  treeSizeAdditions : ChainTipMetadata

structure PositionedCanonicalBlock where
  facts : CanonicalBlockFacts
  replayEnvelope : CanonicalBlockReplayEnvelope E.hash E.replay
  blockBlob : Option BlockBlobArtifact
  transactionBlobs : List TransactionBlobArtifact
  compactBlock : CompactBlockArtifact
  tipMetadata : ChainTipMetadata

variable {E}

def usizeToU64Saturating (n : Nat) : U64 :=
  ⟨min n (u64Bound - 1), by simp only [u64Bound]; omega⟩

def prepareCanonicalBlock (L : BlockLibrary) (source : SourceBlock)
    (activations : NetworkUpgradeActivations) (retention : RawBlobRetention) :
    Except CanonicalBlockConstructionError (PreparedCanonicalBlock E) := do
  validateSourceBlockPayload source
  let parsed ← parseSourceBlock L source
  validateParsedBlockIdentity parsed source
  let prepared ← prepareCanonicalTransactionsFromParsed E.hash parsed source activations retention
  let (transactions, treeSizeAdditions) ← compactTransactions parsed prepared.facts
  let blockHeader := blockHeaderArtifactFromParsedBlock parsed source.height
    (usizeToU64Saturating source.rawBlockBytes.length)
  let blockBlob : Option BlockBlobArtifact :=
    if retention.retainsBlockBlobs then
      some ⟨blockHeader.height.val, blockHeader.blockHash, blockHeader.parentHash,
        source.rawBlockBytes⟩
    else none
  let partialCompactBlock ← newCompactBlock source.blockId source.parentHash
    source.blockTimeSeconds transactions .empty
  let facts : CanonicalBlockFacts :=
    { blockHeader
      serializedBytesDigest := E.hash.serializedBytes source.rawBlockBytes
      transactions := prepared.facts }
  .ok
    { facts
      replayEnvelope := { encodeCanonicalBlockReplay E.hash E.replay facts with
        origin := ⟨facts, rfl⟩ }
      blockBlob
      transactionBlobs := prepared.transactionBlobs
      partialCompactBlock
      treeSizeAdditions }

/-- `position_canonical_block`; the running sizes after the block are its tip metadata. -/
def positionCanonicalBlock (prepared : PreparedCanonicalBlock E) (running : ChainTipMetadata) :
    Except CanonicalBlockConstructionError (PositionedCanonicalBlock E) := do
  let final ← addTreeSizes running prepared.treeSizeAdditions
  let parts := prepared.partialCompactBlock
  let compactBlock ← newCompactBlock ⟨parts.height, parts.blockHash⟩ parts.previousBlockHash
    parts.time parts.transactions final
  .ok
    { facts := prepared.facts
      replayEnvelope := prepared.replayEnvelope
      blockBlob := prepared.blockBlob
      transactionBlobs := prepared.transactionBlobs
      compactBlock
      tipMetadata := final }

def canonicalBuildBlock (positioned : PositionedCanonicalBlock E)
    (treeStateCheckpoint : Option CommitmentTreeCheckpoint)
    (blockFinalNoteCommitmentRoots : Option BlockFinalNoteCommitmentRoots) :
    CanonicalBuildBlock E :=
  { facts := positioned.facts
    replayEnvelope := positioned.replayEnvelope
    compactBlock := positioned.compactBlock
    tipMetadata := positioned.tipMetadata
    treeStateCheckpoint, blockFinalNoteCommitmentRoots
    transactionBlobs := positioned.transactionBlobs
    blockBlob := positioned.blockBlob }

/-! ## Commitments -/

/-- `CompactCommitmentWidth`, the error of a commitment that is not 32 bytes. -/
structure CompactCommitmentWidth where
  height : Nat
  protocol : ShieldedProtocol
  byteCount : Nat
deriving DecidableEq

def compactCommitmentBytes (height : Nat) (protocol : ShieldedProtocol) (bytes : Bytes) :
    Except CompactCommitmentWidth Bytes32 :=
  okOr (bytes32OfBytes bytes) ⟨height, protocol, bytes.length⟩

def compactTransactionCommitments (height : Nat) (t : CompactTransaction) :
    Except CompactCommitmentWidth BlockCommitments := do
  let sapling ← collect (compactCommitmentBytes height .sapling) t.saplingOutputs
  let orchard ← collect (compactCommitmentBytes height .orchard) t.orchardActions
  let ironwood ← collect (compactCommitmentBytes height .ironwood) t.ironwoodActions
  .ok ⟨sapling, orchard, ironwood⟩

def compactBlockCommitments (prepared : PreparedCanonicalBlock E) :
    Except CompactCommitmentWidth BlockCommitments := do
  let parts ← collect (compactTransactionCommitments prepared.facts.height)
    prepared.partialCompactBlock.transactions
  .ok ⟨parts.flatMap BlockCommitments.sapling, parts.flatMap BlockCommitments.orchard,
    parts.flatMap BlockCommitments.ironwood⟩

/-! ## Identity -/

theorem validateParsedBlockIdentity_eq_ok {L : BlockLibrary} {parsed : L.Block}
    {source : SourceBlock} {u : Unit} :
    validateParsedBlockIdentity parsed source = .ok u ↔
      L.coinbaseHeight parsed = some source.height ∧ L.hash parsed = source.hash ∧
      L.previousBlockHash parsed = source.parentHash ∧
      u32OfInt (L.time parsed) = some source.blockTimeSeconds := by
  simp only [validateParsedBlockIdentity, bind_eq_ok, okOr_eq_ok, rejectIf_eq_ok, not_not]
  constructor
  · rintro ⟨_, hheight, _, rfl, _, hhash, _, hparent, _, htime, rfl⟩
    exact ⟨hheight, hhash, hparent, htime⟩
  · rintro ⟨hheight, hhash, hparent, htime⟩
    exact ⟨_, hheight, (), rfl, (), hhash, (), hparent, _, htime, rfl⟩

theorem prepareCanonicalBlock_identity {L : BlockLibrary} {source : SourceBlock}
    {activations : NetworkUpgradeActivations} {retention : RawBlobRetention}
    {prepared : PreparedCanonicalBlock E}
    (h : prepareCanonicalBlock L source activations retention = .ok prepared) :
    prepared.facts.blockId = source.blockId ∧ prepared.facts.parentHash = source.parentHash := by
  simp only [prepareCanonicalBlock, bind_eq_ok, validateParsedBlockIdentity_eq_ok,
    Unique.exists_iff] at h
  obtain ⟨_, parsed, _, ⟨_, hhash, hparent, _⟩, _, _, _, _, _, _, h⟩ := h
  cases h
  exact ⟨congrArg (BlockId.mk source.height.val) hhash, hparent⟩

theorem positionCanonicalBlock_facts {prepared : PreparedCanonicalBlock E}
    {running : ChainTipMetadata} {positioned : PositionedCanonicalBlock E}
    (h : positionCanonicalBlock prepared running = .ok positioned) :
    positioned.facts = prepared.facts := by
  simp only [positionCanonicalBlock, bind_eq_ok] at h
  obtain ⟨_, _, _, _, h⟩ := h
  cases h
  rfl

end Zinder.Ingest
