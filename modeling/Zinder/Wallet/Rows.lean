import Zinder.Lib.ByteFields
import Zinder.Core.Replay

/-!
# Zinder.Wallet.Rows

The durable rows of the wallet projection (`rows.rs`): unspent and spent outputs under their outpoint,
the two ordered address keys, balances, and the undo record of a block.

A key is a byte array, compared byte by byte as the store does. Offsets and lengths are `usize` in the
source; none of the sums over them can leave 64 bits, so they are natural numbers here.
-/

namespace Zinder.Wallet

open ByteFields

/-- The failures the row codecs report. -/
inductive WalletProjectionContractError where
  | outputCreatorMismatch
  | fieldTooLong (field : String)
  | durableFieldLengthMismatch (field : String) (expected actual : Nat)
  | durableValueTooShort (field : String) (minimum actual : Nat)
  | durableLengthPrefixMismatch (field : String)
  | durableKeyOrder (field : String)
  | reorgUndoSourceSequenceVersionMismatch
  | reorgUndoSourceSequenceLengthMismatch
deriving DecidableEq

abbrev Checked (α : Type) := Except WalletProjectionContractError α

/-! ## Fields -/

def encodedLen (len : Nat) (field : String) : Checked U32 :=
  if h : len < 2 ^ 32 then .ok ⟨len, h⟩ else .error (.fieldTooLong field)

def fixedArray (width : Nat) (encoded : Bytes) (field : String) : Checked (FixedBytes width) :=
  if h : encoded.length = width then .ok ⟨encoded, h⟩
  else .error (.durableFieldLengthMismatch field width encoded.length)

def arrayAt (width : Nat) (encoded : Bytes) (offset : Nat) (field : String) :
    Checked (FixedBytes width) :=
  if offset + width ≤ encoded.length then fixedArray width (slice encoded offset width) field
  else .error (.durableValueTooShort field (offset + width) encoded.length)

/-- `u32::from_be_bytes`. -/
def u32OfBytes (a : FixedBytes 4) : U32 := ⟨a.toNat, a.toNat_lt⟩

/-- `u64::from_be_bytes`. -/
def u64OfBytes (a : FixedBytes 8) : U64 := ⟨a.toNat, a.toNat_lt⟩

def bytes32OfArray (a : FixedBytes 32) : Bytes32 := ⟨a.bytes, a.length_32⟩

def u32Bytes (n : U32) : Bytes := BigEndian.toBytes 4 n

def u64Bytes (n : U64) : Bytes := BigEndian.toBytes 8 n

/-! ## Outputs -/

def outpointKeyLen : Nat := 36

def addressUnspentOutputKeyLen : Nat := 72

def addressTransactionKeyLen : Nat := 40

def unspentOutputFixedValueLen : Nat := 84

def spentOutputTrailerLen : Nat := 76

/-- A block the wallet names: its height is a `u32`. -/
abbrev WalletBlockId := { id : BlockId // id.height < 2 ^ 32 }

namespace WalletBlockId

def new (height : U32) (hash : BlockHash) : WalletBlockId := ⟨⟨height, hash⟩, height.isLt⟩

def height (block : WalletBlockId) : U32 := ⟨block.val.height, block.property⟩

def hash (block : WalletBlockId) : BlockHash := block.val.hash

@[simp] theorem height_new (height : U32) (hash : BlockHash) :
    (new height hash).height = height := rfl

@[simp] theorem hash_new (height : U32) (hash : BlockHash) : (new height hash).hash = hash := rfl

@[simp] theorem new_height_hash (block : WalletBlockId) : new block.height block.hash = block := rfl

end WalletBlockId

structure WalletTransactionPosition where
  transactionId : TransactionId
  txIndexInBlock : U32
  block : WalletBlockId
deriving DecidableEq

/-- A transparent output while it is unspent; its outpoint names the transaction that created it. -/
structure WalletUnspentOutput where
  outpoint : TransparentOutPoint
  addressScriptHash : TransparentAddressScriptHash
  valueZat : U64
  scriptPubKey : Bytes
  createdAt : WalletTransactionPosition
  creator : outpoint.transactionId = createdAt.transactionId
deriving DecidableEq

def WalletUnspentOutput.new (outpoint : TransparentOutPoint)
    (addressScriptHash : TransparentAddressScriptHash) (valueZat : U64) (scriptPubKey : Bytes)
    (createdAt : WalletTransactionPosition) : Checked WalletUnspentOutput :=
  if h : outpoint.transactionId = createdAt.transactionId then
    .ok ⟨outpoint, addressScriptHash, valueZat, scriptPubKey, createdAt, h⟩
  else .error .outputCreatorMismatch

/-- A spent output with the input that consumed it. -/
structure WalletSpentOutput where
  output : WalletUnspentOutput
  spentAt : WalletTransactionPosition
  inputIndex : U32
deriving DecidableEq

/-- Key of an output row: `txid || output_index_be`. -/
abbrev WalletOutpointKey := FixedBytes 36

namespace WalletOutpointKey

def new (outpoint : TransparentOutPoint) : WalletOutpointKey :=
  ⟨outpoint.transactionId.bytes ++ u32Bytes outpoint.outputIndex, by
    simp [u32Bytes, outpoint.transactionId.length_eq]⟩

def decode (encoded : Bytes) : Checked WalletOutpointKey :=
  fixedArray outpointKeyLen encoded "wallet outpoint key"

def outpoint (key : WalletOutpointKey) : TransparentOutPoint where
  transactionId := ⟨slice key.bytes 0 32, length_slice (by rw [key.length_eq]; decide)⟩
  outputIndex :=
    u32OfBytes ⟨slice key.bytes 32 4, length_slice (by rw [key.length_eq])⟩

end WalletOutpointKey

namespace WalletUnspentOutput

def encodeValue (output : WalletUnspentOutput) : Checked Bytes := do
  let scriptLen ← encodedLen output.scriptPubKey.length "unspent output script"
  .ok (output.addressScriptHash.bytes ++ (u64Bytes output.valueZat ++
    (u32Bytes output.createdAt.block.height ++ (output.createdAt.block.hash.bytes ++
      (u32Bytes output.createdAt.txIndexInBlock ++ (u32Bytes scriptLen ++ output.scriptPubKey))))))

def decodeValue (key : WalletOutpointKey) (encoded : Bytes) : Checked WalletUnspentOutput := do
  rejectIf (encoded.length < unspentOutputFixedValueLen)
    (.durableValueTooShort "transparent_unspent_output value" unspentOutputFixedValueLen
      encoded.length)
  let scriptLen ← arrayAt 4 encoded 80 "transparent_unspent_output script length"
  rejectIf (encoded.length ≠ unspentOutputFixedValueLen + (u32OfBytes scriptLen).val)
    (.durableLengthPrefixMismatch "transparent_unspent_output value")
  let address ← arrayAt 32 encoded 0 "transparent_unspent_output address"
  let value ← arrayAt 8 encoded 32 "transparent_unspent_output value"
  let txIndex ← arrayAt 4 encoded 76 "transparent_unspent_output transaction index"
  let height ← arrayAt 4 encoded 40 "transparent_unspent_output creation height"
  let hash ← arrayAt 32 encoded 44 "transparent_unspent_output creation block hash"
  WalletUnspentOutput.new key.outpoint (bytes32OfArray address) (u64OfBytes value)
    (encoded.drop unspentOutputFixedValueLen)
    ⟨key.outpoint.transactionId, u32OfBytes txIndex,
      .new (u32OfBytes height) (bytes32OfArray hash)⟩

end WalletUnspentOutput

namespace WalletSpentOutput

def encodeValue (spent : WalletSpentOutput) : Checked Bytes := do
  let bytes ← spent.output.encodeValue
  .ok (bytes ++ (spent.spentAt.transactionId.bytes ++ (u32Bytes spent.inputIndex ++
    (u32Bytes spent.spentAt.txIndexInBlock ++ (u32Bytes spent.spentAt.block.height ++
      spent.spentAt.block.hash.bytes)))))

def decodeValue (key : WalletOutpointKey) (encoded : Bytes) : Checked WalletSpentOutput := do
  rejectIf (encoded.length < unspentOutputFixedValueLen + spentOutputTrailerLen)
    (.durableValueTooShort "transparent_spent_output value"
      (unspentOutputFixedValueLen + spentOutputTrailerLen) encoded.length)
  let scriptLen ← arrayAt 4 encoded 80 "transparent_spent_output script length"
  let unspentLen := unspentOutputFixedValueLen + (u32OfBytes scriptLen).val
  rejectIf (encoded.length ≠ unspentLen + spentOutputTrailerLen)
    (.durableLengthPrefixMismatch "transparent_spent_output value")
  let output ← WalletUnspentOutput.decodeValue key (encoded.take unspentLen)
  let transactionId ← arrayAt 32 encoded unspentLen "transparent_spent_output transaction id"
  let txIndex ← arrayAt 4 encoded (unspentLen + 36) "transparent_spent_output transaction index"
  let height ← arrayAt 4 encoded (unspentLen + 40) "transparent_spent_output height"
  let hash ← arrayAt 32 encoded (unspentLen + 44) "transparent_spent_output block hash"
  let inputIndex ← arrayAt 4 encoded (unspentLen + 32) "transparent_spent_output input index"
  .ok ⟨output, ⟨bytes32OfArray transactionId, u32OfBytes txIndex,
    .new (u32OfBytes height) (bytes32OfArray hash)⟩, u32OfBytes inputIndex⟩

end WalletSpentOutput

/-! ## Address keys -/

/-- Ordered key of an address's unspent output:
`address_hash || creation_height_be || txid || output_index_be`. -/
abbrev WalletAddressUnspentOutputKey := FixedBytes 72

namespace WalletAddressUnspentOutputKey

def ofParts (address : TransparentAddressScriptHash) (height : U32)
    (outpoint : TransparentOutPoint) :
    WalletAddressUnspentOutputKey :=
  ⟨address.bytes ++ (u32Bytes height ++ (outpoint.transactionId.bytes ++
    u32Bytes outpoint.outputIndex)), by
    simp [u32Bytes, Bytes32.length_eq]⟩

def new (output : WalletUnspentOutput) : WalletAddressUnspentOutputKey :=
  ofParts output.addressScriptHash output.createdAt.block.height output.outpoint

def decode (encoded : Bytes) : Checked WalletAddressUnspentOutputKey :=
  fixedArray addressUnspentOutputKeyLen encoded "transparent_unspent_output_by_address key"

variable (key : WalletAddressUnspentOutputKey)

def addressScriptHash : TransparentAddressScriptHash :=
  ⟨slice key.bytes 0 32, length_slice (by rw [key.length_eq]; decide)⟩

def creationHeight : U32 :=
  u32OfBytes ⟨slice key.bytes 32 4, length_slice (by rw [key.length_eq]; decide)⟩

def outpoint : TransparentOutPoint where
  transactionId := ⟨slice key.bytes 36 32, length_slice (by rw [key.length_eq]; decide)⟩
  outputIndex := u32OfBytes ⟨slice key.bytes 68 4, length_slice (by rw [key.length_eq])⟩

end WalletAddressUnspentOutputKey

/-- Ordered key of a transaction that touches an address:
`address_hash || height_be || transaction_index_be`. -/
abbrev WalletAddressTransactionKey := FixedBytes 40

namespace WalletAddressTransactionKey

def new (address : TransparentAddressScriptHash) (height txIndexInBlock : U32) :
    WalletAddressTransactionKey :=
  ⟨address.bytes ++ (u32Bytes height ++ u32Bytes txIndexInBlock), by
    simp [u32Bytes, Bytes32.length_eq]⟩

def firstAtOrAfter (address : TransparentAddressScriptHash) (height : U32) :
    WalletAddressTransactionKey :=
  new address height 0

def decode (encoded : Bytes) : Checked WalletAddressTransactionKey :=
  fixedArray addressTransactionKeyLen encoded "transparent_address_transaction key"

variable (key : WalletAddressTransactionKey)

def addressScriptHash : TransparentAddressScriptHash :=
  ⟨slice key.bytes 0 32, length_slice (by rw [key.length_eq]; decide)⟩

def blockHeight : U32 :=
  u32OfBytes ⟨slice key.bytes 32 4, length_slice (by rw [key.length_eq]; decide)⟩

def txIndexInBlock : U32 :=
  u32OfBytes ⟨slice key.bytes 36 4, length_slice (by rw [key.length_eq])⟩

end WalletAddressTransactionKey

structure WalletAddressTransaction where
  key : WalletAddressTransactionKey
  transactionId : TransactionId
  blockHash : BlockHash
deriving DecidableEq

namespace WalletAddressTransaction

def encodeValue (row : WalletAddressTransaction) : Bytes :=
  row.transactionId.bytes ++ row.blockHash.bytes

def decodeValue (key : WalletAddressTransactionKey) (encoded : Bytes) :
    Checked WalletAddressTransaction := do
  let encodedTransaction ← fixedArray 64 encoded "transparent_address_transaction value"
  .ok ⟨key,
    ⟨slice encodedTransaction.bytes 0 32, length_slice (by rw [encodedTransaction.length_eq]; decide)⟩,
    ⟨slice encodedTransaction.bytes 32 32, length_slice (by rw [encodedTransaction.length_eq])⟩⟩

end WalletAddressTransaction

structure WalletAddressBalance where
  addressScriptHash : TransparentAddressScriptHash
  balanceZat : U64
deriving DecidableEq

namespace WalletAddressBalance

def encodeKey (balance : WalletAddressBalance) : Bytes := balance.addressScriptHash.bytes

def encodeValue (balance : WalletAddressBalance) : Bytes := u64Bytes balance.balanceZat

def decode (key encoded : Bytes) : Checked WalletAddressBalance := do
  let address ← fixedArray 32 key "transparent_address_balance key"
  let balance ← fixedArray 8 encoded "transparent_address_balance value"
  .ok ⟨bytes32OfArray address, u64OfBytes balance⟩

end WalletAddressBalance

/-! ## Undo records -/

/-- The one version of the sequence digest. -/
def sequenceDigestVersion : Nat := 1

/-- A source-sequence digest, with the `u64` count it is stored with. -/
structure SourceSequenceDigest where
  blockCount : U64
  bytes : Bytes32
deriving DecidableEq

def encodeSourceSequenceDigest (digest : SourceSequenceDigest) : Bytes :=
  BigEndian.toBytes 2 sequenceDigestVersion ++ (u64Bytes digest.blockCount ++ digest.bytes.bytes)

variable (encoded : Bytes) (offset : Nat) (field : String)

/-- `decode_source_sequence_digest`: the digest at an offset and the offset behind it. -/
def decodeSourceSequenceDigest : Checked (SourceSequenceDigest × Nat) := do
  let version ← arrayAt 2 encoded offset field
  rejectIf (version.toNat ≠ sequenceDigestVersion) .reorgUndoSourceSequenceVersionMismatch
  let blockCount ← arrayAt 8 encoded (offset + 2) field
  let digest ← arrayAt 32 encoded (offset + 2 + 8) field
  .ok (⟨u64OfBytes blockCount, bytes32OfArray digest⟩, offset + 2 + 8 + 32)

def validateStrictKeyOrder {width : Nat} (keys : List (FixedBytes width)) (field : String) :
    Checked Unit :=
  rejectIf (¬ keys.IsChain (· < ·)) (.durableKeyOrder field)

def decodeCount : Checked (Nat × Nat) := do
  let count ← arrayAt 4 encoded offset field
  .ok ((u32OfBytes count).val, offset + 4)

/-- A counted list of keys at an offset, and the offset behind it. -/
def decodeKeyList (width : Nat) (decodeKey : Bytes → Checked (FixedBytes width)) (encoded : Bytes)
    (offset : Nat) (field : String) : Checked (List (FixedBytes width) × Nat) := do
  let (count, offset) ← decodeCount encoded offset field
  rejectIf (encoded.length < offset + count * width) (.durableLengthPrefixMismatch field)
  let keys ← collect decodeKey (chunks width count (slice encoded offset (count * width)))
  validateStrictKeyOrder keys field
  .ok (keys, offset + count * width)

def decodeOutpointList : Checked (List WalletOutpointKey × Nat) :=
  decodeKeyList outpointKeyLen WalletOutpointKey.decode encoded offset field

def decodeAddressTransactionList : Checked (List WalletAddressTransactionKey × Nat) :=
  decodeKeyList addressTransactionKeyLen WalletAddressTransactionKey.decode encoded offset field

/-- The changes of one projected block, in reversible form. -/
structure WalletReorgUndo where
  block : WalletBlockId
  parentHash : BlockHash
  sourceSequenceDigestBefore : SourceSequenceDigest
  sourceSequenceDigestAfter : SourceSequenceDigest
  createdOutpoints : List WalletOutpointKey
  spentOutpoints : List WalletOutpointKey
  addressTransactionKeys : List WalletAddressTransactionKey
deriving DecidableEq

namespace WalletReorgUndo

def reorgUndoFixedValueLen : Nat := 32 + 32 + (2 + 8 + 32) * 2 + 12

variable (undo : WalletReorgUndo)

/-- `validate_source_sequence_bounds`; there is one digest version. -/
def validateSourceSequenceBounds : Checked Unit :=
  rejectIf (checkedAdd u64Bound undo.sourceSequenceDigestBefore.blockCount 1 ≠
      some undo.sourceSequenceDigestAfter.blockCount.val)
    .reorgUndoSourceSequenceLengthMismatch

def encodeKey : Bytes := u32Bytes undo.block.height

/-- A counted list of keys. -/
def encodeKeyList {width : Nat} (count : U32) (keys : List (FixedBytes width)) : Bytes :=
  u32Bytes count ++ (keys.map FixedBytes.bytes).flatten

def encodeValue : Checked Bytes := do
  undo.validateSourceSequenceBounds
  validateStrictKeyOrder undo.createdOutpoints "reorg_undo created outpoint list"
  validateStrictKeyOrder undo.spentOutpoints "reorg_undo spent outpoint list"
  validateStrictKeyOrder undo.addressTransactionKeys "reorg_undo address transaction list"
  let createdCount ← encodedLen undo.createdOutpoints.length "created outpoint list"
  let spentCount ← encodedLen undo.spentOutpoints.length "spent outpoint list"
  let addressTransactionCount ← encodedLen undo.addressTransactionKeys.length
    "address transaction key list"
  .ok (undo.block.hash.bytes ++ (undo.parentHash.bytes ++
    (encodeSourceSequenceDigest undo.sourceSequenceDigestBefore ++
      (encodeSourceSequenceDigest undo.sourceSequenceDigestAfter ++
        (encodeKeyList createdCount undo.createdOutpoints ++
          (encodeKeyList spentCount undo.spentOutpoints ++
            encodeKeyList addressTransactionCount undo.addressTransactionKeys))))))

def decode (key encoded : Bytes) : Checked WalletReorgUndo := do
  let height ← fixedArray 4 key "reorg_undo key"
  rejectIf (encoded.length < reorgUndoFixedValueLen)
    (.durableValueTooShort "reorg_undo value" reorgUndoFixedValueLen encoded.length)
  let blockHash ← arrayAt 32 encoded 0 "reorg_undo block hash"
  let parentHash ← arrayAt 32 encoded 32 "reorg_undo parent hash"
  let (digestBefore, offset) ←
    decodeSourceSequenceDigest encoded 64 "reorg_undo source digest before"
  let (digestAfter, offset) ←
    decodeSourceSequenceDigest encoded offset "reorg_undo source digest after"
  let (createdOutpoints, offset) ←
    decodeOutpointList encoded offset "reorg_undo created outpoint list"
  let (spentOutpoints, offset) ← decodeOutpointList encoded offset "reorg_undo spent outpoint list"
  let (addressTransactionKeys, offset) ←
    decodeAddressTransactionList encoded offset "reorg_undo address transaction list"
  rejectIf (offset ≠ encoded.length) (.durableLengthPrefixMismatch "reorg_undo value")
  let undo : WalletReorgUndo :=
    { block := .new (u32OfBytes height) (bytes32OfArray blockHash)
      parentHash := bytes32OfArray parentHash
      sourceSequenceDigestBefore := digestBefore
      sourceSequenceDigestAfter := digestAfter
      createdOutpoints, spentOutpoints, addressTransactionKeys }
  undo.validateSourceSequenceBounds
  .ok undo

end WalletReorgUndo

end Zinder.Wallet
