import Zinder.Lib.Checked

/-!
# Zinder.Core.Facts

The backend-neutral block facts of `zinder-core`: block identity, header, transactions with their
transparent inputs and outputs, and the per-block artifacts built from them.

Heights and indexes are `u32` in the source and `U32` here; a height taken out of a header for
arithmetic is its natural number, and the places where the source can leave the `u32` range
(`BlockHeight::next`) test the bound explicitly.
-/

namespace Zinder

abbrev Bytes := List UInt8

abbrev U32 := Fin (2 ^ 32)

abbrev U64 := Fin (2 ^ 64)

instance neZero_u32 : NeZero (2 ^ 32) := ⟨by decide⟩

instance neZero_u64 : NeZero (2 ^ 64) := ⟨by decide⟩

structure Bytes32 where
  bytes : Bytes
  length_eq : bytes.length = 32
deriving DecidableEq

/-- A 32-byte value with every byte equal. -/
def repeatedByte (byte : UInt8) : Bytes32 := ⟨List.replicate 32 byte, List.length_replicate⟩

abbrev BlockHash := Bytes32

abbrev TransactionId := Bytes32

abbrev TransparentAddressScriptHash := Bytes32

/-- `BlockHeight::next`. -/
def nextHeight (height : Nat) : Option Nat := checkedAdd u32Bound height 1

@[simp] theorem nextHeight_eq_some {h h' : Nat} :
    nextHeight h = some h' ↔ h + 1 < u32Bound ∧ h + 1 = h' := by
  simp [nextHeight]

inductive Network where
  | zcashMainnet
  | zcashTestnet
  | zcashRegtest
deriving DecidableEq

namespace Network

def id : Network → Nat
  | zcashMainnet => 1
  | zcashTestnet => 2
  | zcashRegtest => 3

def fromId : Nat → Option Network
  | 1 => some zcashMainnet
  | 2 => some zcashTestnet
  | 3 => some zcashRegtest
  | _ => none

@[simp] theorem fromId_id (n : Network) : fromId n.id = some n := by
  cases n <;> rfl

theorem id_lt (n : Network) : n.id < 256 ^ 4 := by
  cases n <;> decide

end Network

structure BlockId where
  height : Nat
  hash : BlockHash
deriving DecidableEq

structure BlockHeightRange where
  start : Nat
  stop : Nat
deriving DecidableEq

/-- The heights of an inclusive range, in ascending order; none when `start > stop`. -/
def BlockHeightRange.heights (r : BlockHeightRange) : List Nat :=
  List.range' r.start (r.stop + 1 - r.start)

theorem BlockHeightRange.mem_heights {r : BlockHeightRange} {h : Nat} :
    h ∈ r.heights ↔ r.start ≤ h ∧ h ≤ r.stop := by
  simp only [heights, List.mem_range'_1]
  omega

inductive ShieldedProtocol where
  | sapling
  | orchard
  | ironwood
deriving DecidableEq

def ShieldedProtocol.name : ShieldedProtocol → String
  | .sapling => "Sapling"
  | .orchard => "Orchard"
  | .ironwood => "Ironwood"

/-- The protocols in the order every range over them is taken. -/
def shieldedProtocols : List ShieldedProtocol := [.sapling, .orchard, .ironwood]

theorem mem_shieldedProtocols (p : ShieldedProtocol) : p ∈ shieldedProtocols := by
  cases p <;> simp [shieldedProtocols]

def subtreeLeafCount : Nat := 2 ^ 16

structure ChainTipMetadata where
  saplingCommitmentTreeSize : Nat
  orchardCommitmentTreeSize : Nat
  ironwoodCommitmentTreeSize : Nat
deriving DecidableEq

namespace ChainTipMetadata

def empty : ChainTipMetadata := ⟨0, 0, 0⟩

def commitmentTreeSize (m : ChainTipMetadata) : ShieldedProtocol → Nat
  | .sapling => m.saplingCommitmentTreeSize
  | .orchard => m.orchardCommitmentTreeSize
  | .ironwood => m.ironwoodCommitmentTreeSize

def completedSubtreeCount (m : ChainTipMetadata) (p : ShieldedProtocol) : Nat :=
  m.commitmentTreeSize p / subtreeLeafCount

end ChainTipMetadata

/-! ## Block facts -/

structure BlockHeaderArtifact where
  height : U32
  blockHash : BlockHash
  parentHash : BlockHash
  merkleRootHash : Bytes32
  commitmentBytes : Bytes32
  blockTime : Int
  bits : U32
  nonce : Bytes32
  version : U32
  blockSizeBytes : U64
deriving DecidableEq

structure TransparentOutPoint where
  transactionId : TransactionId
  outputIndex : U32
deriving DecidableEq

structure TransparentInputFact where
  inputIndex : U32
  spentOutpoint : TransparentOutPoint
deriving DecidableEq

structure TransparentOutputFact where
  outputIndex : U32
  valueZat : U64
  scriptPubKey : Bytes
  addressScriptHash : TransparentAddressScriptHash
deriving DecidableEq

inductive TransactionVersion where
  | v1
  | v2
  | v3
  | v4
  | v5
  | v6
  | unsupported (effectiveVersion : U32) (versionGroupId : Option U32)
deriving DecidableEq

inductive LockTime where
  | unlocked
  | height (height : U32)
  | unixSeconds (seconds : U64)
deriving DecidableEq

inductive PrivacyShape where
  | transparentOnly
  | shielding
  | deshielding
  | shieldedOnly
  | mixed
  | coinbase
  | shieldedCoinbase
  | unclassified
deriving DecidableEq

inductive UnsupportedSection where
  | futureVersionHeader
  | futureShieldedProtocol
deriving DecidableEq

structure TransactionComponentCounts where
  transparentInputCount : U32
  transparentOutputCount : U32
  saplingSpendCount : U32
  saplingOutputCount : U32
  orchardActionCount : U32
  ironwoodActionCount : U32
  sproutJoinsplitCount : U32
deriving DecidableEq

structure TransactionPublicFacts where
  transactionId : TransactionId
  authDigest : Option Bytes32
  wtxid : Option Bytes
  version : TransactionVersion
  consensusBranchId : Option U32
  lockTime : LockTime
  expiryHeight : Option U32
  sizeBytes : U32
  counts : TransactionComponentCounts
  orchardValueBalanceZat : Option Int
  orchardAnchor : Option Bytes32
  ironwoodValueBalanceZat : Option Int
  privacyShape : PrivacyShape
  isCoinbase : Bool
  unsupportedSections : List UnsupportedSection
deriving DecidableEq

structure TransactionIntrinsicValueBalances where
  sproutZat : Int
  saplingZat : Int
  orchardZat : Int
  ironwoodZat : Int
deriving DecidableEq

structure CanonicalTransactionFacts where
  publicFacts : TransactionPublicFacts
  serializedBytesDigest : Bytes
  intrinsicValueBalances : TransactionIntrinsicValueBalances
  transparentInputs : List TransparentInputFact
  transparentOutputs : List TransparentOutputFact
deriving DecidableEq

namespace CanonicalTransactionFacts

def transactionId (t : CanonicalTransactionFacts) : TransactionId := t.publicFacts.transactionId

end CanonicalTransactionFacts

structure CanonicalBlockFacts where
  blockHeader : BlockHeaderArtifact
  serializedBytesDigest : Bytes
  transactions : List CanonicalTransactionFacts
deriving DecidableEq

namespace CanonicalBlockFacts

variable (f : CanonicalBlockFacts)

def height : Nat := f.blockHeader.height.val

def blockHash : BlockHash := f.blockHeader.blockHash

def parentHash : BlockHash := f.blockHeader.parentHash

def blockId : BlockId := ⟨f.height, f.blockHash⟩

end CanonicalBlockFacts

/-! ## Compact blocks -/

/-- A compact transaction; of its shielded data, the note commitments. -/
structure CompactTransaction where
  index : Nat
  transactionId : TransactionId
  saplingOutputs : List Bytes
  orchardActions : List Bytes
  ironwoodActions : List Bytes
deriving DecidableEq

structure CompactBlockArtifact where
  height : Nat
  blockHash : BlockHash
  previousBlockHash : BlockHash
  time : Nat
  transactions : List CompactTransaction
  chainMetadata : ChainTipMetadata
deriving DecidableEq

end Zinder
