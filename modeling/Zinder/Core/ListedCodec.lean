import Zinder.Core.Replay
import Zinder.Lib.Numbering

/-!
# Zinder.Core.ListedCodec

The laws asked of the hash and of the replay codec can be met together. Block facts are countable,
so a numbering of them is a digest and, written in unary, an encoding with a
round trip. Chosen facts get the first numbers, so their digests and encodings compute.
-/

namespace Zinder

/-! ## Block facts are countable -/

instance countable_uint8 : Countable UInt8 := by
  have hinjective : Function.Injective UInt8.toNat := fun a b h => UInt8.toNat_inj.mp h
  exact hinjective.countable

instance : Countable Bytes32 := by
  have hinjective : Function.Injective Bytes32.bytes := by
    rintro ⟨a, _⟩ ⟨b, _⟩ h
    cases h
    rfl
  exact hinjective.countable

deriving instance Countable for TransparentOutPoint

deriving instance Countable for TransparentInputFact, TransparentOutputFact, TransactionVersion,
  LockTime, PrivacyShape, UnsupportedSection

instance : Countable TransactionComponentCounts :=
  Function.Injective.countable (f := fun c : TransactionComponentCounts =>
    (c.transparentInputCount, c.transparentOutputCount, c.saplingSpendCount, c.saplingOutputCount,
      c.orchardActionCount, c.ironwoodActionCount, c.sproutJoinsplitCount))
    (by rintro ⟨⟩ ⟨⟩ h; simpa using h)

instance : Countable BlockHeaderArtifact :=
  Function.Injective.countable (f := fun h : BlockHeaderArtifact =>
    (h.height, h.blockHash, h.parentHash, h.merkleRootHash, h.commitmentBytes, h.blockTime, h.bits,
      h.nonce, h.version, h.blockSizeBytes))
    (by rintro ⟨⟩ ⟨⟩ h; simpa using h)

instance : Countable TransactionPublicFacts :=
  Function.Injective.countable (f := fun t : TransactionPublicFacts =>
    ((t.transactionId, t.authDigest, t.wtxid, t.version, t.consensusBranchId, t.lockTime,
      t.expiryHeight, t.sizeBytes), (t.counts, t.orchardValueBalanceZat, t.orchardAnchor,
      t.ironwoodValueBalanceZat, t.privacyShape, t.isCoinbase, t.unsupportedSections)))
    (by rintro ⟨⟩ ⟨⟩ h; simpa [and_assoc] using h)

instance : Countable TransactionIntrinsicValueBalances :=
  Function.Injective.countable (f := fun b : TransactionIntrinsicValueBalances =>
    (b.sproutZat, b.saplingZat, b.orchardZat, b.ironwoodZat)) (by rintro ⟨⟩ ⟨⟩ h; simpa using h)

deriving instance Countable for CanonicalTransactionFacts

deriving instance Countable for CanonicalBlockFacts

deriving instance Countable for CanonicalBlockReplayEnvelopeRecord

/-! ## The listed hash and codec -/

open ListedNumber

/-- A digest by numbering; `chosen` have the digests `0`, `1`, and so on. -/
noncomputable def listedFactsHash (chosen : List CanonicalBlockFacts) : FactsHash Nat where
  digest := number chosen
  sequenceSeed := 0
  sequenceItem previous _ item := previous * 8 + item + 1
  serializedBytes bytes := bytes

/-- A codec in unary, with the chosen facts and records first. -/
noncomputable def listedReplayCodec (facts : List CanonicalBlockFacts)
    (records : List (CanonicalBlockReplayEnvelopeRecord Nat)) : ReplayCodec Nat where
  encodePayload f := List.replicate (number facts f + 1) 0
  decodePayload bytes := okOr (value? facts (bytes.length - 1)) "unknown payload"
  encodeRecord r := List.replicate (number records r) 0
  decodeRecord bytes := okOr (value? records bytes.length) "unknown record"
  decodePayload_encodePayload f := by simp
  encodePayload_ne_nil f := by simp
  decodeRecord_encodeRecord r := by simp

/-- The records of chosen facts whose payloads are numbered in the same order. -/
def listedRecords (count : Nat) : List (CanonicalBlockReplayEnvelopeRecord Nat) :=
  (List.range count).map fun n =>
    { formatVersion := 1
      payload := List.replicate (n + 1) 0
      digestVersion := 1
      referenceDigest := n }

end Zinder
