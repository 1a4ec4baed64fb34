import Zinder.Core.Facts

/-!
# Zinder.Core.Replay

Fact digests, the ordered sequence digest, and the replay envelope of `zinder-core`.

SHA-256 and protobuf are library code. They enter as two records of functions:

* `FactsHash` — the digest of one block's facts and the two hash steps of the sequence digest;
* `ReplayCodec` — the payload and envelope encodings, with the round-trip laws of the encoder.

Every version enumeration of the replay contract has the single variant `V1`, so versions appear
only as the numbers a decoder reads.
-/

namespace Zinder

/-- SHA-256 as the digest contracts use it. -/
structure FactsHash (D : Type) where
  /-- `CanonicalBlockFacts::digest`. -/
  digest : CanonicalBlockFacts → D
  /-- The digest of the empty sequence. -/
  sequenceSeed : D
  /-- One sequence step from the previous digest, the next block count and a block digest. -/
  sequenceItem : D → Nat → D → D
  /-- `SerializedBytesDigest::from_serialized_bytes`. -/
  serializedBytes : Bytes → Bytes

/-! ## Ordered sequence digest -/

structure CanonicalBlockFactsSequenceDigest (D : Type) where
  blockCount : Nat
  bytes : D
deriving DecidableEq

namespace CanonicalBlockFactsSequenceDigest

variable {D : Type}

variable (H : FactsHash D) (s : CanonicalBlockFactsSequenceDigest D) (items : List D)

def start : CanonicalBlockFactsSequenceDigest D := ⟨0, H.sequenceSeed⟩

/-- Appending one block digest, as plain mathematics. -/
def push (item : D) : CanonicalBlockFactsSequenceDigest D :=
  ⟨s.blockCount + 1, H.sequenceItem s.bytes (s.blockCount + 1) item⟩

/-- `CanonicalBlockFactsSequenceDigestBuilder::try_append`: fails past `u64::MAX` blocks. -/
def tryAppend (item : D) : Option (CanonicalBlockFactsSequenceDigest D) :=
  (checkedAdd u64Bound s.blockCount 1).map fun count =>
    ⟨count, H.sequenceItem s.bytes count item⟩

def ofItems : CanonicalBlockFactsSequenceDigest D :=
  items.foldl (push H) (start H)

@[simp] theorem tryAppend_eq_some {H : FactsHash D} {s t : CanonicalBlockFactsSequenceDigest D}
    {item : D} : tryAppend H s item = some t ↔ s.blockCount + 1 < u64Bound ∧ t = push H s item := by
  simp only [tryAppend, Option.map_eq_some_iff, checkedAdd_eq_some, push]
  constructor
  · rintro ⟨c, ⟨hlt, rfl⟩, rfl⟩
    exact ⟨hlt, rfl⟩
  · rintro ⟨hlt, rfl⟩
    exact ⟨_, ⟨hlt, rfl⟩, rfl⟩

theorem ofItems_append (a b : List D) : ofItems H (a ++ b) = b.foldl (push H) (ofItems H a) := by
  simp [ofItems, List.foldl_append]

theorem ofItems_concat (a : List D) (d : D) : ofItems H (a ++ [d]) = push H (ofItems H a) d := by
  simp [ofItems_append]

theorem blockCount_foldl_push :
    (items.foldl (push H) s).blockCount = s.blockCount + items.length := by
  induction items generalizing s with
  | nil => rfl
  | cons d items ih =>
    rw [List.foldl_cons, ih, List.length_cons]
    simp only [push]
    omega

@[simp] theorem blockCount_ofItems : (ofItems H items).blockCount = items.length := by
  simp [ofItems, blockCount_foldl_push, start]

end CanonicalBlockFactsSequenceDigest

/-! ## Replay envelope -/

structure CanonicalBlockReplayEnvelopeRecord (D : Type) where
  formatVersion : Nat
  payload : Bytes
  digestVersion : Nat
  referenceDigest : D
deriving DecidableEq

/-- Protobuf encoding of the replay payload and of its envelope, with the encoder's round trips. -/
structure ReplayCodec (D : Type) where
  encodePayload : CanonicalBlockFacts → Bytes
  decodePayload : Bytes → Except String CanonicalBlockFacts
  encodeRecord : CanonicalBlockReplayEnvelopeRecord D → Bytes
  decodeRecord : Bytes → Except String (CanonicalBlockReplayEnvelopeRecord D)
  decodePayload_encodePayload : ∀ f, decodePayload (encodePayload f) = .ok f
  encodePayload_ne_nil : ∀ f, encodePayload f ≠ []
  decodeRecord_encodeRecord : ∀ r, decodeRecord (encodeRecord r) = .ok r

inductive CanonicalBlockReplayDecodeError where
  | invalidEnvelope (source : String)
  | unsupportedFormatVersion (encodedVersion : Nat)
  | unsupportedReferenceDigestVersion (encodedVersion : Nat)
  | missingPayload
  | invalidPayload (source : String)
  | nonCanonicalPayload
  | referenceDigestMismatch
  | nonCanonicalEnvelope
deriving DecidableEq

section Envelope

variable {D : Type}

structure ReplayFields (D : Type) where
  blockHeight : Nat
  blockHash : BlockHash
  parentHash : BlockHash
  referenceDigest : D
  bytes : Bytes

def replayEnvelopeRecord (H : FactsHash D) (C : ReplayCodec D) (facts : CanonicalBlockFacts) :
    CanonicalBlockReplayEnvelopeRecord D :=
  { formatVersion := 1
    payload := C.encodePayload facts
    digestVersion := 1
    referenceDigest := H.digest facts }

def encodeCanonicalBlockReplay (H : FactsHash D) (C : ReplayCodec D)
    (facts : CanonicalBlockFacts) : ReplayFields D :=
  { blockHeight := facts.height
    blockHash := facts.blockHash
    parentHash := facts.parentHash
    referenceDigest := H.digest facts
    bytes := C.encodeRecord (replayEnvelopeRecord H C facts) }

/-- A replay envelope. Its fields are private in the source and only the encoder builds one, so it
always comes from some facts. -/
structure CanonicalBlockReplayEnvelope (H : FactsHash D) (C : ReplayCodec D) extends
    ReplayFields D where
  origin : ∃ facts, toReplayFields = encodeCanonicalBlockReplay H C facts

structure ValidatedCanonicalBlockReplay (D : Type) where
  referenceDigest : D
  facts : CanonicalBlockFacts

def decodeCanonicalBlockReplay [DecidableEq D] (H : FactsHash D) (C : ReplayCodec D)
    (encoded : Bytes) :
    Except CanonicalBlockReplayDecodeError (ValidatedCanonicalBlockReplay D) := do
  let envelope ← (C.decodeRecord encoded).mapError .invalidEnvelope
  rejectIf (envelope.formatVersion ≠ 1) (.unsupportedFormatVersion envelope.formatVersion)
  rejectIf (envelope.digestVersion ≠ 1)
    (.unsupportedReferenceDigestVersion envelope.digestVersion)
  rejectIf (envelope.payload = []) .missingPayload
  let facts ← (C.decodePayload envelope.payload).mapError .invalidPayload
  rejectIf (C.encodePayload facts ≠ envelope.payload) .nonCanonicalPayload
  rejectIf (H.digest facts ≠ envelope.referenceDigest) .referenceDigestMismatch
  rejectIf (C.encodeRecord (replayEnvelopeRecord H C facts) ≠ encoded) .nonCanonicalEnvelope
  .ok ⟨H.digest facts, facts⟩

variable [DecidableEq D] {H : FactsHash D} {C : ReplayCodec D}

theorem decodeCanonicalBlockReplay_encode (facts : CanonicalBlockFacts) :
    decodeCanonicalBlockReplay H C (encodeCanonicalBlockReplay H C facts).bytes =
      .ok ⟨H.digest facts, facts⟩ := by
  simp only [decodeCanonicalBlockReplay, encodeCanonicalBlockReplay, C.decodeRecord_encodeRecord,
    Except.mapError, ok_bind]
  simp [replayEnvelopeRecord, C.encodePayload_ne_nil, C.decodePayload_encodePayload, rejectIf]

/-- Decoding an envelope's bytes gives facts with the identity and the digest the envelope shows; they
are `own` if the envelope encodes `own`. -/
theorem CanonicalBlockReplayEnvelope.decode (e : CanonicalBlockReplayEnvelope H C) :
    ∃ facts, decodeCanonicalBlockReplay H C e.bytes = .ok ⟨e.referenceDigest, facts⟩ ∧
      facts.height = e.blockHeight ∧ facts.blockHash = e.blockHash ∧
      facts.parentHash = e.parentHash ∧
      ∀ own, e.toReplayFields = encodeCanonicalBlockReplay H C own → facts = own := by
  obtain ⟨facts, hf⟩ := e.origin
  refine ⟨facts, ?_, ?_, ?_, ?_, fun own hown => ?_⟩
  · rw [hf]; exact decodeCanonicalBlockReplay_encode facts
  · simp [hf, encodeCanonicalBlockReplay]
  · simp [hf, encodeCanonicalBlockReplay]
  · simp [hf, encodeCanonicalBlockReplay]
  · have hfacts := decodeCanonicalBlockReplay_encode (H := H) (C := C) facts
    rw [← hf, hown, decodeCanonicalBlockReplay_encode own] at hfacts
    exact (congrArg ValidatedCanonicalBlockReplay.facts (Except.ok.inj hfacts)).symm

end Envelope

end Zinder
