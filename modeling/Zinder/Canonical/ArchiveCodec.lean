import Zinder.Lib.ByteFields
import Zinder.Lib.OrderedRows
import Zinder.Canonical.Archive

/-!
# Zinder.Canonical.ArchiveCodec

The version-1 byte encodings of the displaced-block archive (`displaced_archive.rs`).

State, order, pointer and context rows share one column family and are told apart by the first byte
of their keys. Every number is big-endian of fixed width, so the order rows of the family are sorted
by event, height and hash (`encodeOrderKey_lt`) and the context rows by event
(`encodeEventContextKey_lt`). Every decoder reads back what its encoder wrote, for the values the
source's integer types can hold (`Fits`), and accepts nothing else (`archive_codec_canonical`).
-/

namespace Zinder.Canonical

open BigEndian ByteFields List

/-! ## Keys -/

def archiveVersionOne : UInt8 := 1

def archiveStateKey : Bytes := [0x00]

def orderKeyTag : UInt8 := 0x01

def hashPointerKeyTag : UInt8 := 0x02

def eventContextKeyTag : UInt8 := 0x03

def encodeOrderKey (position : ArchivePosition) : Bytes :=
  orderKeyTag :: (toBytes 8 position.eventSequence ++
    (toBytes 4 position.height ++ position.blockHash.bytes))

def encodeHashPointerKey (hash : BlockHash) : Bytes := hashPointerKeyTag :: hash.bytes

def encodeEventContextKey (eventSequence : Nat) : Bytes :=
  eventContextKeyTag :: toBytes 8 eventSequence

def readArray (width : Nat) (encoded : Bytes) (offset : Nat) :
    Except CanonicalStoreError Bytes := do
  let bytes := (encoded.drop offset).take width
  rejectIf (bytes.length ≠ width)
    (.displacedArchive "archive fixed-width bytes are truncated")
  .ok bytes

variable (encoded : Bytes)

def decodeOrderKey : Except CanonicalStoreError ArchivePosition := do
  rejectIf (encoded.length ≠ 45 ∨ encoded.head? ≠ some orderKeyTag)
    (.displacedArchive "archive order key is not exact version-1 bytes")
  let event ← readArray 8 encoded 1
  let height ← readArray 4 encoded 9
  let hash ← readArray 32 encoded 13
  let blockHash ← okOr (bytes32OfBytes hash)
    (.displacedArchive "archive fixed-width bytes are truncated")
  .ok ⟨ofBytes event, ofBytes height, blockHash⟩

/-! ## Values -/

def encodeEventContext (context : ArchiveEventContext) : Bytes :=
  archiveVersionOne :: (toBytes 4 context.revertedRange.start ++
    (toBytes 4 context.revertedRange.stop ++ (toBytes 8 context.displacementEpoch ++
      (toBytes 8 context.displacedAt ++ (toBytes 4 context.rowCount ++
        toBytes 8 context.cumulativeBlockCount)))))

def decodeEventContext (eventSequence : Nat) : Except CanonicalStoreError ArchiveEventContext := do
  rejectIf (encoded.length ≠ 37 ∨ encoded.head? ≠ some archiveVersionOne)
    (.displacedArchive "archive event context is not exact version-1 bytes")
  let start ← readArray 4 encoded 1
  let stop ← readArray 4 encoded 5
  let epoch ← readArray 8 encoded 9
  let displacedAt ← readArray 8 encoded 17
  let rowCount ← readArray 4 encoded 25
  let cumulative ← readArray 8 encoded 29
  let context : ArchiveEventContext :=
    { eventSequence
      revertedRange := ⟨ofBytes start, ofBytes stop⟩
      displacementEpoch := ofBytes epoch
      displacedAt := ofBytes displacedAt
      rowCount := ofBytes rowCount
      cumulativeBlockCount := ofBytes cumulative }
  rejectIf (encodeEventContext context ≠ encoded)
    (.displacedArchive "archive event context is not canonical")
  .ok context

/-- The pointer of a hash: its key holds the hash itself. -/
def encodeHashPointer (position : ArchivePosition) : Bytes :=
  archiveVersionOne :: (toBytes 8 position.eventSequence ++ toBytes 4 position.height)

def decodeHashPointer (blockHash : BlockHash) : Except CanonicalStoreError ArchivePosition := do
  rejectIf (encoded.length ≠ 13 ∨ encoded.head? ≠ some archiveVersionOne)
    (.displacedArchive "archive hash pointer is not exact version-1 bytes")
  let event ← readArray 8 encoded 1
  let height ← readArray 4 encoded 9
  let position : ArchivePosition := ⟨ofBytes event, ofBytes height, blockHash⟩
  rejectIf (encodeHashPointer position ≠ encoded)
    (.displacedArchive "archive hash pointer is not canonical")
  .ok position

def encodeArchiveState (state : ArchiveState) : Bytes :=
  archiveVersionOne :: (toBytes 8 state.activationEventSequence ++
    (toBytes 8 state.activationEpoch ++ (toBytes 8 state.activatedAt ++
      (toBytes 8 state.blockCount ++ toBytes 8 state.latestEventSequence))))

def decodeArchiveState : Except CanonicalStoreError ArchiveState := do
  rejectIf (encoded.length ≠ 41 ∨ encoded.head? ≠ some archiveVersionOne)
    (.displacedArchive "archive state is not exact version-1 bytes")
  let activation ← readArray 8 encoded 1
  let epoch ← readArray 8 encoded 9
  let activatedAt ← readArray 8 encoded 17
  let blockCount ← readArray 8 encoded 25
  let latest ← readArray 8 encoded 33
  let state : ArchiveState :=
    { activationEventSequence := ofBytes activation
      activationEpoch := ofBytes epoch
      activatedAt := ofBytes activatedAt
      blockCount := ofBytes blockCount
      latestEventSequence := ofBytes latest }
  rejectIf (encodeArchiveState state ≠ encoded)
    (.displacedArchive "archive state is not canonical")
  .ok state

/-! ## Records -/

def encodeOptionalBytes : Option Bytes → Bytes
  | none => [0]
  | some bytes => 1 :: (toBytes 4 bytes.length ++ bytes)

def encodeOptionalRoot : Option Bytes32 → Bytes
  | none => [0]
  | some root => 1 :: root.bytes

def encodeOptionalRoots : Option BlockFinalNoteCommitmentRoots → Bytes
  | none => [0]
  | some roots => 1 :: (toBytes 4 roots.height ++ (roots.blockHash.bytes ++
      (encodeOptionalRoot roots.sapling ++ (encodeOptionalRoot roots.orchard ++
        encodeOptionalRoot roots.ironwood))))

/-- `encode_archive_record`, for lengths that fit `u32`; the write refuses the others
(`archiveBlockRows`). -/
def encodeArchiveRecord (record : ArchiveRecord) : Bytes :=
  archiveVersionOne :: (toBytes 4 record.replayBytes.length ++ (record.replayBytes ++
    (toBytes 8 record.displacementEpoch ++ (toBytes 8 record.displacedAt ++
      (encodeOptionalBytes record.rawBlockBytes ++
        encodeOptionalRoots record.finalNoteCommitmentRoots)))))

/-- `ArchiveDecoder::read_bytes`, on the bytes from the offset on. -/
def readBytes (length : Nat) (input : Bytes) : Except CanonicalStoreError (Bytes × Bytes) := do
  rejectIf (input.length < length) (.displacedArchive "archive value is truncated")
  .ok (input.take length, input.drop length)

variable (input : Bytes)

def readU8 : Except CanonicalStoreError (UInt8 × Bytes) := do
  let (bytes, rest) ← readBytes 1 input
  let byte ← okOr bytes.head? (.displacedArchive "archive value ended before one byte")
  .ok (byte, rest)

def readNumber (width : Nat) (input : Bytes) : Except CanonicalStoreError (Nat × Bytes) := do
  let (bytes, rest) ← readBytes width input
  .ok (ofBytes bytes, rest)

def readBytes32 : Except CanonicalStoreError (Bytes32 × Bytes) := do
  let (bytes, rest) ← readBytes 32 input
  let root ← okOr (bytes32OfBytes bytes)
    (.displacedArchive "archive fixed-width value is truncated")
  .ok (root, rest)

def readPresence : Except CanonicalStoreError (Bool × Bytes) := do
  let (byte, rest) ← readU8 input
  if byte = 0 then .ok (false, rest)
  else if byte = 1 then .ok (true, rest)
  else .error (.displacedArchive "archive optional presence is not canonical")

def readOptionalBytes : Except CanonicalStoreError (Option Bytes × Bytes) := do
  let (present, rest) ← readPresence input
  if present = true then do
    let (length, rest) ← readNumber 4 rest
    let (bytes, rest) ← readBytes length rest
    .ok (some bytes, rest)
  else .ok (none, rest)

def readOptionalRoot : Except CanonicalStoreError (Option Bytes32 × Bytes) := do
  let (present, rest) ← readPresence input
  if present = true then do
    let (root, rest) ← readBytes32 rest
    .ok (some root, rest)
  else .ok (none, rest)

def readOptionalRoots :
    Except CanonicalStoreError (Option BlockFinalNoteCommitmentRoots × Bytes) := do
  let (present, rest) ← readPresence input
  if present = true then do
    let (height, rest) ← readNumber 4 rest
    let (blockHash, rest) ← readBytes32 rest
    let (sapling, rest) ← readOptionalRoot rest
    let (orchard, rest) ← readOptionalRoot rest
    let (ironwood, rest) ← readOptionalRoot rest
    .ok (some ⟨height, blockHash, sapling, orchard, ironwood⟩, rest)
  else .ok (none, rest)

def decodeArchiveRecord : Except CanonicalStoreError ArchiveRecord := do
  let (version, rest) ← readU8 encoded
  rejectIf (version ≠ archiveVersionOne)
    (.displacedArchive "archive order value has an unsupported version")
  let (replayLength, rest) ← readNumber 4 rest
  let (replayBytes, rest) ← readBytes replayLength rest
  let (displacementEpoch, rest) ← readNumber 8 rest
  let (displacedAt, rest) ← readNumber 8 rest
  let (rawBlockBytes, rest) ← readOptionalBytes rest
  let (finalNoteCommitmentRoots, rest) ← readOptionalRoots rest
  rejectIf (rest ≠ []) (.displacedArchive "archive order value has trailing bytes")
  let record : ArchiveRecord :=
    { replayBytes, displacementEpoch, displacedAt, rawBlockBytes, finalNoteCommitmentRoots }
  rejectIf (encodeArchiveRecord record ≠ encoded)
    (.displacedArchive "archive order value is not canonical bytes")
  .ok record

/-! ## Values that fit -/

structure ArchivePosition.Fits (p : ArchivePosition) : Prop where
  eventSequence : p.eventSequence < u64Bound
  height : p.height < u32Bound

structure ArchiveEventContext.Fits (c : ArchiveEventContext) : Prop where
  start : c.revertedRange.start < u32Bound
  stop : c.revertedRange.stop < u32Bound
  displacementEpoch : c.displacementEpoch < u64Bound
  displacedAt : c.displacedAt < u64Bound
  rowCount : c.rowCount < u32Bound
  cumulativeBlockCount : c.cumulativeBlockCount < u64Bound

structure ArchiveState.Fits (s : ArchiveState) : Prop where
  activationEventSequence : s.activationEventSequence < u64Bound
  activationEpoch : s.activationEpoch < u64Bound
  activatedAt : s.activatedAt < u64Bound
  blockCount : s.blockCount < u64Bound
  latestEventSequence : s.latestEventSequence < u64Bound

structure ArchiveRecord.Fits (r : ArchiveRecord) : Prop where
  replayBytes : r.replayBytes.length < u32Bound
  displacementEpoch : r.displacementEpoch < u64Bound
  displacedAt : r.displacedAt < u64Bound
  rawBlockBytes : ∀ raw ∈ r.rawBlockBytes, raw.length < u32Bound
  roots : ∀ roots ∈ r.finalNoteCommitmentRoots, roots.height < u32Bound

/-! ## Fixed-width fields -/

variable {n : Nat}

theorem ofBytes_u64 (h : n < u64Bound) : ofBytes (toBytes 8 n) = n :=
  ofBytes_toBytes_of_lt h

theorem ofBytes_u32 (h : n < u32Bound) : ofBytes (toBytes 4 n) = n :=
  ofBytes_toBytes_of_lt h

theorem readArray_eq_ok {encoded : Bytes} {width offset : Nat} {field : Bytes} :
    readArray width encoded offset = .ok field ↔
      field = slice encoded offset width ∧ field.length = width := by
  simp only [readArray, bind_eq_ok, rejectIf_eq_ok, not_not, Except.ok.injEq]
  constructor
  · rintro ⟨_, hlength, rfl⟩
    exact ⟨rfl, hlength⟩
  · rintro ⟨rfl, hlength⟩
    exact ⟨(), hlength, rfl⟩

theorem readArray_toBytes {encoded : Bytes} {width offset : Nat} (n : Nat)
    (h : slice encoded offset width = toBytes width n) :
    readArray width encoded offset = .ok (toBytes width n) :=
  readArray_eq_ok.mpr ⟨h.symm, length_toBytes ..⟩

theorem readArray_eventContextKey (n : Nat) :
    readArray 8 (encodeEventContextKey n) 1 = .ok (toBytes 8 n) :=
  readArray_toBytes n (slice_eq_self (length_toBytes ..))

theorem bytes32OfBytes_bytes (b : Bytes32) : bytes32OfBytes b.bytes = some b := by
  simp [bytes32OfBytes, b.length_eq]

/-! ## Round trips

A decoder encodes its result again and compares. The proofs read the fields first and rewrite the
whole result at once: under the decision of that comparison the kernel would compute with the
numbers. -/

variable {p : ArchivePosition}

theorem decodeOrderKey_encode (h : p.Fits) : decodeOrderKey (encodeOrderKey p) = .ok p := by
  have hlength : (encodeOrderKey p).length = 45 := by simp [encodeOrderKey, p.blockHash.length_eq]
  simp only [decodeOrderKey, bind_eq_ok, rejectIf_eq_ok, okOr_eq_ok]
  refine ⟨(), ?_, _, readArray_toBytes p.eventSequence ?_, _, readArray_toBytes p.height ?_, _,
    readArray_eq_ok.mpr ⟨?_, p.blockHash.length_eq⟩, _, bytes32OfBytes_bytes _, ?_⟩
  · rw [hlength]
    simp [encodeOrderKey]
  rotate_right
  · rw [ofBytes_u64 h.eventSequence, ofBytes_u32 h.height]
  all_goals
    simp [encodeOrderKey, slice_cons, slice_append_left, slice_append_right, slice_eq_self,
      Bytes32.length_eq]

theorem decodeEventContext_encode {c : ArchiveEventContext} (h : c.Fits) :
    decodeEventContext (encodeEventContext c) c.eventSequence = .ok c := by
  have hlength : (encodeEventContext c).length = 37 := by simp [encodeEventContext]
  have hcontext : (⟨c.eventSequence,
      ⟨ofBytes (toBytes 4 c.revertedRange.start), ofBytes (toBytes 4 c.revertedRange.stop)⟩,
      ofBytes (toBytes 8 c.displacementEpoch), ofBytes (toBytes 8 c.displacedAt),
      ofBytes (toBytes 4 c.rowCount), ofBytes (toBytes 8 c.cumulativeBlockCount)⟩ :
      ArchiveEventContext) = c := by
    rw [ofBytes_u32 h.start, ofBytes_u32 h.stop, ofBytes_u64 h.displacementEpoch,
      ofBytes_u64 h.displacedAt, ofBytes_u32 h.rowCount, ofBytes_u64 h.cumulativeBlockCount]
  simp only [decodeEventContext, bind_eq_ok, rejectIf_eq_ok]
  refine ⟨(), ?_, _, readArray_toBytes c.revertedRange.start ?_, _,
    readArray_toBytes c.revertedRange.stop ?_, _, readArray_toBytes c.displacementEpoch ?_, _,
    readArray_toBytes c.displacedAt ?_, _, readArray_toBytes c.rowCount ?_, _,
    readArray_toBytes c.cumulativeBlockCount ?_, (), ?_, ?_⟩
  · rw [hlength]
    simp [encodeEventContext]
  rotate_right 2
  · rw [hcontext, not_not]
  · rw [hcontext]
  all_goals
    simp [encodeEventContext, slice_cons, slice_append_left, slice_append_right, slice_eq_self]

theorem decodeHashPointer_encode (h : p.Fits) :
    decodeHashPointer (encodeHashPointer p) p.blockHash = .ok p := by
  have hlength : (encodeHashPointer p).length = 13 := by simp [encodeHashPointer]
  have hposition : (⟨ofBytes (toBytes 8 p.eventSequence), ofBytes (toBytes 4 p.height),
      p.blockHash⟩ : ArchivePosition) = p := by
    rw [ofBytes_u64 h.eventSequence, ofBytes_u32 h.height]
  simp only [decodeHashPointer, bind_eq_ok, rejectIf_eq_ok]
  refine ⟨(), ?_, _, readArray_toBytes p.eventSequence ?_, _, readArray_toBytes p.height ?_, (),
    ?_, ?_⟩
  · rw [hlength]
    simp [encodeHashPointer]
  rotate_right 2
  · rw [hposition, not_not]
  · rw [hposition]
  all_goals
    simp [encodeHashPointer, slice_cons, slice_append_left, slice_append_right, slice_eq_self]

theorem decodeArchiveState_encode {s : ArchiveState} (h : s.Fits) :
    decodeArchiveState (encodeArchiveState s) = .ok s := by
  have hlength : (encodeArchiveState s).length = 41 := by simp [encodeArchiveState]
  have hstate : (⟨ofBytes (toBytes 8 s.activationEventSequence),
      ofBytes (toBytes 8 s.activationEpoch), ofBytes (toBytes 8 s.activatedAt),
      ofBytes (toBytes 8 s.blockCount), ofBytes (toBytes 8 s.latestEventSequence)⟩ :
      ArchiveState) = s := by
    rw [ofBytes_u64 h.activationEventSequence, ofBytes_u64 h.activationEpoch,
      ofBytes_u64 h.activatedAt, ofBytes_u64 h.blockCount, ofBytes_u64 h.latestEventSequence]
  simp only [decodeArchiveState, bind_eq_ok, rejectIf_eq_ok]
  refine ⟨(), ?_, _, readArray_toBytes s.activationEventSequence ?_, _,
    readArray_toBytes s.activationEpoch ?_, _, readArray_toBytes s.activatedAt ?_, _,
    readArray_toBytes s.blockCount ?_, _, readArray_toBytes s.latestEventSequence ?_, (), ?_, ?_⟩
  · rw [hlength]
    simp [encodeArchiveState]
  rotate_right 2
  · rw [hstate, not_not]
  · rw [hstate]
  all_goals
    simp [encodeArchiveState, slice_cons, slice_append_left, slice_append_right, slice_eq_self]

/-! ### Records -/

theorem readBytes_append {length : Nat} {bytes rest : Bytes} (h : bytes.length = length) :
    readBytes length (bytes ++ rest) = .ok (bytes, rest) := by
  subst h
  simp [readBytes, rejectIf]

@[simp] theorem readU8_cons (b : UInt8) (rest : Bytes) : readU8 (b :: rest) = .ok (b, rest) := by
  have hbytes : readBytes 1 ([b] ++ rest) = .ok ([b], rest) := readBytes_append rfl
  rw [singleton_append] at hbytes
  simp [readU8, hbytes]

@[simp] theorem readNumber_u32 (h : n < u32Bound) (rest : Bytes) :
    readNumber 4 (toBytes 4 n ++ rest) = .ok (n, rest) := by
  simp [readNumber, readBytes_append, ofBytes_u32 h]

@[simp] theorem readNumber_u64 (h : n < u64Bound) (rest : Bytes) :
    readNumber 8 (toBytes 8 n ++ rest) = .ok (n, rest) := by
  simp [readNumber, readBytes_append, ofBytes_u64 h]

@[simp] theorem readBytes32_append (b : Bytes32) (rest : Bytes) :
    readBytes32 (b.bytes ++ rest) = .ok (b, rest) := by
  simp [readBytes32, readBytes_append b.length_eq, bytes32OfBytes_bytes]

@[simp] theorem readPresence_absent (rest : Bytes) :
    readPresence (0 :: rest) = .ok (false, rest) := by
  simp [readPresence]

@[simp] theorem readPresence_present (rest : Bytes) :
    readPresence (1 :: rest) = .ok (true, rest) := by
  simp [readPresence]

@[simp] theorem readOptionalBytes_encode {bytes : Option Bytes}
    (h : ∀ b ∈ bytes, b.length < u32Bound) (rest : Bytes) :
    readOptionalBytes (encodeOptionalBytes bytes ++ rest) = .ok (bytes, rest) := by
  cases bytes with
  | none => simp [readOptionalBytes, encodeOptionalBytes]
  | some b =>
    rw [encodeOptionalBytes, cons_append, append_assoc]
    simp only [readOptionalBytes, bind_eq_ok]
    refine ⟨_, readPresence_present _, ?_⟩
    rw [if_pos rfl]
    simp only [bind_eq_ok]
    exact ⟨_, readNumber_u32 (h b rfl) _, _, readBytes_append rfl, rfl⟩

@[simp] theorem readOptionalRoot_encode (root : Option Bytes32) (rest : Bytes) :
    readOptionalRoot (encodeOptionalRoot root ++ rest) = .ok (root, rest) := by
  cases root <;> simp [readOptionalRoot, encodeOptionalRoot]

theorem readOptionalRoots_encode {roots : Option BlockFinalNoteCommitmentRoots}
    (h : ∀ r ∈ roots, r.height < u32Bound) :
    readOptionalRoots (encodeOptionalRoots roots) = .ok (roots, []) := by
  cases roots with
  | none => simp [readOptionalRoots, encodeOptionalRoots]
  | some r =>
    have hlast : readOptionalRoot (encodeOptionalRoot r.ironwood) = .ok (r.ironwood, []) := by
      have := readOptionalRoot_encode r.ironwood []
      rwa [append_nil] at this
    simp [readOptionalRoots, encodeOptionalRoots, h r rfl, hlast]

theorem decodeArchiveRecord_encode {r : ArchiveRecord} (h : r.Fits) :
    decodeArchiveRecord (encodeArchiveRecord r) = .ok r := by
  simp only [decodeArchiveRecord, bind_eq_ok, rejectIf_eq_ok]
  refine ⟨_, readU8_cons _ _, (), not_not.mpr rfl, _, readNumber_u32 h.replayBytes _, _,
    readBytes_append rfl, _, readNumber_u64 h.displacementEpoch _, _,
    readNumber_u64 h.displacedAt _, _, readOptionalBytes_encode h.rawBlockBytes _, _,
    readOptionalRoots_encode h.roots, (), not_not.mpr rfl, (), not_not.mpr rfl, rfl⟩

/-! ## Key order -/

/-- Order rows are sorted by event, then height, then hash. -/
theorem encodeOrderKey_lt {p q : ArchivePosition} (hp : p.Fits) (hq : q.Fits) :
    encodeOrderKey p < encodeOrderKey q ↔
      p.eventSequence < q.eventSequence ∨ p.eventSequence = q.eventSequence ∧
        (p.height < q.height ∨ p.height = q.height ∧ p.blockHash.bytes < q.blockHash.bytes) := by
  rw [encodeOrderKey, encodeOrderKey, cons_lt_cons_self, append_lt_append (by simp),
    append_lt_append (by simp), toBytes_lt_toBytes hp.eventSequence hq.eventSequence,
    toBytes_lt_toBytes hp.height hq.height, toBytes_inj hp.eventSequence hq.eventSequence,
    toBytes_inj hp.height hq.height]

theorem encodeEventContextKey_lt {m n : Nat} (hm : m < u64Bound) (hn : n < u64Bound) :
    encodeEventContextKey m < encodeEventContextKey n ↔ m < n := by
  rw [encodeEventContextKey, encodeEventContextKey, cons_lt_cons_self,
    toBytes_lt_toBytes (hm) (hn)]

/-! ## Accepted bytes -/

section Accepted

variable {encoded : Bytes}

theorem readArray_number_lt {width offset : Nat} {field : Bytes}
    (h : readArray width encoded offset = .ok field) : ofBytes field < 256 ^ width := by
  have hlt := ofBytes_lt field
  rwa [(readArray_eq_ok.mp h).2] at hlt

theorem readNumber_lt {width n : Nat} {rest : Bytes}
    (h : readNumber width encoded = .ok (n, rest)) : n < 256 ^ width := by
  simp only [readNumber, readBytes, bind_eq_ok, rejectIf_eq_ok, Except.ok.injEq, Prod.mk.injEq] at h
  obtain ⟨_, ⟨_, hlength, rfl⟩, rfl, rfl⟩ := h
  have hlt := ofBytes_lt (encoded.take width)
  rwa [length_take, Nat.min_eq_left (Nat.not_lt.mp hlength)] at hlt

/-- An order key is its tag and three fields, which the decoder reads apart. -/
theorem decodeOrderKey_eq_ok (h : decodeOrderKey encoded = .ok p) :
    encodeOrderKey p = encoded ∧ p.Fits := by
  simp only [decodeOrderKey, bind_eq_ok, rejectIf_eq_ok, okOr_eq_ok, not_or, not_not,
    Except.ok.injEq] at h
  obtain ⟨_, ⟨hlength, htag⟩, event, hevent, height, hheight, hash, hhash, blockHash, hblock, rfl⟩ := h
  refine ⟨?_, readArray_number_lt hevent, readArray_number_lt hheight⟩
  rw [readArray_eq_ok] at hevent hheight hhash
  have hbytes : blockHash.bytes = hash := by
    simp only [bytes32OfBytes, Option.dite_none_right_eq_some, Option.some.injEq] at hblock
    obtain ⟨_, rfl⟩ := hblock
    rfl
  obtain ⟨tag, fields, rfl⟩ : ∃ tag fields, encoded = tag :: fields := by
    cases encoded with
    | nil => simp at htag
    | cons tag fields => exact ⟨tag, fields, rfl⟩
  obtain rfl : tag = orderKeyTag := by simpa using htag
  rw [encodeOrderKey, toBytes_ofBytes hevent.2, toBytes_ofBytes hheight.2, hbytes, hevent.1, hheight.1,
    hhash.1, slice_append_slice rfl, slice_append_slice rfl,
    slice_cons Nat.one_pos, slice_eq_self (by simpa using hlength)]

theorem decodeHashPointer_eq_ok {blockHash : BlockHash}
    (h : decodeHashPointer encoded blockHash = .ok p) :
    encodeHashPointer p = encoded ∧ p.Fits ∧ p.blockHash = blockHash := by
  simp only [decodeHashPointer, bind_eq_ok, rejectIf_eq_ok, not_not, Except.ok.injEq] at h
  obtain ⟨_, _, event, hevent, height, hheight, _, hencoded, rfl⟩ := h
  exact ⟨hencoded, ⟨readArray_number_lt hevent,
    readArray_number_lt hheight⟩, rfl⟩

theorem decodeEventContext_eq_ok {eventSequence : Nat} {c : ArchiveEventContext}
    (h : decodeEventContext encoded eventSequence = .ok c) :
    encodeEventContext c = encoded ∧ c.Fits ∧ c.eventSequence = eventSequence := by
  simp only [decodeEventContext, bind_eq_ok, rejectIf_eq_ok, not_not, Except.ok.injEq] at h
  obtain ⟨_, _, start, hstart, stop, hstop, epoch, hepoch, displacedAt, hat, rowCount, hrows,
    cumulative, hcumulative, _, hencoded, rfl⟩ := h
  refine ⟨hencoded, ⟨?_, ?_, ?_, ?_, ?_, ?_⟩, rfl⟩
  · exact readArray_number_lt hstart
  · exact readArray_number_lt hstop
  · exact readArray_number_lt hepoch
  · exact readArray_number_lt hat
  · exact readArray_number_lt hrows
  · exact readArray_number_lt hcumulative

theorem decodeArchiveState_eq_ok {s : ArchiveState} (h : decodeArchiveState encoded = .ok s) :
    encodeArchiveState s = encoded ∧ s.Fits := by
  simp only [decodeArchiveState, bind_eq_ok, rejectIf_eq_ok, not_not, Except.ok.injEq] at h
  obtain ⟨_, _, activation, hactivation, epoch, hepoch, activatedAt, hat, blockCount, hcount, latest,
    hlatest, _, hencoded, rfl⟩ := h
  refine ⟨hencoded, ⟨?_, ?_, ?_, ?_, ?_⟩⟩
  · exact readArray_number_lt hactivation
  · exact readArray_number_lt hepoch
  · exact readArray_number_lt hat
  · exact readArray_number_lt hcount
  · exact readArray_number_lt hlatest

theorem length_of_readBytes {length : Nat} {bytes rest : Bytes}
    (h : readBytes length encoded = .ok (bytes, rest)) : bytes.length = length := by
  simp only [readBytes, bind_eq_ok, rejectIf_eq_ok, Except.ok.injEq, Prod.mk.injEq] at h
  obtain ⟨_, hlength, rfl, rfl⟩ := h
  rw [length_take, Nat.min_eq_left (Nat.not_lt.mp hlength)]

theorem readOptionalBytes_fits {raw rest : Bytes}
    (h : readOptionalBytes encoded = .ok (some raw, rest)) : raw.length < u32Bound := by
  simp only [readOptionalBytes, bind_eq_ok] at h
  obtain ⟨⟨present, rest₁⟩, _, h⟩ := h
  split at h
  · simp only [bind_eq_ok, Except.ok.injEq, Prod.mk.injEq, Option.some.injEq] at h
    obtain ⟨⟨length, rest₂⟩, hnumber, ⟨bytes, rest₃⟩, hbytes, rfl, rfl⟩ := h
    rw [length_of_readBytes hbytes]
    exact readNumber_lt hnumber
  · cases h

theorem readOptionalRoots_fits {roots : BlockFinalNoteCommitmentRoots} {rest : Bytes}
    (h : readOptionalRoots encoded = .ok (some roots, rest)) : roots.height < u32Bound := by
  simp only [readOptionalRoots, bind_eq_ok] at h
  obtain ⟨⟨present, rest₁⟩, _, h⟩ := h
  split at h
  · simp only [bind_eq_ok, Except.ok.injEq, Prod.mk.injEq, Option.some.injEq] at h
    obtain ⟨⟨height, _⟩, hnumber, _, _, _, _, _, _, _, _, rfl, rfl⟩ := h
    exact readNumber_lt hnumber
  · cases h

theorem decodeArchiveRecord_eq_ok {r : ArchiveRecord} (h : decodeArchiveRecord encoded = .ok r) :
    encodeArchiveRecord r = encoded ∧ r.Fits := by
  simp only [decodeArchiveRecord, bind_eq_ok, rejectIf_eq_ok, not_not, Except.ok.injEq] at h
  obtain ⟨_, _, _, _, ⟨replayLength, _⟩, hlength, ⟨replayBytes, _⟩, hreplay, ⟨epoch, _⟩, hepoch,
    ⟨displacedAt, _⟩, hat, ⟨raw, _⟩, hraw, ⟨roots, _⟩, hroots, _, _, _, hencoded, rfl⟩ := h
  refine ⟨hencoded, ⟨?_, ?_, ?_, ?_, ?_⟩⟩
  · rw [length_of_readBytes hreplay]
    exact readNumber_lt hlength
  · exact readNumber_lt hepoch
  · exact readNumber_lt hat
  · rintro bytes rfl
    exact readOptionalBytes_fits hraw
  · rintro found rfl
    exact readOptionalRoots_fits hroots

end Accepted

/-- The archive's encodings are canonical: every decoder returns what was encoded, accepts only the
encoding of what it returns, and order keys are sorted as bytes by event, then height, then hash. -/
theorem archive_codec_canonical :
    ((∀ r : ArchiveRecord, r.Fits → decodeArchiveRecord (encodeArchiveRecord r) = .ok r) ∧
      (∀ c : ArchiveEventContext, c.Fits →
        decodeEventContext (encodeEventContext c) c.eventSequence = .ok c) ∧
      (∀ s : ArchiveState, s.Fits → decodeArchiveState (encodeArchiveState s) = .ok s) ∧
      (∀ p : ArchivePosition, p.Fits → decodeOrderKey (encodeOrderKey p) = .ok p) ∧
      ∀ p : ArchivePosition, p.Fits → decodeHashPointer (encodeHashPointer p) p.blockHash = .ok p) ∧
    ((∀ encoded r, decodeArchiveRecord encoded = .ok r → encodeArchiveRecord r = encoded ∧ r.Fits) ∧
      (∀ encoded eventSequence c, decodeEventContext encoded eventSequence = .ok c →
        encodeEventContext c = encoded ∧ c.Fits ∧ c.eventSequence = eventSequence) ∧
      (∀ encoded s, decodeArchiveState encoded = .ok s → encodeArchiveState s = encoded ∧ s.Fits) ∧
      (∀ encoded p, decodeOrderKey encoded = .ok p → encodeOrderKey p = encoded ∧ p.Fits) ∧
      ∀ encoded blockHash p, decodeHashPointer encoded blockHash = .ok p →
        encodeHashPointer p = encoded ∧ p.Fits ∧ p.blockHash = blockHash) ∧
    ∀ p q : ArchivePosition, p.Fits → q.Fits →
      (encodeOrderKey p < encodeOrderKey q ↔
        p.eventSequence < q.eventSequence ∨ p.eventSequence = q.eventSequence ∧
          (p.height < q.height ∨ p.height = q.height ∧ p.blockHash.bytes < q.blockHash.bytes)) := by
  refine ⟨⟨?_, ?_, ?_, ?_, ?_⟩, ⟨?_, ?_, ?_, ?_, ?_⟩, ?_⟩
  · intro r h
    exact decodeArchiveRecord_encode h
  · intro c h
    exact decodeEventContext_encode h
  · intro s h
    exact decodeArchiveState_encode h
  · intro p h
    exact decodeOrderKey_encode h
  · intro p h
    exact decodeHashPointer_encode h
  · intro encoded r h
    exact decodeArchiveRecord_eq_ok h
  · intro encoded eventSequence c h
    exact decodeEventContext_eq_ok h
  · intro encoded s h
    exact decodeArchiveState_eq_ok h
  · intro encoded p h
    exact decodeOrderKey_eq_ok h
  · intro encoded blockHash p h
    exact decodeHashPointer_eq_ok h
  · intro p q hp hq
    exact encodeOrderKey_lt hp hq

/-- A record with raw bytes and the roots of two pools. -/
def sampleArchiveRecord : ArchiveRecord where
  replayBytes := [7, 8, 9]
  displacementEpoch := 4
  displacedAt := 1000
  rawBlockBytes := some []
  finalNoteCommitmentRoots := some ⟨2, repeatedByte 1, some (repeatedByte 2), none,
    some (repeatedByte 3)⟩

theorem archive_codec_canonical_sample :
    decodeArchiveRecord (encodeArchiveRecord sampleArchiveRecord) = .ok sampleArchiveRecord ∧
      encodeOrderKey ⟨1, 9, repeatedByte 5⟩ <
        encodeOrderKey ⟨2, 3, repeatedByte 4⟩ := by
  obtain ⟨⟨hrecord, _⟩, _, horder⟩ := archive_codec_canonical
  refine ⟨hrecord sampleArchiveRecord ⟨?_, ?_, ?_, ?_, ?_⟩, ?_⟩
  · decide
  · decide
  · decide
  · decide
  · decide
  · exact (horder _ _ ⟨by decide, by decide⟩ ⟨by decide, by decide⟩).mpr (.inl (by decide))

end Zinder.Canonical
