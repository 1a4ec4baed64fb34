import Zinder.Lib.ByteFields
import Zinder.Mempool.Event

/-!
# Zinder.Mempool.Cursor

The two cursor tokens of the mempool surface: the event cursor a stream resumes after, and the paging
cursor of a snapshot walk.

Both are byte strings with a fixed body and an authentication tag over it. The tag function (an HMAC
in the source) is a parameter; nothing here depends on it beyond its being a function of the key and
the body. `decodeMempoolEvent_mempoolEvent` and `decodeSnapshotPage_snapshotPage` say that a token
minted here is read back as what it was minted from.
-/

namespace Zinder.Mempool

open List
open ByteFields (slice slice_append)

/-- What a store signs cursors with: its network, its key and the tag function. -/
structure CursorAuthority where
  network : Network
  cursorAuthKey : Bytes32
  authTag : Bytes32 → Bytes → Bytes32

structure StreamCursorTokenV1 where
  bytes : Bytes
deriving DecidableEq

inductive StreamCursorError where
  | invalidLength (byteCount : Nat)
  | unsupportedSchemaVersion (version : UInt8)
  | unknownNetwork (networkId : Nat)
  | networkMismatch (expected actual : Network)
  | streamFamilyMismatch (flags : UInt8)
  | invalidLocatorLength (entryCount : Nat)
  | invalidAuthTag
deriving DecidableEq

def streamCursorSchemaVersion : UInt8 := 1

def streamFamilyMask : UInt8 := 0x0f

def streamReservedFlagsMask : UInt8 := 0xf0

def mempoolEventFlags : UInt8 := 0x2

def snapshotPageFlags : UInt8 := 0x5

def cursorBodyLen : Nat := 50

def authTagLen : Nat := 32

def snapshotPageCursorLen : Nat := cursorBodyLen + 32 + authTagLen

variable (bytes : Bytes) (offset : Nat)

def readU32Be : Nat := BigEndian.ofBytes (slice bytes offset 4)

def readU64Be : Nat := BigEndian.ofBytes (slice bytes offset 8)

def readBytes32 : Except StreamCursorError Bytes32 :=
  if h : (slice bytes offset 32).length = 32 then .ok ⟨slice bytes offset 32, h⟩
  else .error (.invalidLength bytes.length)

/-- The fixed body both token kinds share: version, network, sequence, transaction id, padding and
flags. -/
def cursorBody (network : Network) (sequence : Nat) (transactionId : TransactionId)
    (flags : UInt8) : Bytes :=
  streamCursorSchemaVersion :: (BigEndian.toBytes 4 network.id ++ (BigEndian.toBytes 8 sequence ++
    (transactionId.bytes ++ ([0, 0, 0, 0] ++ [flags]))))

variable (A : CursorAuthority) (token : StreamCursorTokenV1)

/-- The checks every token decoder makes, in the source's order, before they read the payload. -/
def checkToken (flags : UInt8) (bodyLen : Nat) (token : StreamCursorTokenV1) :
    Except StreamCursorError Unit := do
  rejectIf (token.bytes.length ≠ bodyLen + authTagLen) (.invalidLength token.bytes.length)
  let version := token.bytes.getD 0 0
  rejectIf (version ≠ streamCursorSchemaVersion) (.unsupportedSchemaVersion version)
  let networkId := readU32Be token.bytes 1
  let network ← okOr (Network.fromId networkId) (.unknownNetwork networkId)
  rejectIf (network ≠ A.network) (.networkMismatch A.network network)
  let tokenFlags := token.bytes.getD 49 0
  rejectIf (tokenFlags &&& streamReservedFlagsMask ≠ 0 ∨ tokenFlags &&& streamFamilyMask ≠ flags)
    (.streamFamilyMismatch tokenFlags)
  rejectIf ((A.authTag A.cursorAuthKey (token.bytes.take bodyLen)).bytes ≠ token.bytes.drop bodyLen)
    .invalidAuthTag

def sign (body : Bytes) : StreamCursorTokenV1 :=
  ⟨body ++ (A.authTag A.cursorAuthKey body).bytes⟩

/-! ## Event cursors -/

structure MempoolEventCursorPayload where
  eventSequence : Nat
  lastTransactionId : TransactionId
deriving DecidableEq

def StreamCursorTokenV1.mempoolEvent (eventSequence : Nat) (lastTransactionId : TransactionId) :
    StreamCursorTokenV1 :=
  sign A (cursorBody A.network eventSequence lastTransactionId mempoolEventFlags)

def StreamCursorTokenV1.decodeMempoolEvent :
    Except StreamCursorError MempoolEventCursorPayload := do
  checkToken A mempoolEventFlags cursorBodyLen token
  let transactionId ← readBytes32 token.bytes 13
  .ok ⟨readU64Be token.bytes 5, transactionId⟩

/-! ## Snapshot page cursors -/

structure SnapshotPageCursorPayload where
  eventsResumeAnchor : Option MempoolEventPosition
  afterTransactionId : TransactionId
deriving DecidableEq

def zeroTransactionId : TransactionId := repeatedByte 0

/-- An absent events-resume anchor is encoded as a zero pair. -/
def StreamCursorTokenV1.snapshotPage (eventsResumeAnchor : Option MempoolEventPosition)
    (afterTransactionId : TransactionId) :
    StreamCursorTokenV1 :=
  let anchor := eventsResumeAnchor.getD ⟨0, zeroTransactionId⟩
  sign A (cursorBody A.network anchor.eventSequence afterTransactionId snapshotPageFlags ++
    anchor.transactionId.bytes)

def StreamCursorTokenV1.decodeSnapshotPage :
    Except StreamCursorError SnapshotPageCursorPayload := do
  checkToken A snapshotPageFlags (snapshotPageCursorLen - authTagLen) token
  let afterTransactionId ← readBytes32 token.bytes 13
  let anchorTransactionId ← readBytes32 token.bytes cursorBodyLen
  let anchorEventSequence := readU64Be token.bytes 5
  .ok { eventsResumeAnchor :=
          if 0 < anchorEventSequence then some ⟨anchorEventSequence, anchorTransactionId⟩ else none
        afterTransactionId }

/-! ## The shared envelope -/

def envelope (network : Network) (payload : Bytes) (flags : UInt8) (rest : Bytes) : Bytes :=
  streamCursorSchemaVersion :: (BigEndian.toBytes 4 network.id ++ (payload ++ (flags :: rest)))

section Envelope

variable {A : CursorAuthority} {network : Network} {payload rest : Bytes} {flags : UInt8}

theorem readU32Be_envelope : readU32Be (envelope network payload flags rest) 1 = network.id := by
  have hslice : slice (envelope network payload flags rest) 1 4 = BigEndian.toBytes 4 network.id :=
    slice_append (a := [streamCursorSchemaVersion]) rfl (BigEndian.length_toBytes 4 _)
  rw [readU32Be, hslice, BigEndian.ofBytes_toBytes_of_lt network.id_lt]

theorem readU64Be_envelope {sequence : Nat} (h : sequence < u64Bound) :
    readU64Be (envelope network (BigEndian.toBytes 8 sequence ++ payload) flags rest) 5 =
      sequence := by
  have hslice : slice (envelope network (BigEndian.toBytes 8 sequence ++ payload) flags rest) 5 8 =
      BigEndian.toBytes 8 sequence := by
    rw [envelope, append_assoc, ← cons_append]
    exact slice_append (by simp) (by simp)
  have hbound : sequence < 256 ^ 8 := h
  rw [readU64Be, hslice, BigEndian.ofBytes_toBytes_of_lt hbound]

theorem sign_envelope :
    (sign A (envelope network payload flags rest)).bytes = envelope network payload flags
      (rest ++ (A.authTag A.cursorAuthKey (envelope network payload flags rest)).bytes) := by
  simp [sign, envelope]

variable (hpayload : payload.length = 44)
include hpayload

theorem getD_envelope : (envelope network payload flags rest).getD 49 0 = flags := by
  have hshape : envelope network payload flags rest =
      (streamCursorSchemaVersion :: (BigEndian.toBytes 4 network.id ++ payload)) ++
        (flags :: rest) := by
    simp [envelope]
  rw [hshape, getD_eq_getElem?_getD, getElem?_append_right (by simp [hpayload])]
  simp [hpayload]

theorem checkToken_sign {bodyLen : Nat} (hlen : cursorBodyLen + rest.length = bodyLen)
    (hflags : flags &&& streamReservedFlagsMask = 0 ∧ flags &&& streamFamilyMask = flags) :
    checkToken A flags bodyLen (sign A (envelope A.network payload flags rest)) = .ok () := by
  have hlength : (envelope A.network payload flags rest).length = bodyLen := by
    rw [← hlen]
    simp [envelope, hpayload, cursorBodyLen]
    omega
  simp only [checkToken, bind_eq_ok, rejectIf_eq_ok, okOr_eq_ok, not_or, not_not]
  refine ⟨(), ?_, (), rfl, A.network, ?_, (), rfl, (), ?_, ?_⟩
  · simp only [sign, length_append, hlength, Bytes32.length_eq, authTagLen]
  · rw [sign_envelope, readU32Be_envelope, Network.fromId_id]
  · rw [sign_envelope, getD_envelope hpayload]
    exact hflags
  · simp only [sign]
    rw [take_left' hlength, drop_left' hlength]

end Envelope

/-! ## Round trips -/

section RoundTrip

variable {A : CursorAuthority} {network : Network} {sequence : Nat} {id : TransactionId}
  {flags : UInt8} {rest : Bytes}

@[simp] theorem length_cursorBody :
    (cursorBody network sequence id flags).length = cursorBodyLen := by
  simp [cursorBody, cursorBodyLen, id.length_eq]

theorem cursorBody_append : cursorBody network sequence id flags ++ rest =
    envelope network (BigEndian.toBytes 8 sequence ++ (id.bytes ++ [0, 0, 0, 0])) flags rest := by
  simp [cursorBody, envelope]

theorem readU64Be_cursorBody (h : sequence < u64Bound) :
    readU64Be (cursorBody network sequence id flags ++ rest) 5 = sequence := by
  rw [cursorBody_append, readU64Be_envelope h]

theorem readBytes32_cursorBody :
    readBytes32 (cursorBody network sequence id flags ++ rest) 13 = .ok id := by
  have hslice : slice (cursorBody network sequence id flags ++ rest) 13 32 = id.bytes := by
    have hshape : cursorBody network sequence id flags ++ rest =
        (streamCursorSchemaVersion ::
          (BigEndian.toBytes 4 network.id ++ BigEndian.toBytes 8 sequence)) ++
          (id.bytes ++ (([0, 0, 0, 0] ++ [flags]) ++ rest)) := by
      simp [cursorBody]
    rw [hshape]
    exact slice_append (by simp) id.length_eq
  simp [readBytes32, hslice, id.length_eq]

theorem checkToken_cursorBody {bodyLen : Nat} (hlen : cursorBodyLen + rest.length = bodyLen)
    (hflags : flags &&& streamReservedFlagsMask = 0 ∧ flags &&& streamFamilyMask = flags) :
    checkToken A flags bodyLen (sign A (cursorBody A.network sequence id flags ++ rest)) =
      .ok () := by
  rw [cursorBody_append]
  exact checkToken_sign (by simp [id.length_eq]) hlen hflags

theorem decodeMempoolEvent_mempoolEvent (h : sequence < u64Bound) :
    (StreamCursorTokenV1.mempoolEvent A sequence id).decodeMempoolEvent A = .ok ⟨sequence, id⟩ := by
  have hcheck : checkToken A mempoolEventFlags cursorBodyLen
      (sign A (cursorBody A.network sequence id mempoolEventFlags ++ [])) = .ok () :=
    checkToken_cursorBody rfl (by decide)
  rw [append_nil] at hcheck
  simp only [StreamCursorTokenV1.decodeMempoolEvent, StreamCursorTokenV1.mempoolEvent, hcheck, ok_bind]
  simp only [sign, readBytes32_cursorBody, ok_bind, readU64Be_cursorBody h]

theorem decodeSnapshotPage_snapshotPage {anchor : Option MempoolEventPosition}
    (h : ∀ p, anchor = some p → 0 < p.eventSequence ∧ p.eventSequence < u64Bound) :
    (StreamCursorTokenV1.snapshotPage A anchor id).decodeSnapshotPage A = .ok ⟨anchor, id⟩ := by
  have hread : ∀ s (b : Bytes32) (tag : Bytes),
      readBytes32 (cursorBody A.network s id snapshotPageFlags ++ (b.bytes ++ tag)) cursorBodyLen =
        .ok b := by
    intro s b tag
    have hslice : slice (cursorBody A.network s id snapshotPageFlags ++ (b.bytes ++ tag))
        cursorBodyLen 32 = b.bytes := slice_append (by simp) b.length_eq
    simp [readBytes32, hslice, b.length_eq]
  have hbound : (anchor.getD ⟨0, zeroTransactionId⟩).eventSequence < u64Bound := by
    cases anchor with
    | none => decide
    | some p => exact (h p rfl).2
  have hcheck : checkToken A snapshotPageFlags (snapshotPageCursorLen - authTagLen)
      (.snapshotPage A anchor id) = .ok () :=
    checkToken_cursorBody (by rw [Bytes32.length_eq]; rfl) (by decide)
  simp only [StreamCursorTokenV1.decodeSnapshotPage, hcheck, ok_bind]
  simp only [StreamCursorTokenV1.snapshotPage, sign, append_assoc, readBytes32_cursorBody, hread, ok_bind,
    readU64Be_cursorBody hbound]
  cases anchor with
  | none => rfl
  | some p => simp [(h p rfl).1]

end RoundTrip

end Zinder.Mempool
