import Zinder.Mempool.Cursor

/-!
# Zinder.Format.StreamCursor

The stream cursor byte contract (`format/stream_cursor.rs`): the four kinds of token, what each is
minted from and what its decoder reads back.

Every token is a body followed by its tag. The bodies share one envelope: version, network, 44 bytes
of payload and the flags byte, which tells the kinds apart; a chain-event cursor goes on with the
count of its locator's ancestors and the ancestors, a snapshot-page cursor with a transaction id.

* `decode_mint` — a minted token is read back as what it was minted from.
* `mint_separated` — it is read back by no other kind of decoder and for no other network.
* `mint_of_decode` — what a decoder accepts is the token minted from what it read, as long as nobody
  without the key can tag a body.

A snapshot-page cursor encodes an absent anchor as a zero sequence, so an anchor with sequence zero
is read back as an absent one (`snapshotPage_zero_anchor`).
-/

namespace Zinder.Format

open Mempool List
open ByteFields (slice slice_append)

/-! ## Chain-event cursors -/

inductive ChainEventStreamFamily where
  | visible
  | settled
deriving DecidableEq

def ChainEventStreamFamily.flags : ChainEventStreamFamily → UInt8
  | visible => 0x0
  | settled => 0x1

def ChainEventStreamFamily.fromFlags (flags : UInt8) : Option ChainEventStreamFamily :=
  if flags &&& streamReservedFlagsMask ≠ 0 then none
  else if flags &&& streamFamilyMask = 0x0 then some visible
  else if flags &&& streamFamilyMask = 0x1 then some settled
  else none

/-- `CHAIN_EVENT_LOCATOR_MAX`. -/
def chainEventLocatorMax : Nat := 32

/-- `CHAIN_EVENT_LOCATOR_ENTRY_LEN`. -/
def chainEventLocatorEntryLen : Nat := 36

structure ChainEventCursorAnchor where
  height : Nat
  hash : BlockHash
deriving DecidableEq

/-- Tip-first `(height, hash)` entries: the tip and its back-spaced ancestors. -/
structure ChainEventLocator where
  tip : ChainEventCursorAnchor
  ancestors : List ChainEventCursorAnchor
  length_lt : ancestors.length < chainEventLocatorMax
deriving DecidableEq

def ChainEventLocator.new (entries : List ChainEventCursorAnchor) :
    Except StreamCursorError ChainEventLocator :=
  match entries with
  | [] => .error (.invalidLocatorLength 0)
  | tip :: ancestors =>
    if h : ancestors.length < chainEventLocatorMax then .ok ⟨tip, ancestors, h⟩
    else .error (.invalidLocatorLength (ancestors.length + 1))

def encodeAnchor (anchor : ChainEventCursorAnchor) : Bytes :=
  BigEndian.toBytes 4 anchor.height ++ anchor.hash.bytes

variable (network : Network) (family : ChainEventStreamFamily)

def chainEventBody (eventSequence : Nat) (locator : ChainEventLocator) : Bytes :=
  streamCursorSchemaVersion :: (BigEndian.toBytes 4 network.id ++
    (BigEndian.toBytes 8 eventSequence ++ (encodeAnchor locator.tip ++
      (family.flags :: UInt8.ofNat locator.ancestors.length ::
        locator.ancestors.flatMap encodeAnchor))))

variable (A : CursorAuthority) (token : StreamCursorTokenV1)

def chainEvent (family : ChainEventStreamFamily) (eventSequence : Nat)
    (locator : ChainEventLocator) : Except StreamCursorError StreamCursorTokenV1 := do
  rejectIf (256 ≤ locator.ancestors.length) (.invalidLocatorLength (locator.ancestors.length + 1))
  .ok (sign A (chainEventBody A.network family eventSequence locator))

def readAnchor (bytes : Bytes) (offset : Nat) :
    Except StreamCursorError ChainEventCursorAnchor := do
  let hash ← readBytes32 bytes (offset + 4)
  .ok ⟨readU32Be bytes offset, hash⟩

def readAnchors (bytes : Bytes) : (count offset : Nat) →
    Except StreamCursorError (List ChainEventCursorAnchor)
  | 0, _ => .ok []
  | count + 1, offset => do
    let anchor ← readAnchor bytes offset
    let rest ← readAnchors bytes count (offset + chainEventLocatorEntryLen)
    .ok (anchor :: rest)

structure ChainEventCursorPayload where
  family : ChainEventStreamFamily
  eventSequence : Nat
  locator : ChainEventLocator
deriving DecidableEq

def decodeChainEvent : Except StreamCursorError ChainEventCursorPayload := do
  rejectIf (token.bytes.length < cursorBodyLen + 1 + authTagLen)
    (.invalidLength token.bytes.length)
  let version := token.bytes.getD 0 0
  rejectIf (version ≠ streamCursorSchemaVersion) (.unsupportedSchemaVersion version)
  let networkId := readU32Be token.bytes 1
  let network ← okOr (Network.fromId networkId) (.unknownNetwork networkId)
  rejectIf (network ≠ A.network) (.networkMismatch A.network network)
  let flags := token.bytes.getD 49 0
  let family ← okOr (ChainEventStreamFamily.fromFlags flags) (.streamFamilyMismatch flags)
  let additionalCount := (token.bytes.getD cursorBodyLen 0).toNat
  rejectIf (chainEventLocatorMax ≤ additionalCount) (.invalidLocatorLength (additionalCount + 1))
  let bodyLen := cursorBodyLen + 1 + additionalCount * chainEventLocatorEntryLen
  rejectIf (token.bytes.length ≠ bodyLen + authTagLen) (.invalidLength token.bytes.length)
  rejectIf ((A.authTag A.cursorAuthKey (token.bytes.take bodyLen)).bytes ≠ token.bytes.drop bodyLen)
    .invalidAuthTag
  let tip ← readAnchor token.bytes 13
  let ancestors ← readAnchors token.bytes additionalCount (cursorBodyLen + 1)
  let locator ← ChainEventLocator.new (tip :: ancestors)
  .ok ⟨family, readU64Be token.bytes 5, locator⟩

/-! ## Address-output cursors -/

def addressOutputFlags : UInt8 := 0x4

structure AddressOutputCursorPayload where
  lastBlockHeight : Nat
  lastOutpoint : TransparentOutPoint
deriving DecidableEq

def addressOutputBody (network : Network) (lastBlockHeight : Nat)
    (lastOutpoint : TransparentOutPoint) : Bytes :=
  streamCursorSchemaVersion :: (BigEndian.toBytes 4 network.id ++
    (BigEndian.toBytes 4 lastBlockHeight ++ (lastOutpoint.transactionId.bytes ++
      (BigEndian.toBytes 4 lastOutpoint.outputIndex ++ ([0, 0, 0, 0] ++ [addressOutputFlags])))))

def addressOutput (lastBlockHeight : Nat) (lastOutpoint : TransparentOutPoint) :
    StreamCursorTokenV1 :=
  sign A (addressOutputBody A.network lastBlockHeight lastOutpoint)

def decodeAddressOutput : Except StreamCursorError AddressOutputCursorPayload := do
  checkToken A addressOutputFlags cursorBodyLen token
  let transactionId ← readBytes32 token.bytes 9
  .ok ⟨readU32Be token.bytes 5, ⟨transactionId, Fin.ofNat (2 ^ 32) (readU32Be token.bytes 41)⟩⟩

/-! ## The four kinds -/

inductive CursorKind where
  | chainEvent
  | mempoolEvent
  | addressOutput
  | snapshotPage
deriving DecidableEq

/-- What a token is minted from. -/
inductive CursorPayload where
  | chainEvent (payload : ChainEventCursorPayload)
  | mempoolEvent (payload : MempoolEventCursorPayload)
  | addressOutput (payload : AddressOutputCursorPayload)
  | snapshotPage (payload : SnapshotPageCursorPayload)
deriving DecidableEq

namespace CursorPayload

def kind : CursorPayload → CursorKind
  | chainEvent _ => .chainEvent
  | mempoolEvent _ => .mempoolEvent
  | addressOutput _ => .addressOutput
  | snapshotPage _ => .snapshotPage

/-- The values fit the integer types of the source. -/
def Fits : CursorPayload → Prop
  | chainEvent p => p.eventSequence < u64Bound ∧
      ∀ anchor ∈ p.locator.tip :: p.locator.ancestors, anchor.height < u32Bound
  | mempoolEvent p => p.eventSequence < u64Bound
  | addressOutput p => p.lastBlockHeight < u32Bound
  | snapshotPage p => ∀ position ∈ p.eventsResumeAnchor, position.eventSequence < u64Bound

/-- An events-resume anchor names an event, and events are numbered from one. -/
def Anchored : CursorPayload → Prop
  | snapshotPage p => ∀ position ∈ p.eventsResumeAnchor, 0 < position.eventSequence
  | _ => True

end CursorPayload

def mint : CursorPayload → Except StreamCursorError StreamCursorTokenV1
  | .chainEvent p => chainEvent A p.family p.eventSequence p.locator
  | .mempoolEvent p => .ok (.mempoolEvent A p.eventSequence p.lastTransactionId)
  | .addressOutput p => .ok (addressOutput A p.lastBlockHeight p.lastOutpoint)
  | .snapshotPage p => .ok (.snapshotPage A p.eventsResumeAnchor p.afterTransactionId)

def decode :
    CursorKind → Except StreamCursorError CursorPayload
  | .chainEvent => (decodeChainEvent A token).map .chainEvent
  | .mempoolEvent => (token.decodeMempoolEvent A).map .mempoolEvent
  | .addressOutput => (decodeAddressOutput A token).map .addressOutput
  | .snapshotPage => (token.decodeSnapshotPage A).map .snapshotPage

def CursorAuthority.forNetwork (network : Network) : CursorAuthority :=
  { A with network }

/-- Nobody without the key can tag a body: a token that carries a valid tag was minted, for some
network, from values the mint functions are called with. -/
def Unforged : Prop :=
  ∀ body, token = sign A body →
    ∃ network payload, CursorPayload.Fits payload ∧ CursorPayload.Anchored payload ∧
      mint (CursorAuthority.forNetwork A network) payload = .ok token

def CursorPayload.flags : CursorPayload → UInt8
  | chainEvent p => p.family.flags
  | mempoolEvent _ => mempoolEventFlags
  | addressOutput _ => addressOutputFlags
  | snapshotPage _ => snapshotPageFlags

/-- The flags bytes a decoder takes for its own. -/
def CursorKind.Takes (flags : UInt8) : CursorKind → Prop
  | chainEvent => (ChainEventStreamFamily.fromFlags flags).isSome
  | mempoolEvent => flags &&& streamReservedFlagsMask = 0 ∧ flags &&& streamFamilyMask = mempoolEventFlags
  | addressOutput => flags &&& streamReservedFlagsMask = 0 ∧ flags &&& streamFamilyMask = addressOutputFlags
  | snapshotPage => flags &&& streamReservedFlagsMask = 0 ∧ flags &&& streamFamilyMask = snapshotPageFlags

instance (flags : UInt8) (k : CursorKind) : Decidable (k.Takes flags) :=
  match k with
  | .chainEvent => inferInstanceAs (Decidable (_ = true))
  | .mempoolEvent => inferInstanceAs (Decidable (_ ∧ _))
  | .addressOutput => inferInstanceAs (Decidable (_ ∧ _))
  | .snapshotPage => inferInstanceAs (Decidable (_ ∧ _))

variable {k : CursorKind}

theorem CursorKind.eq_of_takes {p : CursorPayload} (h : k.Takes p.flags) : k = p.kind := by
  have hflags : ∀ k : CursorKind,
      (k.Takes ChainEventStreamFamily.visible.flags → k = .chainEvent) ∧
      (k.Takes ChainEventStreamFamily.settled.flags → k = .chainEvent) ∧
      (k.Takes mempoolEventFlags → k = .mempoolEvent) ∧
      (k.Takes addressOutputFlags → k = .addressOutput) ∧
      (k.Takes snapshotPageFlags → k = .snapshotPage) := by
    intro k
    cases k <;> decide
  obtain ⟨hvisible, hsettled, hmempool, haddress, hsnapshot⟩ := hflags k
  cases p with
  | chainEvent p =>
    rw [CursorPayload.flags] at h
    cases hfamily : p.family with
    | visible => exact hvisible (hfamily ▸ h)
    | settled => exact hsettled (hfamily ▸ h)
  | mempoolEvent p => exact hmempool h
  | addressOutput p => exact haddress h
  | snapshotPage p => exact hsnapshot h

section Minted

variable {A token} {p : CursorPayload}

theorem length_encodeAnchor (anchor : ChainEventCursorAnchor) :
    (encodeAnchor anchor).length = 36 := by
  simp [encodeAnchor, anchor.hash.length_eq]

/-- Every minted token is a signed envelope with its network and flags. -/
theorem mint_envelope (h : mint A p = .ok token) :
    ∃ payload rest, payload.length = 44 ∧
      token = sign A (envelope A.network payload p.flags rest) := by
  cases p with
  | chainEvent p =>
    simp only [mint, chainEvent, bind_eq_ok, rejectIf_eq_ok, Except.ok.injEq] at h
    obtain ⟨_, _, rfl⟩ := h
    refine ⟨BigEndian.toBytes 8 p.eventSequence ++ encodeAnchor p.locator.tip,
      UInt8.ofNat p.locator.ancestors.length :: p.locator.ancestors.flatMap encodeAnchor, ?_, ?_⟩
    · rw [length_append, BigEndian.length_toBytes, length_encodeAnchor]
    · simp only [envelope, chainEventBody, append_assoc]
      rfl
  | mempoolEvent p =>
    cases h
    refine ⟨_, [], ?_, congrArg (sign A) ((append_nil _).symm.trans cursorBody_append)⟩
    simp [p.lastTransactionId.length_eq]
  | addressOutput p =>
    cases h
    refine ⟨BigEndian.toBytes 4 p.lastBlockHeight ++ (p.lastOutpoint.transactionId.bytes ++
      (BigEndian.toBytes 4 p.lastOutpoint.outputIndex ++ [0, 0, 0, 0])), [], ?_, ?_⟩
    · simp [p.lastOutpoint.transactionId.length_eq]
    · simp [addressOutput, envelope, addressOutputBody, CursorPayload.flags]
  | snapshotPage p =>
    cases h
    refine ⟨_, _, ?_, congrArg (sign A) cursorBody_append⟩
    simp [p.afterTransactionId.length_eq]

end Minted

section Accepted

variable {A token}

theorem eq_sign_of_tag {n : Nat}
    (h : (A.authTag A.cursorAuthKey (token.bytes.take n)).bytes = token.bytes.drop n) :
    token = sign A (token.bytes.take n) := by
  rw [sign, h, take_append_drop]

theorem checkToken_eq_ok {flags : UInt8} {bodyLen : Nat}
    (h : checkToken A flags bodyLen token = .ok ()) :
    Network.fromId (readU32Be token.bytes 1) = some A.network ∧
    (token.bytes.getD 49 0 &&& streamReservedFlagsMask = 0 ∧
      token.bytes.getD 49 0 &&& streamFamilyMask = flags) ∧
    token = sign A (token.bytes.take bodyLen) := by
  simp only [checkToken, bind_eq_ok, rejectIf_eq_ok, okOr_eq_ok, not_or, not_not] at h
  obtain ⟨_, _, _, _, network, hnetwork, _, rfl, _, hflags, htag⟩ := h
  exact ⟨hnetwork, hflags, eq_sign_of_tag htag⟩

theorem decode_eq_ok {q : CursorPayload} (h : decode A token k = .ok q) :
    Network.fromId (readU32Be token.bytes 1) = some A.network ∧ k.Takes (token.bytes.getD 49 0) ∧
    ∃ body, token = sign A body := by
  have hmap : ∀ {α} {f : α → CursorPayload} {x : Except StreamCursorError α},
      x.map f = .ok q → ∃ a, x = .ok a := by
    intro α f x hx
    cases x with
    | ok a => exact ⟨a, rfl⟩
    | error e => cases hx
  have hchecked : ∀ {flags bodyLen}, checkToken A flags bodyLen token = .ok () →
      Network.fromId (readU32Be token.bytes 1) = some A.network ∧
      (token.bytes.getD 49 0 &&& streamReservedFlagsMask = 0 ∧
        token.bytes.getD 49 0 &&& streamFamilyMask = flags) ∧ ∃ body, token = sign A body := by
    intro flags bodyLen hcheck
    obtain ⟨hnetwork, hflags, htoken⟩ := checkToken_eq_ok hcheck
    exact ⟨hnetwork, hflags, _, htoken⟩
  cases k <;> obtain ⟨payload, hpayload⟩ := hmap h
  case chainEvent =>
    simp only [decodeChainEvent, bind_eq_ok, rejectIf_eq_ok, okOr_eq_ok, not_not,
      Unique.exists_iff] at hpayload
    obtain ⟨_, _, network, hnetwork, rfl, family, hfamily, _, _, htag, _⟩ := hpayload
    have htakes : CursorKind.Takes (token.bytes.getD 49 0) .chainEvent := by
      rw [CursorKind.Takes, hfamily, Option.isSome_some]
    exact ⟨hnetwork, htakes, _, eq_sign_of_tag htag⟩
  all_goals
    simp only [StreamCursorTokenV1.decodeMempoolEvent, decodeAddressOutput,
      StreamCursorTokenV1.decodeSnapshotPage, bind_eq_ok] at hpayload
    obtain ⟨_, hcheck, _⟩ := hpayload
    exact hchecked hcheck

end Accepted

/-! ## Reading back what was minted -/

section RoundTrip

variable {A}

theorem readAnchor_at (before after : Bytes) {bytes : Bytes} {anchor : ChainEventCursorAnchor}
    {offset : Nat}
    (hbytes : bytes = before ++ (encodeAnchor anchor ++ after)) (hoffset : before.length = offset)
    (hfits : anchor.height < u32Bound) : readAnchor bytes offset = .ok anchor := by
  have hheight : slice bytes offset 4 = BigEndian.toBytes 4 anchor.height := by
    rw [hbytes, encodeAnchor, append_assoc]
    exact slice_append hoffset (BigEndian.length_toBytes 4 _)
  have hhash : slice bytes (offset + 4) 32 = anchor.hash.bytes := by
    rw [hbytes, encodeAnchor, append_assoc, ← append_assoc]
    exact slice_append (by simp [hoffset]) anchor.hash.length_eq
  have hbound : anchor.height < 256 ^ 4 := hfits
  simp [readAnchor, readBytes32, readU32Be, hheight, hhash, anchor.hash.length_eq,
    BigEndian.ofBytes_toBytes_of_lt hbound]

theorem readAnchors_at (before after : Bytes) {anchors : List ChainEventCursorAnchor}
    {bytes : Bytes}
    {offset : Nat} (hbytes : bytes = before ++ (anchors.flatMap encodeAnchor ++ after))
    (hoffset : before.length = offset) (hfits : ∀ anchor ∈ anchors, anchor.height < u32Bound) :
    readAnchors bytes anchors.length offset = .ok anchors := by
  induction anchors generalizing before offset with
  | nil => rfl
  | cons anchor anchors ih =>
    rw [forall_mem_cons] at hfits
    have hfirst : readAnchor bytes offset = .ok anchor := by
      refine readAnchor_at before (anchors.flatMap encodeAnchor ++ after) ?_ hoffset hfits.1
      rw [hbytes, flatMap_cons, append_assoc]
    have hrest : readAnchors bytes anchors.length (offset + chainEventLocatorEntryLen) =
        .ok anchors := by
      refine ih (before ++ encodeAnchor anchor) ?_ ?_ hfits.2
      · rw [hbytes, flatMap_cons, append_assoc, append_assoc]
      · rw [length_append, hoffset, length_encodeAnchor, chainEventLocatorEntryLen]
    rw [length_cons, readAnchors, hfirst, ok_bind, hrest, ok_bind]

theorem chainEventBody_eq (sequence : Nat)
    (locator : ChainEventLocator) : chainEventBody network family sequence locator =
      (streamCursorSchemaVersion ::
        (BigEndian.toBytes 4 network.id ++ BigEndian.toBytes 8 sequence)) ++
      (encodeAnchor locator.tip ++
        ([family.flags, UInt8.ofNat locator.ancestors.length] ++
          locator.ancestors.flatMap encodeAnchor)) := by
  simp [chainEventBody]

theorem length_flatMap_encodeAnchor (anchors : List ChainEventCursorAnchor) :
    (anchors.flatMap encodeAnchor).length = anchors.length * chainEventLocatorEntryLen := by
  induction anchors with
  | nil => rfl
  | cons anchor anchors ih =>
    rw [flatMap_cons, length_append, ih, length_encodeAnchor, length_cons,
      chainEventLocatorEntryLen]
    omega

theorem length_chainEventBody (sequence : Nat)
    (locator : ChainEventLocator) : (chainEventBody network family sequence locator).length =
      cursorBodyLen + 1 + locator.ancestors.length * chainEventLocatorEntryLen := by
  rw [chainEventBody_eq]
  simp only [length_append, length_cons, length_nil, BigEndian.length_toBytes,
    length_encodeAnchor, length_flatMap_encodeAnchor, cursorBodyLen]
  omega

theorem fromFlags_flags (family : ChainEventStreamFamily) :
    ChainEventStreamFamily.fromFlags family.flags = some family := by
  cases family <;> decide

theorem decodeChainEvent_sign {family : ChainEventStreamFamily} {sequence : Nat}
    {locator : ChainEventLocator} (hsequence : sequence < u64Bound)
    (hfits : ∀ anchor ∈ locator.tip :: locator.ancestors, anchor.height < u32Bound) :
    decodeChainEvent A (sign A (chainEventBody A.network family sequence locator)) =
      .ok ⟨family, sequence, locator⟩ := by
  rw [forall_mem_cons] at hfits
  have hlt : locator.ancestors.length < 32 := locator.length_lt
  have hlength := length_chainEventBody A.network family sequence locator
  generalize htag : (A.authTag A.cursorAuthKey
    (chainEventBody A.network family sequence locator)).bytes = tag
  have htaglen : tag.length = 32 := by rw [← htag, Bytes32.length_eq]
  have hbytes : (sign A (chainEventBody A.network family sequence locator)).bytes =
      (streamCursorSchemaVersion ::
        (BigEndian.toBytes 4 A.network.id ++ BigEndian.toBytes 8 sequence)) ++
      (encodeAnchor locator.tip ++ ([family.flags, UInt8.ofNat locator.ancestors.length] ++
        (locator.ancestors.flatMap encodeAnchor ++ tag))) := by
    rw [sign, htag, chainEventBody_eq]
    simp only [append_assoc]
  have henvelope : (sign A (chainEventBody A.network family sequence locator)).bytes =
      envelope A.network (BigEndian.toBytes 8 sequence ++ encodeAnchor locator.tip) family.flags
        (UInt8.ofNat locator.ancestors.length ::
          (locator.ancestors.flatMap encodeAnchor ++ tag)) := by
    rw [hbytes]
    simp [envelope]
  have hcount : ((sign A (chainEventBody A.network family sequence locator)).bytes.getD
      cursorBodyLen 0).toNat = locator.ancestors.length := by
    rw [hbytes, ← append_assoc, getD_eq_getElem?_getD, getElem?_append_right]
    · simp [cursorBodyLen, length_encodeAnchor]
      omega
    · simp [cursorBodyLen, length_encodeAnchor]
  have hsequenceRead : readU64Be (sign A (chainEventBody A.network family sequence locator)).bytes 5 =
      sequence := by
    rw [henvelope, readU64Be_envelope hsequence]
  simp only [decodeChainEvent, hcount, hsequenceRead, bind_eq_ok, rejectIf_eq_ok, okOr_eq_ok, not_not]
  refine ⟨(), ?_, (), rfl, A.network, ?_, (), rfl, family, ?_, (), ?_, (), ?_, (), ?_, locator.tip, ?_,
    locator.ancestors, ?_, locator, ?_, rfl⟩
  · simp only [sign, length_append, hlength, Bytes32.length_eq, authTagLen, cursorBodyLen]
    omega
  · rw [henvelope, readU32Be_envelope, Network.fromId_id]
  · rw [henvelope, getD_envelope (by simp [length_encodeAnchor]), fromFlags_flags]
  · rw [chainEventLocatorMax]
    omega
  · simp only [sign, length_append, hlength, Bytes32.length_eq, authTagLen]
  · simp only [sign]
    rw [take_left' hlength, drop_left' hlength]
  · exact readAnchor_at _ _ hbytes (by simp) hfits.1
  · refine readAnchors_at (streamCursorSchemaVersion ::
      (BigEndian.toBytes 4 A.network.id ++ BigEndian.toBytes 8 sequence) ++
      (encodeAnchor locator.tip ++ [family.flags, UInt8.ofNat locator.ancestors.length])) tag ?_ ?_
      hfits.2
    · rw [hbytes]
      simp only [append_assoc]
    · simp [length_encodeAnchor, cursorBodyLen]
  · rw [ChainEventLocator.new, dif_pos locator.length_lt]

theorem decodeAddressOutput_addressOutput {height : Nat} {outpoint : TransparentOutPoint}
    (hheight : height < u32Bound) :
    decodeAddressOutput A (addressOutput A height outpoint) = .ok ⟨height, outpoint⟩ := by
  generalize htag : (A.authTag A.cursorAuthKey (addressOutputBody A.network height outpoint)).bytes =
    tag
  have hbytes : (addressOutput A height outpoint).bytes =
      (streamCursorSchemaVersion :: BigEndian.toBytes 4 A.network.id) ++
        (BigEndian.toBytes 4 height ++ (outpoint.transactionId.bytes ++
          (BigEndian.toBytes 4 outpoint.outputIndex ++ ([0, 0, 0, 0, addressOutputFlags] ++ tag)))) := by
    rw [addressOutput, sign, htag]
    simp [addressOutputBody]
  have henvelope : addressOutputBody A.network height outpoint =
      envelope A.network (BigEndian.toBytes 4 height ++ (outpoint.transactionId.bytes ++
        (BigEndian.toBytes 4 outpoint.outputIndex ++ [0, 0, 0, 0]))) addressOutputFlags [] := by
    simp [addressOutputBody, envelope]
  have hcheck : checkToken A addressOutputFlags cursorBodyLen (addressOutput A height outpoint) =
      .ok () := by
    rw [addressOutput, henvelope]
    exact checkToken_sign (by simp [outpoint.transactionId.length_eq]) rfl (by decide)
  have hheightSlice : slice (addressOutput A height outpoint).bytes 5 4 =
      BigEndian.toBytes 4 height := by
    rw [hbytes]
    exact slice_append (by simp) (by simp)
  have hidSlice : slice (addressOutput A height outpoint).bytes 9 32 =
      outpoint.transactionId.bytes := by
    rw [hbytes, ← append_assoc]
    exact slice_append (by simp) outpoint.transactionId.length_eq
  have hindexSlice : slice (addressOutput A height outpoint).bytes 41 4 =
      BigEndian.toBytes 4 outpoint.outputIndex := by
    rw [hbytes, ← append_assoc, ← append_assoc]
    exact slice_append (by simp [outpoint.transactionId.length_eq]) (by simp)
  have hheightBound : height < 256 ^ 4 := hheight
  have hindexBound : (outpoint.outputIndex : Nat) < 256 ^ 4 := outpoint.outputIndex.isLt
  have hindexRead : Fin.ofNat (2 ^ 32) (outpoint.outputIndex : Nat) = outpoint.outputIndex :=
    Fin.ext (Nat.mod_eq_of_lt outpoint.outputIndex.isLt)
  simp only [decodeAddressOutput, hcheck, ok_bind, readBytes32, hidSlice, readU32Be, hheightSlice,
    hindexSlice, outpoint.transactionId.length_eq, dif_pos, BigEndian.ofBytes_toBytes_of_lt hheightBound,
    BigEndian.ofBytes_toBytes_of_lt hindexBound, hindexRead]

/-- A minted token is read back as what it was minted from. -/
theorem decode_mint {p : CursorPayload} (hfits : p.Fits) (hanchored : p.Anchored) :
    ∃ token, mint A p = .ok token ∧ decode A token p.kind = .ok p := by
  cases p with
  | chainEvent p =>
    have hsmall : ¬ 256 ≤ p.locator.ancestors.length := by
      have := p.locator.length_lt
      rw [chainEventLocatorMax] at this
      omega
    refine ⟨sign A (chainEventBody A.network p.family p.eventSequence p.locator), ?_, ?_⟩
    · simp only [mint, chainEvent, bind_eq_ok, rejectIf_eq_ok]
      exact ⟨(), hsmall, trivial⟩
    · simp only [decode, CursorPayload.kind, decodeChainEvent_sign hfits.1 hfits.2]
      rfl
  | mempoolEvent p =>
    refine ⟨_, rfl, ?_⟩
    simp only [decode, CursorPayload.kind, decodeMempoolEvent_mempoolEvent hfits]
    rfl
  | addressOutput p =>
    refine ⟨_, rfl, ?_⟩
    simp only [decode, CursorPayload.kind, decodeAddressOutput_addressOutput hfits]
    rfl
  | snapshotPage p =>
    have hanchor : ∀ position, p.eventsResumeAnchor = some position →
        0 < position.eventSequence ∧ position.eventSequence < u64Bound :=
      fun position hsome => ⟨hanchored position hsome, hfits position hsome⟩
    refine ⟨_, rfl, ?_⟩
    simp only [decode, CursorPayload.kind, decodeSnapshotPage_snapshotPage hanchor]
    rfl

section Separation

variable {p q : CursorPayload} {network : Network} {token : StreamCursorTokenV1}
  (hmint : mint A p = .ok token)
  (hdecode : decode (CursorAuthority.forNetwork A network) token k = .ok q)
include hmint hdecode

theorem mint_separated : network = A.network ∧ k = p.kind := by
  obtain ⟨payload, rest, hlength, htoken⟩ := mint_envelope hmint
  obtain ⟨hnetwork, htakes, -⟩ := decode_eq_ok hdecode
  rw [htoken, sign_envelope] at hnetwork htakes
  rw [readU32Be_envelope, Network.fromId_id] at hnetwork
  rw [getD_envelope hlength] at htakes
  exact ⟨(Option.some.inj hnetwork).symm, CursorKind.eq_of_takes htakes⟩

theorem decode_of_mint (hfits : p.Fits) (hanchored : p.Anchored) : q = p := by
  obtain ⟨rfl, rfl⟩ := mint_separated hmint hdecode
  obtain ⟨token', hmint', hread⟩ := decode_mint (A := A) hfits hanchored
  rw [hmint] at hmint'
  cases hmint'
  have hauthority : CursorAuthority.forNetwork A A.network = A := rfl
  rw [hauthority, hread] at hdecode
  exact (Except.ok.inj hdecode).symm

end Separation

theorem mint_of_decode {p : CursorPayload} {token : StreamCursorTokenV1}
    (hunforged : Unforged A token) (hdecode : decode A token k = .ok p) : mint A p = .ok token := by
  obtain ⟨-, -, body, hbody⟩ := decode_eq_ok hdecode
  obtain ⟨network, payload, hfits, hanchored, hmint⟩ := hunforged body hbody
  have hself : CursorAuthority.forNetwork (CursorAuthority.forNetwork A network) A.network = A := rfl
  obtain ⟨hnetwork, -⟩ := mint_separated hmint (hself ▸ hdecode)
  obtain rfl := decode_of_mint hmint (hself ▸ hdecode) hfits hanchored
  have hA : CursorAuthority.forNetwork A network = A := by
    rw [CursorAuthority.forNetwork, ← (show A.network = network from hnetwork)]
  rwa [hA] at hmint

end RoundTrip

/-! ## Exactness -/

/-- Tokens are exact and separated: minting and decoding are inverse to each other on every kind of
payload, and a token is good for one kind, one family and one network. -/
theorem stream_cursors_exact (A : CursorAuthority) :
    (∀ p : CursorPayload, p.Fits → p.Anchored →
      ∃ token, mint A p = .ok token ∧ decode A token p.kind = .ok p) ∧
    (∀ (p q : CursorPayload) (token : StreamCursorTokenV1) (network : Network) (k : CursorKind),
      mint A p = .ok token → decode (CursorAuthority.forNetwork A network) token k = .ok q →
      network = A.network ∧ k = p.kind ∧ (p.Fits → p.Anchored → q = p)) ∧
    (∀ (p : CursorPayload) (token : StreamCursorTokenV1) (k : CursorKind),
      Unforged A token → decode A token k = .ok p → mint A p = .ok token) := by
  refine ⟨?_, ?_, ?_⟩
  · intro p hfits hanchored
    exact decode_mint hfits hanchored
  · intro p q token network k hmint hdecode
    obtain ⟨hnetwork, hkind⟩ := mint_separated hmint hdecode
    exact ⟨hnetwork, hkind, decode_of_mint hmint hdecode⟩
  · intro p token k hunforged hdecode
    exact mint_of_decode hunforged hdecode

def sampleAuthority : CursorAuthority :=
  ⟨.zcashRegtest, zeroTransactionId, fun _ _ => zeroTransactionId⟩

def sampleLocator : ChainEventLocator :=
  ⟨⟨7, zeroTransactionId⟩, [⟨6, zeroTransactionId⟩], by decide⟩

def sampleCursor : CursorPayload := .chainEvent ⟨.settled, 3, sampleLocator⟩

theorem stream_cursors_exact_sample :
    ∃ token, mint sampleAuthority sampleCursor = .ok token ∧
      decode sampleAuthority token .chainEvent = .ok sampleCursor ∧
      decode sampleAuthority token .mempoolEvent ≠ .ok sampleCursor ∧
      Unforged sampleAuthority token ∧ mint sampleAuthority sampleCursor = .ok token := by
  have hfits : sampleCursor.Fits := by
    change 3 < u64Bound ∧ ∀ anchor ∈ sampleLocator.tip :: sampleLocator.ancestors,
      anchor.height < u32Bound
    decide
  have hanchored : sampleCursor.Anchored := trivial
  obtain ⟨hread, hother, hback⟩ := stream_cursors_exact sampleAuthority
  obtain ⟨token, hmint, hdecode⟩ := hread sampleCursor hfits hanchored
  have hunforged : Unforged sampleAuthority token := by
    intro body _
    exact ⟨.zcashRegtest, sampleCursor, hfits, hanchored, hmint⟩
  refine ⟨token, hmint, hdecode, ?_, hunforged, hback sampleCursor token .chainEvent hunforged hdecode⟩
  intro hdecode'
  have hkind := (hother sampleCursor sampleCursor token .zcashRegtest .mempoolEvent hmint hdecode').2.1
  cases hkind

/-- A snapshot-page cursor whose anchor has sequence zero is read back without its anchor. -/
theorem snapshotPage_zero_anchor :
    ∃ p token, CursorPayload.Fits p ∧ mint sampleAuthority p = .ok token ∧
      decode sampleAuthority token p.kind ≠ .ok p := by
  refine ⟨.snapshotPage ⟨some ⟨0, zeroTransactionId⟩, zeroTransactionId⟩, _, ?_, rfl, ?_⟩
  · rintro position ⟨⟩
    decide
  · decide

end Zinder.Format
