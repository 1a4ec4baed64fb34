import Zinder.Lib.ByteFields
import Zinder.Canonical.Lifecycle

/-!
# Zinder.Canonical.EventCodec

The version-1 byte records of chain epochs and chain events (`publication.rs`) and the two readers of
an event record: the strict decoder of admission (`decodeChainEvent`) and the shape validation that a
retained-event read makes first (`validateEventShape`, `event_lifecycle.rs`).

The digest of a fence is 32 bytes here. Every number is little-endian of fixed width.
-/

namespace Zinder.Canonical

open ByteFields

/-! ## Reading fields -/

section Fields

variable {ε : Type}

variable (truncated : ε) (encoded : Bytes)

/-- `read_array`: the bytes of a field, or the error of a truncated record. -/
def readField (offset width : Nat) : Except ε Bytes :=
  if (slice encoded offset width).length = width then .ok (slice encoded offset width)
  else .error truncated

/-- `read_u32` and `read_u64`. -/
def readLe (offset width : Nat) : Except ε Nat := do
  let bytes ← readField truncated encoded offset width
  .ok (LittleEndian.ofBytes bytes)

def readHash (offset : Nat) : Except ε Bytes32 :=
  if h : (slice encoded offset 32).length = 32 then .ok ⟨slice encoded offset 32, h⟩
  else .error truncated

variable {truncated encoded} {offset width : Nat}

theorem readLe_eq (h : offset + width ≤ encoded.length) :
    readLe truncated encoded offset width =
      .ok (LittleEndian.ofBytes (slice encoded offset width)) := by
  rw [readLe, readField, if_pos (length_slice h), ok_bind]

theorem readHash_eq (h : offset + 32 ≤ encoded.length) :
    readHash truncated encoded offset = .ok ⟨slice encoded offset 32, length_slice h⟩ := by
  rw [readHash, dif_pos (length_slice h)]

end Fields

def versionOne : UInt8 := 1

/-! ## Epochs -/

def epochValueLength : Nat := 93

def encodeChainEpoch (epoch : ChainEpochRecord) : Bytes :=
  [versionOne] ++ (LittleEndian.toBytes 4 epoch.visibleTip.height ++ (epoch.visibleTip.hash.bytes ++
    (LittleEndian.toBytes 4 epoch.settledTip.height ++ (epoch.settledTip.hash.bytes ++
      (LittleEndian.toBytes 4 (epoch.tipMetadata.commitmentTreeSize .sapling) ++
        (LittleEndian.toBytes 4 (epoch.tipMetadata.commitmentTreeSize .orchard) ++
          (LittleEndian.toBytes 4 (epoch.tipMetadata.commitmentTreeSize .ironwood) ++
            LittleEndian.toBytes 8 epoch.createdAt)))))))

def decodeChainEpoch (encoded : Bytes) : Except CanonicalStoreError ChainEpochRecord := do
  rejectIf (encoded.length ≠ epochValueLength ∨ encoded.head? ≠ some versionOne)
    (.publication "baseline epoch is not the exact version-1 record")
  let truncated := CanonicalStoreError.publication "version-1 record is truncated"
  let visibleHeight ← readLe truncated encoded 1 4
  let visibleHash ← readHash truncated encoded 5
  let settledHeight ← readLe truncated encoded 37 4
  let settledHash ← readHash truncated encoded 41
  let sapling ← readLe truncated encoded 73 4
  let orchard ← readLe truncated encoded 77 4
  let ironwood ← readLe truncated encoded 81 4
  let createdAt ← readLe truncated encoded 85 8
  .ok { visibleTip := ⟨visibleHeight, visibleHash⟩
        settledTip := ⟨settledHeight, settledHash⟩
        tipMetadata := ⟨sapling, orchard, ironwood⟩
        createdAt }

/-! ## Events -/

def eventValueLength : Nat := 111

def committedEvent : UInt8 := 1

def reorgEvent : UInt8 := 2

def revertedRangeAbsent : UInt8 := 0

def revertedRangePresent : UInt8 := 1

def encodeEventRange (range : BlockHeightRange) : Bytes :=
  LittleEndian.toBytes 4 range.start ++ LittleEndian.toBytes 4 range.stop

def encodeEventFence (fence : CanonicalEventFence Bytes32) : Bytes :=
  LittleEndian.toBytes 4 fence.visibleTip.height ++ (fence.visibleTip.hash.bytes ++
    (LittleEndian.toBytes 8 fence.sequenceDigest.blockCount ++ fence.sequenceDigest.bytes.bytes))

/-- The presence byte of a reverted range and its heights, zero when it is absent. -/
def encodeRevertedRange : Option BlockHeightRange → Bytes
  | some range => [revertedRangePresent] ++ encodeEventRange range
  | none => [revertedRangeAbsent] ++ List.replicate 8 0

variable (resultingEpochId previousEpochId : Nat) (revertedRange : Option BlockHeightRange)
  (committedRange : BlockHeightRange)

def encodeLiveEvent (fence : CanonicalEventFence Bytes32) : Bytes :=
  [versionOne, if revertedRange.isSome then reorgEvent else committedEvent] ++
    (LittleEndian.toBytes 8 resultingEpochId ++ (LittleEndian.toBytes 8 previousEpochId ++
      (encodeRevertedRange revertedRange ++ (encodeEventRange committedRange ++
        encodeEventFence fence))))

def encodeLiveAppendEvent (previousEpochId : Nat) (fence : CanonicalEventFence Bytes32) : Bytes :=
  encodeLiveEvent fence.chainEpochId previousEpochId none
    ⟨fence.visibleTip.height, fence.visibleTip.height⟩ fence

def encodeBaselineEvent (ready : CanonicalStoreReadyEvidence Bytes32) : Bytes :=
  [versionOne, committedEvent] ++ (LittleEndian.toBytes 8 1 ++ (LittleEndian.toBytes 8 0 ++
    (([revertedRangeAbsent] ++ List.replicate 8 0) ++
      (encodeEventRange ⟨ready.firstRetainedBlock.height, ready.visibleTip.height⟩ ++
        encodeEventFence (eventFenceFromReady ready)))))

def decodeEventRange (encoded : Bytes) (offset : Nat) :
    Except CanonicalStoreError BlockHeightRange := do
  let truncated := CanonicalStoreError.publication "version-1 record is truncated"
  let start ← readLe truncated encoded offset 4
  let stop ← readLe truncated encoded (offset + 4) 4
  rejectIf (¬ start ≤ stop ∧ nextHeight stop ≠ some start)
    (.publication "chain event range is neither inclusive nor anchored empty")
  .ok ⟨start, stop⟩

def decodeOptionalRevertedRange (encoded : Bytes) :
    Except CanonicalStoreError (Option BlockHeightRange) :=
  let presence := encoded.getD 18 0
  if presence = revertedRangeAbsent then do
    rejectIf (slice encoded 19 8 ≠ List.replicate 8 0)
      (.publication "absent reverted range contains nonzero heights")
    .ok none
  else if presence = revertedRangePresent then do
    let range ← decodeEventRange encoded 19
    rejectIf (range.stop < range.start) (.publication "reverted chain event range must not be empty")
    .ok (some range)
  else .error (.publication
    (toString "chain event contains unknown reverted-range presence " ++ toString presence))

/-- The kind a decoded event has, when its kind byte and its ranges agree. -/
def eventKindOf (kind : UInt8) (previousEpochId : Nat) (revertedRange : Option BlockHeightRange) :
    Option ChainEventKind :=
  if kind = committedEvent ∧ revertedRange.isNone then some .committed
  else if kind = reorgEvent ∧ 0 < previousEpochId ∧ revertedRange.isSome then some .reorg
  else none

def decodeChainEvent (encoded : Bytes) : Except CanonicalStoreError (ChainEventRecord Bytes32) := do
  rejectIf (encoded.length ≠ eventValueLength ∨ encoded.head? ≠ some versionOne)
    (.publication "chain event is not the exact version-1 record")
  let truncated := CanonicalStoreError.publication "version-1 record is truncated"
  let resultingEpochId ← readLe truncated encoded 2 8
  let previousEpochId ← readLe truncated encoded 10 8
  rejectIf (resultingEpochId = 0 ∨ resultingEpochId ≤ previousEpochId)
    (.publication "chain event epoch transition is not monotonic")
  let revertedRange ← decodeOptionalRevertedRange encoded
  let committedRange ← decodeEventRange encoded 27
  let visibleHeight ← readLe truncated encoded 35 4
  let visibleHash ← readHash truncated encoded 39
  let visibleBlockCount ← readLe truncated encoded 71 8
  let visibleSequenceDigest ← readHash truncated encoded 79
  let kind ← okOr (eventKindOf (encoded.getD 1 0) previousEpochId revertedRange)
    (.publication "chain event kind and version-1 ranges are inconsistent")
  .ok { kind, resultingEpochId, previousEpochId, revertedRange, committedRange
        visibleTip := ⟨visibleHeight, visibleHash⟩
        visibleBlockCount, visibleSequenceDigest }

/-! ## The retained-event reader -/

variable (eventSequence : Nat) (encoded : Bytes)

/-- `validate_event_range` on the bytes of a range. -/
def validateEventRangeAt (offset : Nat)
    (allowAnchoredEmpty : Bool) : Except CanonicalEventError BlockHeightRange := do
  let start ← readLe (.canonicalEventRecordMalformed eventSequence
    "event range start has the wrong byte length") encoded offset 4
  let stop ← readLe (.canonicalEventRecordMalformed eventSequence
    "event range end has the wrong byte length") encoded (offset + 4) 4
  rejectIf (¬ (start ≤ stop ∨ allowAnchoredEmpty = true ∧ nextHeight stop = some start))
    (.canonicalEventRecordMalformed eventSequence
      "event range is neither inclusive nor anchored empty")
  .ok ⟨start, stop⟩

/-- The reverted range of a record whose shape is validated. -/
def validateRevertedRange : Except CanonicalEventError (Option BlockHeightRange) :=
  let presence := encoded.getD 18 0
  if presence = revertedRangeAbsent then do
    rejectIf (slice encoded 19 8 ≠ List.replicate 8 0)
      (.canonicalEventRecordMalformed eventSequence "absent reverted range contains heights")
    .ok none
  else if presence = revertedRangePresent then do
    let range ← validateEventRangeAt eventSequence encoded 19 false
    .ok (some range)
  else .error (.canonicalEventRecordMalformed eventSequence "reverted range presence is unknown")

/-- `validate_event_record_shape` on the bytes of a record. -/
def validateEventShape : Except CanonicalEventError Unit := do
  rejectIf (encoded.length ≠ eventValueLength)
    (.canonicalEventRecordMalformed eventSequence "event record has the wrong byte length")
  let version := encoded.getD 0 0
  rejectIf (version ≠ versionOne) (.canonicalEventVersionUnsupported eventSequence version)
  let previousEpochId ← readLe (.canonicalEventRecordMalformed eventSequence
    "previous epoch has the wrong byte length") encoded 10 8
  let revertedRange ← validateRevertedRange eventSequence encoded
  let _ ← validateEventRangeAt eventSequence encoded 27 true
  rejectIf (eventKindOf (encoded.getD 1 0) previousEpochId revertedRange = none)
    (.canonicalEventRecordMalformed eventSequence "event kind and range presence disagree")

/-- The event a retained-event read makes of a record. -/
def retainedEventOf (eventSequence : Nat) (record : ChainEventRecord Bytes32) :
    CanonicalRetainedEvent Bytes32 :=
  { eventSequence
    resultingEpochId := record.resultingEpochId
    previousEpochId := if record.previousEpochId = 0 then none else some record.previousEpochId
    kind := record.kind
    revertedRange := record.revertedRange
    committedRange := record.committedRange
    resultingFence :=
      { chainEpochId := record.resultingEpochId
        chainEventSequence := eventSequence
        visibleTip := record.visibleTip
        sequenceDigest := ⟨record.visibleBlockCount, record.visibleSequenceDigest⟩ } }

/-- `read_retained_event_from_db` on the bytes of the row. -/
def readRetainedEventBytes : Except CanonicalEventError (CanonicalRetainedEvent Bytes32) := do
  validateEventShape eventSequence encoded
  let record ← (decodeChainEvent encoded).mapError fun _ =>
    .canonicalEventRecordMalformed eventSequence
      "event record does not satisfy the version-1 transition contract"
  rejectIf
    (record.resultingEpochId ≠ eventSequence ∨ record.previousEpochId ≠ eventSequence - 1)
    (.canonicalEventRecordMalformed eventSequence
      "event sequence and epoch transition disagree")
  .ok (retainedEventOf eventSequence record)

/-! ## Reading back what was written -/

section RoundTrip

variable {ε : Type} {truncated : ε} {encoded : Bytes} {offset width : Nat}

theorem readLe_of_slice {n : Nat} (h : slice encoded offset width = LittleEndian.toBytes width n)
    (hn : n < 256 ^ width) : readLe truncated encoded offset width = .ok n := by
  rw [readLe, readField, h, if_pos (LittleEndian.length_toBytes _ _), ok_bind,
    LittleEndian.ofBytes_toBytes_of_lt hn]

theorem readHash_of_slice {hash : Bytes32} (h : slice encoded offset 32 = hash.bytes) :
    readHash truncated encoded offset = .ok hash := by
  simp [readHash, h, hash.length_eq]

structure ChainEpochRecord.Fits (epoch : ChainEpochRecord) : Prop where
  visible : epoch.visibleTip.height < u32Bound
  settled : epoch.settledTip.height < u32Bound
  sizes : ∀ protocol, epoch.tipMetadata.commitmentTreeSize protocol < u32Bound
  createdAt : epoch.createdAt < u64Bound

theorem decodeChainEpoch_encode {epoch : ChainEpochRecord} (h : epoch.Fits) :
    decodeChainEpoch (encodeChainEpoch epoch) = .ok epoch := by
  have hlength : (encodeChainEpoch epoch).length = epochValueLength := by
    simp [encodeChainEpoch, Bytes32.length_eq, epochValueLength]
  simp only [decodeChainEpoch, bind_eq_ok, rejectIf_eq_ok, not_or, not_not]
  refine ⟨(), ⟨hlength, rfl⟩, _, readLe_of_slice ?_ h.visible, _, readHash_of_slice ?_, _,
    readLe_of_slice ?_ h.settled, _, readHash_of_slice ?_, _, readLe_of_slice ?_ (h.sizes .sapling), _,
    readLe_of_slice ?_ (h.sizes .orchard), _, readLe_of_slice ?_ (h.sizes .ironwood), _,
    readLe_of_slice ?_ h.createdAt, rfl⟩ <;>
  simp [encodeChainEpoch, slice_cons, slice_append_left, slice_append_right, slice_eq_self,
    Bytes32.length_eq]

/-- A range an event can carry: inclusive, or empty right after its end. -/
def Anchored (range : BlockHeightRange) : Prop :=
  range.start ≤ range.stop + 1 ∧ range.start < u32Bound ∧ range.stop < u32Bound

theorem decodeEventRange_of_slices {range : BlockHeightRange} (hrange : Anchored range)
    (hstart : slice encoded offset 4 = LittleEndian.toBytes 4 range.start)
    (hstop : slice encoded (offset + 4) 4 = LittleEndian.toBytes 4 range.stop) :
    decodeEventRange encoded offset = .ok range := by
  obtain ⟨hle, hstartFits, hstopFits⟩ := hrange
  simp only [decodeEventRange, bind_eq_ok, rejectIf_eq_ok]
  refine ⟨_, readLe_of_slice hstart hstartFits, _, readLe_of_slice hstop hstopFits, (), ?_, rfl⟩
  rintro ⟨hgt, hnext⟩
  refine hnext (nextHeight_eq_some.mpr ⟨?_, ?_⟩) <;> omega

/-- A transition an event record can describe: the epoch advances, a reverted range is not empty and
has an epoch before it, and the committed range is inclusive or anchored empty. -/
structure TransitionFits (resultingEpochId previousEpochId : Nat)
    (revertedRange : Option BlockHeightRange) (committedRange : BlockHeightRange)
    (fence : CanonicalEventFence Bytes32) : Prop where
  resulting : resultingEpochId < u64Bound
  advances : previousEpochId < resultingEpochId
  reverted : ∀ range ∈ revertedRange, 0 < previousEpochId ∧ range.start ≤ range.stop ∧
    range.stop < u32Bound
  committed : Anchored committedRange
  tip : fence.visibleTip.height < u32Bound
  count : fence.sequenceDigest.blockCount < u64Bound

def transitionRecord (fence : CanonicalEventFence Bytes32) : ChainEventRecord Bytes32 :=
  { kind := if revertedRange.isSome then .reorg else .committed
    resultingEpochId, previousEpochId, revertedRange, committedRange
    visibleTip := fence.visibleTip
    visibleBlockCount := fence.sequenceDigest.blockCount
    visibleSequenceDigest := fence.sequenceDigest.bytes }

theorem length_encodeLiveEvent (fence : CanonicalEventFence Bytes32) :
    (encodeLiveEvent resultingEpochId previousEpochId revertedRange committedRange fence).length =
      eventValueLength := by
  cases revertedRange <;>
    simp [encodeLiveEvent, encodeRevertedRange, encodeEventRange, encodeEventFence, Bytes32.length_eq,
      eventValueLength]

section

variable {resultingEpochId previousEpochId revertedRange committedRange}
  {fence : CanonicalEventFence Bytes32}
  (h : TransitionFits resultingEpochId previousEpochId revertedRange committedRange fence)
include h

theorem decodeOptionalRevertedRange_encodeLiveEvent :
    decodeOptionalRevertedRange
      (encodeLiveEvent resultingEpochId previousEpochId revertedRange committedRange fence) =
      .ok revertedRange := by
  cases revertedRange with
  | none =>
    have hpresence : (encodeLiveEvent resultingEpochId previousEpochId none committedRange
        fence).getD 18 0 = revertedRangeAbsent := by
      apply getD_of_slice
      simp [encodeLiveEvent, encodeRevertedRange, slice_cons, slice_append_right]
      rfl
    have hzero : slice (encodeLiveEvent resultingEpochId previousEpochId none committedRange
        fence) 19 8 = List.replicate 8 0 := by
      simp [encodeLiveEvent, encodeRevertedRange, slice_cons, slice_append_right]
      rfl
    simp only [decodeOptionalRevertedRange, hpresence, if_pos, hzero, bind_eq_ok, rejectIf_eq_ok]
    exact ⟨(), fun hne => hne rfl, trivial⟩
  | some range =>
    obtain ⟨_, hle, hstop⟩ := h.reverted range rfl
    have hpresence : (encodeLiveEvent resultingEpochId previousEpochId (some range) committedRange
        fence).getD 18 0 = revertedRangePresent := by
      apply getD_of_slice
      simp [encodeLiveEvent, encodeRevertedRange, slice_cons, slice_append_right]
      rfl
    have hrange : decodeEventRange (encodeLiveEvent resultingEpochId previousEpochId (some range)
        committedRange fence) 19 = .ok range := by
      refine decodeEventRange_of_slices ⟨by omega, by omega, hstop⟩ ?_ ?_ <;>
      simp [encodeLiveEvent, encodeRevertedRange, encodeEventRange, slice_cons, slice_append_left,
        slice_append_right]
    have hpresent : ¬ revertedRangePresent = revertedRangeAbsent := by decide
    simp only [decodeOptionalRevertedRange, hpresence, if_neg hpresent, if_pos, hrange, bind_eq_ok,
      rejectIf_eq_ok]
    exact ⟨range, rfl, (), Nat.not_lt.mpr hle, rfl⟩

theorem decodeChainEvent_encodeLiveEvent :
    decodeChainEvent
      (encodeLiveEvent resultingEpochId previousEpochId revertedRange committedRange fence) =
      .ok (transitionRecord resultingEpochId previousEpochId revertedRange committedRange fence) := by
  have hprevious : previousEpochId < u64Bound := Nat.lt_trans h.advances h.resulting
  have hcommitted : decodeEventRange (encodeLiveEvent resultingEpochId previousEpochId revertedRange
      committedRange fence) 27 = .ok committedRange := by
    refine decodeEventRange_of_slices h.committed ?_ ?_ <;> cases revertedRange <;>
    simp [encodeLiveEvent, encodeRevertedRange, encodeEventRange, slice_cons, slice_append_left,
      slice_append_right]
  have hkind : eventKindOf ((encodeLiveEvent resultingEpochId previousEpochId revertedRange
      committedRange fence).getD 1 0) previousEpochId revertedRange =
      some (if revertedRange.isSome then .reorg else .committed) := by
    cases hreverted : revertedRange with
    | none => simp [encodeLiveEvent, eventKindOf]
    | some range =>
      have hpos := (h.reverted range hreverted).1
      simp [encodeLiveEvent, eventKindOf, hpos]
  simp only [decodeChainEvent, bind_eq_ok, rejectIf_eq_ok, okOr_eq_ok]
  refine ⟨(), ?_, _, readLe_of_slice ?_ h.resulting, _, readLe_of_slice ?_ hprevious, (), ?_, _,
    decodeOptionalRevertedRange_encodeLiveEvent h, _, hcommitted, _, readLe_of_slice ?_ h.tip, _,
    readHash_of_slice ?_, _, readLe_of_slice ?_ h.count, _, readHash_of_slice ?_, _, hkind, rfl⟩
  · rw [length_encodeLiveEvent]
    simp [encodeLiveEvent]
  · simp [encodeLiveEvent, slice_cons, slice_append_left]
  · simp [encodeLiveEvent, slice_cons, slice_append_left, slice_append_right]
  · have := h.advances
    omega
  all_goals
    cases revertedRange <;>
    simp [encodeLiveEvent, encodeRevertedRange, encodeEventRange, encodeEventFence, slice_cons,
      slice_append_left, slice_append_right, slice_eq_self, Bytes32.length_eq]

end

theorem encodeBaselineEvent_eq (ready : CanonicalStoreReadyEvidence Bytes32) :
    encodeBaselineEvent ready = encodeLiveEvent 1 0 none
      ⟨ready.firstRetainedBlock.height, ready.visibleTip.height⟩ (eventFenceFromReady ready) := rfl

end RoundTrip

/-! ## The two readers -/

section Readers

variable {encoded : Bytes} {offset eventSequence : Nat}

def rangeAt (encoded : Bytes) (offset : Nat) : BlockHeightRange :=
  ⟨LittleEndian.ofBytes (slice encoded offset 4), LittleEndian.ofBytes (slice encoded (offset + 4) 4)⟩

def resultingEpochAt (encoded : Bytes) : Nat := LittleEndian.ofBytes (slice encoded 2 8)

def previousEpochAt (encoded : Bytes) : Nat := LittleEndian.ofBytes (slice encoded 10 8)

theorem decodeEventRange_eq_ok (h : offset + 8 ≤ encoded.length) {range : BlockHeightRange} :
    decodeEventRange encoded offset = .ok range ↔ range = rangeAt encoded offset ∧
      (range.start ≤ range.stop ∨ nextHeight range.stop = some range.start) := by
  rw [decodeEventRange, readLe_eq (by omega), ok_bind, readLe_eq (by omega), ok_bind]
  simp only [bind_eq_ok, rejectIf_eq_ok, Except.ok.injEq]
  constructor
  · rintro ⟨_, hrange, rfl⟩
    refine ⟨rfl, ?_⟩
    by_contra hnot
    exact hrange (not_or.mp hnot)
  · rintro ⟨rfl, hrange⟩
    exact ⟨(), fun hnot => hrange.elim hnot.1 hnot.2, rfl⟩

theorem validateEventRangeAt_eq_ok (h : offset + 8 ≤ encoded.length) {allowAnchoredEmpty : Bool}
    {range : BlockHeightRange} :
    validateEventRangeAt eventSequence encoded offset allowAnchoredEmpty = .ok range ↔
      range = rangeAt encoded offset ∧ (range.start ≤ range.stop ∨
        allowAnchoredEmpty = true ∧ nextHeight range.stop = some range.start) := by
  rw [validateEventRangeAt, readLe_eq (by omega), ok_bind, readLe_eq (by omega), ok_bind]
  simp only [bind_eq_ok, rejectIf_eq_ok, Except.ok.injEq, not_not]
  constructor
  · rintro ⟨_, hrange, rfl⟩
    exact ⟨rfl, hrange⟩
  · rintro ⟨rfl, hrange⟩
    exact ⟨(), hrange, rfl⟩

/-- What both readers take for the reverted range of a record. -/
def RevertedAt (encoded : Bytes) (revertedRange : Option BlockHeightRange) : Prop :=
  (encoded.getD 18 0 = revertedRangeAbsent ∧ slice encoded 19 8 = List.replicate 8 0 ∧
    revertedRange = none) ∨
  (encoded.getD 18 0 = revertedRangePresent ∧
    (rangeAt encoded 19).start ≤ (rangeAt encoded 19).stop ∧
    revertedRange = some (rangeAt encoded 19))

variable {revertedRange : Option BlockHeightRange}

theorem revertedAt_iff {ε : Type} {malformed unknown : ε}
    {present : Except ε (Option BlockHeightRange)}
    (hpresent : present = .ok revertedRange ↔
      (rangeAt encoded 19).start ≤ (rangeAt encoded 19).stop ∧
      revertedRange = some (rangeAt encoded 19)) :
    (if encoded.getD 18 0 = revertedRangeAbsent then do
        rejectIf (slice encoded 19 8 ≠ List.replicate 8 0) malformed
        .ok none
      else if encoded.getD 18 0 = revertedRangePresent then present
      else .error unknown) = .ok revertedRange ↔ RevertedAt encoded revertedRange := by
  have hdiffer : revertedRangePresent ≠ revertedRangeAbsent := by decide
  rw [RevertedAt]
  generalize encoded.getD 18 0 = presence
  split
  · next habsent =>
    simp only [habsent, bind_eq_ok, rejectIf_eq_ok, not_not, Except.ok.injEq, hdiffer.symm, false_and,
      or_false, true_and]
    exact ⟨fun ⟨_, hzero, heq⟩ => ⟨hzero, heq.symm⟩, fun ⟨hzero, heq⟩ => ⟨(), hzero, heq.symm⟩⟩
  · next habsent =>
    split
    · next hpresence => simp [hpresence, hpresent, hdiffer]
    · next hpresence => simp [habsent, hpresence]

section

variable (h : encoded.length = eventValueLength)
include h

theorem decodeOptionalRevertedRange_eq_ok :
    decodeOptionalRevertedRange encoded = .ok revertedRange ↔ RevertedAt encoded revertedRange := by
  have hlength : 19 + 8 ≤ encoded.length := by rw [h]; decide
  refine revertedAt_iff ?_
  simp only [bind_eq_ok, rejectIf_eq_ok, Nat.not_lt, Except.ok.injEq, decodeEventRange_eq_ok hlength]
  constructor
  · rintro ⟨range, ⟨rfl, -⟩, _, hle, rfl⟩
    exact ⟨hle, rfl⟩
  · rintro ⟨hle, rfl⟩
    exact ⟨_, ⟨rfl, .inl hle⟩, (), hle, rfl⟩

theorem validateRevertedRange_eq_ok :
    validateRevertedRange eventSequence encoded = .ok revertedRange ↔
      RevertedAt encoded revertedRange := by
  have hlength : 19 + 8 ≤ encoded.length := by rw [h]; decide
  refine revertedAt_iff ?_
  simp only [bind_eq_ok, Except.ok.injEq, validateEventRangeAt_eq_ok hlength, Bool.false_eq_true,
    false_and, or_false]
  constructor
  · rintro ⟨range, ⟨rfl, hle⟩, rfl⟩
    exact ⟨hle, rfl⟩
  · rintro ⟨hle, rfl⟩
    exact ⟨_, ⟨rfl, hle⟩, rfl⟩

end

structure WellShaped (encoded : Bytes) (kind : ChainEventKind)
    (revertedRange : Option BlockHeightRange) : Prop where
  length : encoded.length = eventValueLength
  version : encoded.head? = some versionOne
  reverted : RevertedAt encoded revertedRange
  committed : (rangeAt encoded 27).start ≤ (rangeAt encoded 27).stop ∨
    nextHeight (rangeAt encoded 27).stop = some (rangeAt encoded 27).start
  kind : eventKindOf (encoded.getD 1 0) (previousEpochAt encoded) revertedRange = some kind

theorem head?_eq_some_iff {bytes : Bytes} (h : 0 < bytes.length) {b : UInt8} :
    bytes.head? = some b ↔ bytes.getD 0 0 = b := by
  cases bytes with
  | nil => simp at h
  | cons x xs => simp

theorem validateEventShape_eq_ok :
    validateEventShape eventSequence encoded = .ok () ↔
      ∃ kind revertedRange, WellShaped encoded kind revertedRange := by
  constructor
  · intro h
    simp only [validateEventShape, bind_eq_ok, rejectIf_eq_ok, not_not] at h
    obtain ⟨_, hlength, _, hversion, previous, hprevious, reverted, hreverted, range, hrange, hkind⟩ := h
    have hlen : encoded.length = 111 := hlength
    rw [readLe_eq (by omega), Except.ok.injEq] at hprevious
    subst hprevious
    rw [validateRevertedRange_eq_ok hlength] at hreverted
    rw [validateEventRangeAt_eq_ok (by omega)] at hrange
    obtain ⟨rfl, hrange⟩ := hrange
    obtain ⟨kind, hkind⟩ := Option.ne_none_iff_exists'.mp hkind
    exact ⟨kind, reverted, hlength, (head?_eq_some_iff (by omega)).mpr hversion, hreverted,
      hrange.imp_right And.right, hkind⟩
  · rintro ⟨kind, reverted, hlength, hversion, hreverted, hcommitted, hkind⟩
    have hlen : encoded.length = 111 := hlength
    simp only [validateEventShape, bind_eq_ok, rejectIf_eq_ok, not_not]
    refine ⟨(), hlength, (), (head?_eq_some_iff (by omega)).mp hversion, _, readLe_eq (by omega), _,
      (validateRevertedRange_eq_ok hlength).mpr hreverted, _,
      (validateEventRangeAt_eq_ok (by omega)).mpr ⟨rfl, hcommitted.imp_right fun h => ⟨rfl, h⟩⟩, ?_⟩
    rw [show LittleEndian.ofBytes (slice encoded 10 8) = previousEpochAt encoded from rfl, hkind]
    simp

theorem decodeChainEvent_wellShaped {record : ChainEventRecord Bytes32}
    (h : decodeChainEvent encoded = .ok record) :
    WellShaped encoded record.kind record.revertedRange ∧
    record.committedRange = rangeAt encoded 27 ∧
    record.resultingEpochId = resultingEpochAt encoded ∧
    record.previousEpochId = previousEpochAt encoded ∧
    previousEpochAt encoded < resultingEpochAt encoded := by
  simp only [decodeChainEvent, bind_eq_ok, rejectIf_eq_ok, okOr_eq_ok, not_or, not_not,
    Nat.not_le] at h
  obtain ⟨_, ⟨hlength, hversion⟩, resulting, hresulting, previous, hprevious, _, ⟨-, hadvances⟩,
    reverted, hreverted, committed, hcommitted, height, -, hash, -, count, -, digest, -, kind, hkind,
    hrecord⟩ := h
  cases hrecord
  have hlen : encoded.length = 111 := hlength
  rw [readLe_eq (by omega), Except.ok.injEq] at hresulting hprevious
  rw [decodeOptionalRevertedRange_eq_ok hlength] at hreverted
  rw [decodeEventRange_eq_ok (by omega)] at hcommitted
  obtain ⟨rfl, hcommitted⟩ := hcommitted
  subst hresulting hprevious
  exact ⟨⟨hlength, hversion, hreverted, hcommitted, hkind⟩, rfl, rfl, rfl, hadvances⟩

theorem decodeChainEvent_of_wellShaped {kind : ChainEventKind}
    (h : WellShaped encoded kind revertedRange)
    (hadvances : previousEpochAt encoded < resultingEpochAt encoded) :
    ∃ record, decodeChainEvent encoded = .ok record := by
  have hlen : encoded.length = 111 := h.length
  refine ⟨⟨kind, resultingEpochAt encoded, previousEpochAt encoded, revertedRange, rangeAt encoded 27,
    ⟨LittleEndian.ofBytes (slice encoded 35 4), ⟨slice encoded 39 32, length_slice (by omega)⟩⟩,
    LittleEndian.ofBytes (slice encoded 71 8), ⟨slice encoded 79 32, length_slice (by omega)⟩⟩, ?_⟩
  simp only [decodeChainEvent, bind_eq_ok, rejectIf_eq_ok, okOr_eq_ok, not_or, not_not, Nat.not_le]
  refine ⟨(), ⟨h.length, h.version⟩, _, readLe_eq (by omega), _, readLe_eq (by omega), (), ⟨?_, ?_⟩, _,
    (decodeOptionalRevertedRange_eq_ok h.length).mpr h.reverted, _,
    (decodeEventRange_eq_ok (by omega)).mpr ⟨rfl, h.committed⟩, _, readLe_eq (by omega), _,
    readHash_eq (by omega), _, readLe_eq (by omega), _, readHash_eq (by omega), _, h.kind, rfl⟩
  · exact Nat.ne_of_gt (Nat.lt_of_le_of_lt (Nat.zero_le _) hadvances)
  · exact hadvances

/-- The retained-event reader returns what the strict decoder read, for the records of its
sequence. -/
theorem readRetainedEventBytes_eq_ok {event : CanonicalRetainedEvent Bytes32} :
    readRetainedEventBytes eventSequence encoded = .ok event ↔
      ∃ record, decodeChainEvent encoded = .ok record ∧ record.resultingEpochId = eventSequence ∧
        record.previousEpochId = eventSequence - 1 ∧
          event = retainedEventOf eventSequence record := by
  simp only [readRetainedEventBytes, bind_eq_ok, rejectIf_eq_ok, not_or, not_not, Except.ok.injEq]
  constructor
  · rintro ⟨_, -, record, hrecord, _, ⟨hresulting, hprevious⟩, rfl⟩
    cases hdecode : decodeChainEvent encoded with
    | error e => rw [hdecode] at hrecord; cases hrecord
    | ok record' =>
      rw [hdecode] at hrecord
      cases hrecord
      exact ⟨record, rfl, hresulting, hprevious, rfl⟩
  · rintro ⟨record, hdecode, hresulting, hprevious, rfl⟩
    have hshape : validateEventShape eventSequence encoded = .ok () :=
      validateEventShape_eq_ok.mpr ⟨_, _, (decodeChainEvent_wellShaped hdecode).1⟩
    refine ⟨(), hshape, record, ?_, (), ⟨hresulting, hprevious⟩, rfl⟩
    rw [hdecode]
    rfl

end Readers

/-! ## The rows of the store -/

section Rows

variable {encoded : Bytes} {record : ChainEventRecord Bytes32}

theorem eventKindOf_eq_some {kind : UInt8} {previousEpochId : Nat}
    {revertedRange : Option BlockHeightRange} {event : ChainEventKind}
    (h : eventKindOf kind previousEpochId revertedRange = some event) :
    event = .committed ∧ revertedRange = none ∨
      event = .reorg ∧ 0 < previousEpochId ∧ revertedRange ≠ none := by
  unfold eventKindOf at h
  split at h
  case isTrue hcommitted =>
    cases h
    exact .inl ⟨rfl, Option.isNone_iff_eq_none.mp hcommitted.2⟩
  case isFalse =>
    split at h
    case isTrue hreorg =>
      cases h
      exact .inr ⟨rfl, hreorg.2.1, Option.isSome_iff_ne_none.mp hreorg.2.2⟩
    case isFalse => cases h

/-- What the strict decoder reads passes the checks the store makes on a row. -/
theorem validateEventRecordShape_of_decodeChainEvent (eventSequence : Nat)
    (h : decodeChainEvent encoded = .ok record) :
    validateEventRecordShape eventSequence record = .ok () ∧ validateEventTransition record := by
  obtain ⟨hshaped, hcommitted, hresulting, hprevious, hadvances⟩ := decodeChainEvent_wellShaped h
  refine ⟨?_, hresulting ▸ Nat.lt_of_le_of_lt (Nat.zero_le _) hadvances,
    hresulting ▸ hprevious ▸ hadvances⟩
  have hkind := eventKindOf_eq_some hshaped.kind
  rw [← hprevious] at hkind
  have hrange : validateEventRange eventSequence record.committedRange true = .ok () := by
    rw [validateEventRange, rejectIf_eq_ok, not_not, hcommitted]
    exact hshaped.committed.imp_right fun hnext => ⟨rfl, hnext⟩
  have hreverted : ∀ range ∈ record.revertedRange,
      validateEventRange eventSequence range false = .ok () := by
    intro range hmem
    obtain ⟨-, -, hnone⟩ | ⟨-, hle, hsome⟩ := hshaped.reverted
    · rw [hnone] at hmem
      cases hmem
    · rw [hsome] at hmem
      cases hmem
      rw [validateEventRange, rejectIf_eq_ok, not_not]
      exact .inl hle
  unfold validateEventRecordShape
  cases hoption : record.revertedRange with
  | none =>
    rw [hoption] at hkind
    rw [hrange]
    exact rejectIf_eq_ok.mpr (not_not.mpr hkind)
  | some range =>
    rw [hoption] at hkind
    change (validateEventRange eventSequence range false >>= fun _ =>
      validateEventRange eventSequence record.committedRange true >>= _) = _
    rw [hreverted range hoption, hrange]
    exact rejectIf_eq_ok.mpr (not_not.mpr hkind)

/-- Reading a retained event from its row is reading it from the bytes the row is stored as. -/
theorem readRetainedEvent_eq_readRetainedEventBytes {db : Db Bytes32} {eventSequence : Nat}
    (hrow : db.lookup (Key.chainEvent eventSequence) = some record)
    (h : decodeChainEvent encoded = .ok record) :
    readRetainedEvent db eventSequence = readRetainedEventBytes eventSequence encoded := by
  obtain ⟨hshape, htransition⟩ := validateEventRecordShape_of_decodeChainEvent eventSequence h
  have hbytes : validateEventShape eventSequence encoded = .ok () :=
    validateEventShape_eq_ok.mpr ⟨_, _, (decodeChainEvent_wellShaped h).1⟩
  rw [readRetainedEvent, readRetainedEventBytes, hrow, hbytes, h]
  simp only [okOr, ok_bind, hshape, Except.mapError, rejectIf, htransition, not_true, if_false]
  rfl

end Rows

/-! ## One meaning -/

/-- Epoch and event records have one meaning. What a baseline, an append or a replacement writes is
read back exactly. The strict decoder accepts the records of the right shape whose epoch advances, and
the retained-event reader accepts those of them that are at home under their sequence, with the same
kind, ranges, epochs and fence. -/
theorem event_records_one_meaning :
    (∀ epoch : ChainEpochRecord, epoch.Fits →
      decodeChainEpoch (encodeChainEpoch epoch) = .ok epoch) ∧
    (∀ ready : CanonicalStoreReadyEvidence Bytes32,
      ready.firstRetainedBlock.height ≤ ready.visibleTip.height →
      ready.visibleTip.height < u32Bound → ready.visibleBlockCount < u64Bound →
      decodeChainEvent (encodeBaselineEvent ready) = .ok (transitionRecord 1 0 none
        ⟨ready.firstRetainedBlock.height, ready.visibleTip.height⟩ (eventFenceFromReady ready))) ∧
    (∀ (previousEpochId : Nat) (fence : CanonicalEventFence Bytes32),
      previousEpochId < fence.chainEpochId → fence.chainEpochId < u64Bound →
      fence.visibleTip.height < u32Bound → fence.sequenceDigest.blockCount < u64Bound →
      decodeChainEvent (encodeLiveAppendEvent previousEpochId fence) = .ok
        (transitionRecord fence.chainEpochId previousEpochId none
          ⟨fence.visibleTip.height, fence.visibleTip.height⟩ fence)) ∧
    (∀ (resultingEpochId previousEpochId : Nat) (revertedRange committedRange : BlockHeightRange)
      (fence : CanonicalEventFence Bytes32),
      TransitionFits resultingEpochId previousEpochId (some revertedRange) committedRange fence →
      decodeChainEvent (encodeLiveEvent resultingEpochId previousEpochId (some revertedRange)
        committedRange fence) = .ok (transitionRecord resultingEpochId previousEpochId
          (some revertedRange) committedRange fence)) ∧
    (∀ (eventSequence : Nat) (encoded : Bytes),
      (∃ record, decodeChainEvent encoded = .ok record) ↔
        validateEventShape eventSequence encoded = .ok () ∧
          previousEpochAt encoded < resultingEpochAt encoded) ∧
    (∀ (eventSequence : Nat) (encoded : Bytes) (event : CanonicalRetainedEvent Bytes32),
      readRetainedEventBytes eventSequence encoded = .ok event ↔
        ∃ record, decodeChainEvent encoded = .ok record ∧ record.resultingEpochId = eventSequence ∧
          record.previousEpochId = eventSequence - 1 ∧
          event = retainedEventOf eventSequence record) := by
  refine ⟨fun epoch hfits => decodeChainEpoch_encode hfits, ?_, ?_, ?_, ?_,
    fun _ _ _ => readRetainedEventBytes_eq_ok⟩
  · intro ready hle htip hcount
    rw [encodeBaselineEvent_eq]
    refine decodeChainEvent_encodeLiveEvent ⟨by decide, by decide, by simp, ?_, htip, hcount⟩
    exact ⟨Nat.le_succ_of_le hle, Nat.lt_of_le_of_lt hle htip, htip⟩
  · intro previous fence hadvances hepoch htip hcount
    refine decodeChainEvent_encodeLiveEvent ⟨hepoch, hadvances, by simp, ?_, htip, hcount⟩
    exact ⟨Nat.le_succ _, htip, htip⟩
  · intro resulting previous reverted committed fence hfits
    exact decodeChainEvent_encodeLiveEvent hfits
  · intro sequence encoded
    rw [validateEventShape_eq_ok]
    constructor
    · rintro ⟨record, hdecode⟩
      obtain ⟨hshaped, -, -, -, hadvances⟩ := decodeChainEvent_wellShaped hdecode
      exact ⟨⟨_, _, hshaped⟩, hadvances⟩
    · rintro ⟨⟨kind, reverted, hshaped⟩, hadvances⟩
      exact decodeChainEvent_of_wellShaped hshaped hadvances

section Samples

private def sampleFence : CanonicalEventFence Bytes32 :=
  ⟨7, 7, ⟨12, repeatedByte 7⟩, ⟨12, repeatedByte 9⟩⟩

theorem event_records_one_meaning_sample :
    decodeChainEvent (encodeLiveEvent 7 6 (some ⟨11, 13⟩) ⟨11, 12⟩ sampleFence) = .ok
      (transitionRecord 7 6 (some ⟨11, 13⟩) ⟨11, 12⟩ sampleFence) :=
  event_records_one_meaning.2.2.2.1 7 6 ⟨11, 13⟩ ⟨11, 12⟩ sampleFence
    ⟨by decide, by decide, by simp [u32Bound], ⟨by decide, by decide, by decide⟩, by decide, by decide⟩

/-- A record of the right shape that names no resulting epoch: the shape validation lets it through
and the strict decoder does not. -/
theorem validateEventShape_zero_epoch :
    validateEventShape 7 (encodeLiveEvent 0 0 none ⟨12, 12⟩ sampleFence) = .ok () ∧
    decodeChainEvent (encodeLiveEvent 0 0 none ⟨12, 12⟩ sampleFence) =
      .error (.publication "chain event epoch transition is not monotonic") := by
  decide +kernel

end Samples

end Zinder.Canonical
