import Zinder.Canonical.ControlCodec

/-!
# Zinder.Canonical.ControlExact

The control record is exact: the decoder accepts a byte string when the control state it returns is one
the writers can be asked to write and encodes to that very byte string, and only then. So no record has
two spellings and no accepted byte is ignored.

One law per reader, in the order the record is read; `decodeStoreControl_eq_ok` puts them together.
-/

namespace Zinder.Canonical

open ByteReader List

/-! ## Fields -/

section Fields

variable {bytes rest : Bytes} {field : String}

theorem check_eq_ok {bad : Prop} [Decidable bad] {e : StoreControlError} {u : Unit} :
    check bad e bytes = .ok (u, rest) ↔ ¬ bad ∧ bytes = rest := by
  rw [check, lift_eq_ok, rejectIf_eq_ok]

theorem readArray32_eq_ok {hash : Bytes32} :
    readArray32 field bytes = .ok (hash, rest) ↔ bytes = hash.bytes ++ rest := by
  rw [readArray32, ByteReader.bind_eq_ok]
  simp only [array_eq_ok, ByteReader.pure_eq_ok]
  constructor
  · rintro ⟨a, _, rfl, rfl, rfl⟩
    rfl
  · rintro rfl
    exact ⟨⟨hash.bytes, hash.length_eq⟩, _, rfl, rfl, rfl⟩

theorem readVersion_eq_ok {width : Nat} (hwidth : 0 < width) {u : Unit} :
    readVersion width field bytes = .ok (u, rest) ↔
      bytes = LittleEndian.toBytes width contractVersion ++ rest := by
  rw [readVersion, ByteReader.bind_eq_ok]
  simp only [littleEndian_eq_ok, check_eq_ok, not_not]
  constructor
  · rintro ⟨_, _, ⟨-, rfl⟩, rfl, rfl⟩
    rfl
  · rintro rfl
    exact ⟨contractVersion, _, ⟨Nat.one_lt_pow hwidth.ne' (by decide), rfl⟩, rfl, rfl⟩

theorem readBlockId_eq_ok {heightField hashField : String} {block : BlockId} :
    readBlockId heightField hashField bytes = .ok (block, rest) ↔
      block.height < u32Bound ∧ bytes = encodeBlockId block ++ rest := by
  rw [readBlockId, ByteReader.bind_eq_ok]
  simp only [ControlReader.readU32, littleEndian_eq_ok, ByteReader.bind_eq_ok, readArray32_eq_ok,
    ByteReader.pure_eq_ok, encodeBlockId]
  constructor
  · rintro ⟨height, _, ⟨hlt, rfl⟩, hash, _, rfl, rfl, rfl⟩
    exact ⟨hlt, (append_assoc ..).symm⟩
  · rintro ⟨hlt, rfl⟩
    exact ⟨block.height, _, ⟨hlt, append_assoc ..⟩, block.hash, _, rfl, rfl, rfl⟩

end Fields

/-! ## Frontiers -/

section Frontiers

variable {T : TreeLibrary} {protocol : ShieldedProtocol} {bytes rest : Bytes}

def FrontierValid (T : TreeLibrary) (protocol : ShieldedProtocol)
    (frontier : Option CommitmentTreeFrontier) : Prop :=
  ∀ f ∈ frontier, CommitmentTreeFrontier.fromCanonicalFinalState T protocol f.finalRoot
    f.finalStateBytes = .ok f

theorem readPredecessorFrontier_eq_ok {frontier : Option CommitmentTreeFrontier} :
    readPredecessorFrontier T protocol bytes = .ok (frontier, rest) ↔
      FrontierValid T protocol frontier ∧
        ∃ w, encodeFrontier protocol frontier = .ok w ∧ bytes = w ++ rest := by
  rw [readPredecessorFrontier, ByteReader.bind_eq_ok]
  simp only [ControlReader.readU8, byte_eq_ok]
  constructor
  · rintro ⟨presence, mid, rfl, h⟩
    split at h
    case isTrue habsent =>
      obtain ⟨rfl, rfl⟩ := ByteReader.pure_eq_ok.mp h
      exact ⟨by simp [FrontierValid], [frontierAbsent], rfl, by rw [habsent]; rfl⟩
    case isFalse =>
      split at h
      case isTrue hpresent =>
        simp only [ControlReader.readU16, ByteReader.bind_eq_ok, readArray32_eq_ok,
          littleEndian_eq_ok, check_eq_ok, take_eq_ok, lift_eq_ok, mapError_ok_iff,
          ByteReader.pure_eq_ok, Nat.not_lt] at h
        obtain ⟨root, _, rfl, length, _, ⟨-, rfl⟩, _, _, ⟨-, rfl⟩, state, _, ⟨rfl, rfl⟩, f, _,
          ⟨hvalid, rfl⟩, rfl, rfl⟩ := h
        obtain ⟨hlength, read, _, rfl⟩ :=
          CommitmentTreeFrontier.fromCanonicalFinalState_eq_ok hvalid
        have hfits : ¬ 2 ^ 16 ≤ state.length :=
          Nat.not_le.mpr (Nat.lt_of_le_of_lt hlength (by decide))
        refine ⟨?_, _, by rw [encodeFrontier, rejectIf_of_not hfits]; rfl, ?_⟩
        · rintro g ⟨⟩
          exact hvalid
        · simp [hpresent]
      case isFalse => cases h
  · rintro ⟨hvalid, w, hw, rfl⟩
    cases frontier with
    | none =>
      cases hw
      exact ⟨frontierAbsent, rest, rfl, ByteReader.pure_eq_ok.mpr ⟨rfl, rfl⟩⟩
    | some f =>
      simp only [encodeFrontier, bind_eq_ok, rejectIf_eq_ok, Except.ok.injEq, Nat.not_le] at hw
      obtain ⟨_, hfits, rfl⟩ := hw
      have hvalid := hvalid f rfl
      obtain ⟨hlength, _⟩ := CommitmentTreeFrontier.fromCanonicalFinalState_eq_ok hvalid
      refine ⟨frontierPresent, _, rfl, ?_⟩
      rw [if_neg (by decide), if_pos rfl]
      simp only [ControlReader.readU16, ByteReader.bind_eq_ok, readArray32_eq_ok,
        littleEndian_eq_ok, check_eq_ok, take_eq_ok, lift_eq_ok, mapError_ok_iff,
        ByteReader.pure_eq_ok, Nat.not_lt]
      refine ⟨f.finalRoot, _, by simp, f.finalStateBytes.length, _, ⟨hfits, rfl⟩, (), _,
        ⟨hlength, rfl⟩, f.finalStateBytes, rest, ⟨rfl, rfl⟩, f, rest, ⟨hvalid, rfl⟩, rfl, rfl⟩

end Frontiers

/-! ## History -/

section History

variable {T : TreeLibrary} {bytes rest : Bytes}

/-- Bounds that belong to a predecessor: complete history starts after a block of height zero, and a
checkpoint is the predecessor itself and has a successor. -/
def BoundsOf (bounds : HistoryBounds) (predecessor : BlockId) : Prop :=
  match bounds with
  | none => predecessor.height = 0
  | some checkpoint => checkpoint = predecessor ∧ predecessor.height + 1 < u32Bound

variable {bounds : HistoryBounds}

theorem historyBoundsOf_eq_ok {kind : UInt8} {predecessor : BlockId} :
    historyBoundsOf kind predecessor = .ok bounds ↔
      BoundsOf bounds predecessor ∧
        kind :: encodeBlockId predecessor = encodeHistoryKind bounds predecessor := by
  have hdiffer : checkpointedHistory ≠ completeHistory := by decide
  unfold historyBoundsOf
  split
  case isTrue hkind =>
    subst hkind
    cases bounds with
    | none => simp [bind_eq_ok, BoundsOf, encodeHistoryKind]
    | some checkpoint => simp [bind_eq_ok, encodeHistoryKind, hdiffer.symm]
  case isFalse hkind =>
    split
    case isTrue hcheckpointed =>
      subst hcheckpointed
      cases bounds with
      | none => simp [bind_eq_ok, encodeHistoryKind, hdiffer]
      | some checkpoint =>
        simp only [bind_eq_ok, rejectIf_eq_ok, Except.ok.injEq, Option.some.injEq, BoundsOf,
          encodeHistoryKind, List.cons.injEq, true_and]
        constructor
        · rintro ⟨_, hnext, rfl⟩
          obtain ⟨next, hnext⟩ := Option.ne_none_iff_exists'.mp hnext
          exact ⟨⟨rfl, (nextHeight_eq_some.mp hnext).1⟩, rfl⟩
        · rintro ⟨⟨rfl, hlt⟩, -⟩
          refine ⟨(), ?_, rfl⟩
          rw [nextHeight_eq_some.mpr ⟨hlt, rfl⟩]
          exact Option.some_ne_none _
    case isFalse hother =>
      cases bounds <;> simp [encodeHistoryKind, hkind, hother]

theorem exists_encodeHistoryKind {predecessor : BlockId} (h : BoundsOf bounds predecessor) :
    ∃ kind, kind :: encodeBlockId predecessor = encodeHistoryKind bounds predecessor := by
  cases bounds with
  | none => exact ⟨completeHistory, rfl⟩
  | some checkpoint =>
    obtain ⟨rfl, -⟩ := h
    exact ⟨checkpointedHistory, rfl⟩

structure HistoryValid (T : TreeLibrary) (bounds : HistoryBounds)
    (predecessor : CommitmentTreeCheckpoint) : Prop where
  bounds : BoundsOf bounds predecessor.blockId
  height : predecessor.blockId.height < u32Bound
  time : predecessor.blockTimeSeconds < u32Bound
  frontiers : ∀ protocol, FrontierValid T protocol (predecessor.frontiers.get protocol)

theorem readHistoryBounds_eq_ok {predecessor : CommitmentTreeCheckpoint} :
    readHistoryBounds T bytes = .ok ((bounds, predecessor), rest) ↔
      HistoryValid T bounds predecessor ∧
        ∃ w, encodePredecessorFrontiers predecessor.frontiers = .ok w ∧
          bytes = encodeHistoryKind bounds predecessor.blockId ++
            (LittleEndian.toBytes 4 predecessor.blockTimeSeconds ++ (w ++ rest)) := by
  rw [readHistoryBounds]
  simp only [ControlReader.readU8, ControlReader.readU32, ByteReader.bind_eq_ok, byte_eq_ok,
    readBlockId_eq_ok, lift_eq_ok, littleEndian_eq_ok, readPredecessorFrontier_eq_ok, ByteReader.pure_eq_ok,
    encodePredecessorFrontiers, bind_eq_ok, Except.ok.injEq, historyBoundsOf_eq_ok]
  constructor
  · rintro ⟨kind, _, rfl, block, _, ⟨hheight, rfl⟩, bounds, _, ⟨⟨hbounds, hkind⟩, rfl⟩, time, _,
      ⟨htime, rfl⟩, sapling, _, ⟨hsapling, s, hs, rfl⟩, orchard, _, ⟨horchard, o, ho, rfl⟩, ironwood, _,
      ⟨hironwood, i, hi, rfl⟩, hpair, rfl⟩
    cases hpair
    refine ⟨⟨hbounds, hheight, htime, ?_⟩, _, ⟨s, hs, o, ho, i, hi, rfl⟩, ?_⟩
    · intro protocol
      cases protocol with
      | sapling => exact hsapling
      | orchard => exact horchard
      | ironwood => exact hironwood
    · rw [← hkind]
      simp
  · rintro ⟨hvalid, w, ⟨s, hs, o, ho, i, hi, rfl⟩, rfl⟩
    obtain ⟨kind, hkind⟩ := exists_encodeHistoryKind hvalid.bounds
    refine ⟨kind, _, ?_, predecessor.blockId, _, ⟨hvalid.height, rfl⟩, bounds, _,
      ⟨⟨hvalid.bounds, hkind⟩, rfl⟩, predecessor.blockTimeSeconds, _, ⟨hvalid.time, rfl⟩,
      predecessor.frontiers.sapling, _, ⟨hvalid.frontiers .sapling, s, hs, rfl⟩,
      predecessor.frontiers.orchard, _, ⟨hvalid.frontiers .orchard, o, ho, rfl⟩,
      predecessor.frontiers.ironwood, _, ⟨hvalid.frontiers .ironwood, i, hi, rfl⟩, rfl, rfl⟩
    rw [← hkind]
    simp

end History

/-! ## READY evidence -/

section Ready

variable {bytes rest : Bytes}

/-- A checkpoint inside the visible history: it counts its blocks from the first retained one, and has
some of the replay bytes. -/
structure CheckpointValid (firstHeight tipHeight replayBytes : Nat)
    (checkpoint : CanonicalSequenceCheckpoint Bytes32) : Prop where
  height : checkpoint.through.height < u32Bound
  count_lt : checkpoint.retainedBlockCount < u64Bound
  bytes_lt : checkpoint.logicalReplayBytes < u64Bound
  digestCount : checkpoint.sequenceDigest.blockCount = checkpoint.retainedBlockCount
  visible : checkpoint.through.height ≤ tipHeight
  count : heightSpan firstHeight checkpoint.through.height = some checkpoint.retainedBlockCount
  bytes_ne : checkpoint.logicalReplayBytes ≠ 0
  bytes_le : checkpoint.logicalReplayBytes ≤ replayBytes

theorem readSequenceCheckpoint_eq_ok {firstHeight tipHeight replayBytes : Nat}
    {checkpoint : CanonicalSequenceCheckpoint Bytes32} :
    readSequenceCheckpoint firstHeight tipHeight replayBytes bytes = .ok (checkpoint, rest) ↔
      CheckpointValid firstHeight tipHeight replayBytes checkpoint ∧
        bytes = encodeSequenceCheckpoint checkpoint ++ rest := by
  rw [readSequenceCheckpoint]
  simp only [ControlReader.readU64, ByteReader.bind_eq_ok, readBlockId_eq_ok, littleEndian_eq_ok,
    readVersion_eq_ok (show 0 < 2 by decide), readArray32_eq_ok, check_eq_ok, ByteReader.pure_eq_ok,
    not_or, Nat.not_lt, not_not, encodeSequenceCheckpoint]
  constructor
  · rintro ⟨through, _, ⟨hheight, rfl⟩, count, _, ⟨hcountLt, rfl⟩, _, _, rfl, digest, _, rfl, replayed,
      _, ⟨hbytesLt, rfl⟩, _, _, ⟨⟨hvisible, hcount, hne, hle⟩, rfl⟩, rfl, rfl⟩
    exact ⟨⟨hheight, hcountLt, hbytesLt, rfl, hvisible, hcount, hne, hle⟩, by simp⟩
  · rintro ⟨hvalid, rfl⟩
    obtain ⟨through, count, ⟨digestCount, digest⟩, replayed⟩ := checkpoint
    obtain ⟨hheight, hcountLt, hbytesLt, hdigest, hvisible, hcount, hne, hle⟩ := hvalid
    have hdigest : digestCount = count := hdigest
    subst hdigest
    refine ⟨through, _, ⟨hheight, ?_⟩, _, _, ⟨hcountLt, rfl⟩, (), _, rfl, digest, _, rfl, replayed,
      _, ⟨hbytesLt, rfl⟩, (), _, ⟨⟨hvisible, hcount, hne, hle⟩, rfl⟩, rfl, rfl⟩
    simp

def encodeReadyPosition (position : ReadyPosition) : Bytes :=
  encodeBlockId position.first ++ (encodeBlockId position.tip ++
    (LittleEndian.toBytes 8 position.epoch ++ (LittleEndian.toBytes 8 position.eventSequence ++
      LittleEndian.toBytes 8 position.blockCount)))

structure PositionFits (position : ReadyPosition) : Prop where
  first : position.first.height < u32Bound
  tip : position.tip.height < u32Bound
  epoch : position.epoch < u64Bound
  eventSequence : position.eventSequence < u64Bound
  blockCount : position.blockCount < u64Bound

theorem readReadyPosition_eq_ok {position : ReadyPosition} :
    readReadyPosition bytes = .ok (position, rest) ↔
      PositionFits position ∧ bytes = encodeReadyPosition position ++ rest := by
  rw [readReadyPosition]
  simp only [ControlReader.readU64, ByteReader.bind_eq_ok, readBlockId_eq_ok, littleEndian_eq_ok,
    ByteReader.pure_eq_ok, encodeReadyPosition]
  constructor
  · rintro ⟨first, _, ⟨hfirst, rfl⟩, tip, _, ⟨htip, rfl⟩, epoch, _, ⟨hepoch, rfl⟩, event, _,
      ⟨hevent, rfl⟩, count, _, ⟨hcount, rfl⟩, rfl, rfl⟩
    exact ⟨⟨hfirst, htip, hepoch, hevent, hcount⟩, by simp⟩
  · rintro ⟨hfits, rfl⟩
    refine ⟨_, _, ⟨hfits.first, ?_⟩, _, _, ⟨hfits.tip, rfl⟩, _, _, ⟨hfits.epoch, rfl⟩, _, _,
      ⟨hfits.eventSequence, rfl⟩, _, _, ⟨hfits.blockCount, rfl⟩, rfl, rfl⟩
    simp

variable {buildTip : BlockId} {u : Unit} {firstAvailableHeight : Nat}

theorem readContractVersions_eq_ok :
    readContractVersions bytes = .ok (u, rest) ↔
      bytes = LittleEndian.toBytes 2 contractVersion ++ (LittleEndian.toBytes 4 contractVersion ++
        (LittleEndian.toBytes 2 contractVersion ++ rest)) := by
  rw [readContractVersions]
  simp only [ByteReader.bind_eq_ok, readVersion_eq_ok (show 0 < 2 by decide),
    readVersion_eq_ok (show 0 < 4 by decide)]
  constructor
  · rintro ⟨_, _, rfl, _, _, rfl, rfl⟩
    rfl
  · rintro rfl
    exact ⟨(), _, rfl, (), _, rfl, rfl⟩

theorem readManifestBinding_eq_ok {manifest : Nat × Bytes32} :
    readManifestBinding bytes = .ok (manifest, rest) ↔
      manifest.1 < 256 ^ 2 ∧
        bytes = LittleEndian.toBytes 2 manifest.1 ++ (manifest.2.bytes ++ rest) := by
  rw [readManifestBinding]
  simp only [ControlReader.readU16, ByteReader.bind_eq_ok, littleEndian_eq_ok, readArray32_eq_ok,
    ByteReader.pure_eq_ok]
  constructor
  · rintro ⟨version, _, ⟨hversion, rfl⟩, sha, _, rfl, rfl, rfl⟩
    exact ⟨hversion, rfl⟩
  · rintro ⟨hversion, rfl⟩
    exact ⟨_, _, ⟨hversion, rfl⟩, _, _, rfl, rfl, rfl⟩

def ControlReadyEvidence.position (ready : ControlReadyEvidence) : ReadyPosition :=
  ⟨ready.evidence.firstRetainedBlock, ready.evidence.visibleTip, ready.evidence.visibleEpoch,
    ready.evidence.visibleEventSequence, ready.evidence.visibleBlockCount⟩

structure ReadyValid (firstAvailableHeight : Nat) (buildTip : BlockId)
    (ready : ControlReadyEvidence) : Prop where
  position : PositionFits ready.position
  bytes_lt : ready.evidence.visibleLogicalReplayBytes < u64Bound
  checkpoint : CheckpointValid ready.evidence.firstRetainedBlock.height
    ready.evidence.visibleTip.height ready.evidence.visibleLogicalReplayBytes
    ready.evidence.sequenceCheckpoint
  first : ready.evidence.firstRetainedBlock.height = firstAvailableHeight
  pointer : PointerExact buildTip ready.evidence.visibleEpoch ready.evidence.visibleEventSequence
    ready.evidence.visibleTip
  count : heightSpan ready.evidence.firstRetainedBlock.height ready.evidence.visibleTip.height =
    some ready.evidence.visibleBlockCount
  bytes_ne : ready.evidence.visibleLogicalReplayBytes ≠ 0
  manifest : ready.constructionManifestVersion = canonicalConstructionManifestFormatVersion
  sha256 : ∃ b ∈ ready.constructionManifestSha256.bytes, b ≠ 0

theorem validateReady_eq_ok {position : ReadyPosition} {replayBytes : Nat}
    {manifest : Nat × Bytes32} :
    validateReady firstAvailableHeight buildTip position replayBytes manifest = .ok u ↔
      (position.first.height = firstAvailableHeight ∧
        PointerExact buildTip position.epoch position.eventSequence position.tip ∧
        heightSpan position.first.height position.tip.height = some position.blockCount) ∧
      replayBytes ≠ 0 ∧ manifest.1 = canonicalConstructionManifestFormatVersion ∧
        ∃ b ∈ manifest.2.bytes, b ≠ 0 := by
  simp only [validateReady, bind_eq_ok, rejectIf_eq_ok, not_or, not_not, not_forall, exists_prop]
  constructor
  · rintro ⟨_, hposition, _, hne, hmanifest⟩
    exact ⟨hposition, hne, hmanifest⟩
  · rintro ⟨hposition, hne, hmanifest⟩
    exact ⟨(), hposition, (), hne, hmanifest⟩

theorem encodeReadyFields_eq (ready : ControlReadyEvidence) (rest : Bytes) :
    encodeReadyFields ready ++ rest = encodeReadyPosition ready.position ++
      (LittleEndian.toBytes 2 contractVersion ++ (LittleEndian.toBytes 4 contractVersion ++
        (LittleEndian.toBytes 2 contractVersion ++ (ready.evidence.visibleSequenceDigest.bytes ++
          (LittleEndian.toBytes 8 ready.evidence.visibleLogicalReplayBytes ++
            (encodeSequenceCheckpoint ready.evidence.sequenceCheckpoint ++
              (LittleEndian.toBytes 2 ready.constructionManifestVersion ++
                (ready.constructionManifestSha256.bytes ++ rest)))))))) := by
  simp only [encodeReadyFields, encodeReadyPosition, ControlReadyEvidence.position, append_assoc]

theorem readReadyEvidence_eq_ok {ready : ControlReadyEvidence} :
    readReadyEvidence firstAvailableHeight buildTip bytes = .ok (ready, rest) ↔
      ReadyValid firstAvailableHeight buildTip ready ∧ bytes = encodeReadyFields ready ++ rest := by
  rw [readReadyEvidence, encodeReadyFields_eq]
  simp only [ControlReader.readU64, ByteReader.bind_eq_ok, readReadyPosition_eq_ok,
    readContractVersions_eq_ok, littleEndian_eq_ok, readArray32_eq_ok, readSequenceCheckpoint_eq_ok,
    readManifestBinding_eq_ok, lift_eq_ok, validateReady_eq_ok, ByteReader.pure_eq_ok]
  constructor
  · rintro ⟨position, _, ⟨hfits, rfl⟩, _, _, rfl, digest, _, rfl, replayed, _, ⟨hbytes, rfl⟩, checkpoint,
      _, ⟨hcheckpoint, rfl⟩, manifest, _, ⟨-, rfl⟩, _, _, ⟨⟨⟨hfirst, hpointer, hcount⟩, hne, hversion,
      hsha⟩, rfl⟩, rfl, rfl⟩
    exact ⟨⟨hfits, hbytes, hcheckpoint, hfirst, hpointer, hcount, hne, hversion, hsha⟩, rfl⟩
  · rintro ⟨hvalid, rfl⟩
    have hversion : ready.constructionManifestVersion < 256 ^ 2 := by
      rw [hvalid.manifest]
      decide
    exact ⟨ready.position, _, ⟨hvalid.position, rfl⟩, (), _, rfl, _, _, rfl, _, _,
      ⟨hvalid.bytes_lt, rfl⟩, _, _, ⟨hvalid.checkpoint, rfl⟩,
      (ready.constructionManifestVersion, ready.constructionManifestSha256), _, ⟨hversion, rfl⟩, (), _,
      ⟨⟨⟨hvalid.first, hvalid.pointer, hvalid.count⟩, hvalid.bytes_ne, hvalid.manifest,
        hvalid.sha256⟩, rfl⟩, rfl, rfl⟩

def encodeBuildState : CanonicalStoreBuildState → Bytes
  | .building => buildingState :: List.replicate readyFieldsLength 0
  | .ready ready => readyState :: encodeReadyFields ready

def StateValid (firstAvailableHeight : Nat) (buildTip : BlockId) : CanonicalStoreBuildState → Prop
  | .building => True
  | .ready ready => ReadyValid firstAvailableHeight buildTip ready

theorem readBuildingFields_eq_ok :
    readBuildingFields bytes = .ok (u, rest) ↔
      bytes = List.replicate readyFieldsLength 0 ++ rest := by
  rw [readBuildingFields, ByteReader.bind_eq_ok]
  simp only [take_eq_ok, check_eq_ok, not_exists, not_and, not_not]
  constructor
  · rintro ⟨fields, _, ⟨hlength, rfl⟩, hzero, rfl⟩
    rw [eq_replicate_of_mem hzero, hlength]
  · rintro rfl
    exact ⟨_, _, ⟨length_replicate, rfl⟩, fun b hb => eq_of_mem_replicate hb, rfl⟩

theorem readBuildState_eq_ok {state : CanonicalStoreBuildState} :
    readBuildState firstAvailableHeight buildTip bytes = .ok (state, rest) ↔
      StateValid firstAvailableHeight buildTip state ∧ bytes = encodeBuildState state ++ rest := by
  rw [readBuildState, ByteReader.bind_eq_ok]
  simp only [ControlReader.readU8, byte_eq_ok]
  constructor
  · rintro ⟨code, mid, rfl, h⟩
    split at h
    case isTrue hbuilding =>
      simp only [ByteReader.bind_eq_ok, readBuildingFields_eq_ok, ByteReader.pure_eq_ok] at h
      obtain ⟨_, _, rfl, rfl, rfl⟩ := h
      exact ⟨trivial, by rw [hbuilding]; rfl⟩
    case isFalse =>
      split at h
      case isTrue hready =>
        simp only [ByteReader.bind_eq_ok, readReadyEvidence_eq_ok, ByteReader.pure_eq_ok] at h
        obtain ⟨ready, _, ⟨hvalid, rfl⟩, rfl, rfl⟩ := h
        exact ⟨hvalid, by rw [hready]; rfl⟩
      case isFalse => cases h
  · rintro ⟨hvalid, rfl⟩
    cases state with
    | building =>
      refine ⟨buildingState, _, rfl, ?_⟩
      rw [if_pos rfl]
      simp only [ByteReader.bind_eq_ok, readBuildingFields_eq_ok, ByteReader.pure_eq_ok]
      exact ⟨(), _, rfl, trivial, rfl⟩
    | ready ready =>
      refine ⟨readyState, _, rfl, ?_⟩
      rw [if_neg (by decide), if_pos rfl]
      simp only [ByteReader.bind_eq_ok, readReadyEvidence_eq_ok, ByteReader.pure_eq_ok]
      exact ⟨ready, _, ⟨hvalid, rfl⟩, rfl, rfl⟩

end Ready

/-! ## The record -/

section Record

variable {T : TreeLibrary} {bytes rest : Bytes}

theorem fromId_eq_some {id : Nat} {network : Network} :
    Network.fromId id = some network ↔ id = network.id := by
  constructor
  · intro h
    unfold Network.fromId at h
    split at h <;> cases h <;> rfl
  · rintro rfl
    exact Network.fromId_id network

theorem workloadOf_eq_some {code : UInt8} {workload : CanonicalStoreWorkload} :
    workloadOf code = some workload ↔ code = workloadCode workload := by
  unfold workloadOf
  cases workload <;> simp only [workloadCode] <;> split <;> simp_all

theorem retentionOf_eq_some {code : UInt8} {retention : RawBlobRetention} :
    retentionOf code = some retention ↔ code = retentionCode retention := by
  constructor
  · intro h
    unfold retentionOf at h
    split_ifs at h with hcode hcode hcode <;> cases h <;> exact hcode
  · rintro rfl
    cases retention <;> rfl

def encodeControlHeader (header : ControlHeader) : Bytes :=
  canonicalStoreIdentity ++ (LittleEndian.toBytes 2 canonicalStoreSchemaVersion ++
    (LittleEndian.toBytes 4 header.network.id ++ (LittleEndian.toBytes 2 contractVersion ++
      (header.fingerprint.bytes ++ ([workloadCode header.workload] ++
        ([retentionCode header.rawBlobRetention] ++
          LittleEndian.toBytes 4 header.reorgWindowBlocks))))))

theorem readStoreIdentity_eq_ok {u : Unit} :
    readStoreIdentity bytes = .ok (u, rest) ↔
      bytes = canonicalStoreIdentity ++ (LittleEndian.toBytes 2 canonicalStoreSchemaVersion ++ rest) := by
  rw [readStoreIdentity]
  simp only [ControlReader.readU16, ByteReader.bind_eq_ok, take_eq_ok, check_eq_ok,
    littleEndian_eq_ok, not_not]
  constructor
  · rintro ⟨_, _, ⟨-, rfl⟩, _, _, ⟨rfl, rfl⟩, _, _, ⟨-, rfl⟩, rfl, rfl⟩
    rfl
  · rintro rfl
    exact ⟨_, _, ⟨rfl, rfl⟩, (), _, ⟨rfl, rfl⟩, _, _, ⟨by decide, rfl⟩, rfl, rfl⟩

theorem readNetwork_eq_ok {network : Network} :
    readNetwork bytes = .ok (network, rest) ↔
      bytes = LittleEndian.toBytes 4 network.id ++ rest := by
  rw [readNetwork]
  simp only [ControlReader.readU32, ByteReader.bind_eq_ok, littleEndian_eq_ok, lift_eq_ok, okOr_eq_ok,
    fromId_eq_some]
  constructor
  · rintro ⟨_, _, ⟨-, rfl⟩, rfl, rfl⟩
    rfl
  · rintro rfl
    exact ⟨_, _, ⟨network.id_lt, rfl⟩, rfl, rfl⟩

theorem readFingerprint_eq_ok {fingerprint : Bytes32} :
    readFingerprint bytes = .ok (fingerprint, rest) ↔
      bytes = LittleEndian.toBytes 2 contractVersion ++ (fingerprint.bytes ++ rest) := by
  rw [readFingerprint]
  simp only [ByteReader.bind_eq_ok, readVersion_eq_ok (show 0 < 2 by decide), readArray32_eq_ok]
  constructor
  · rintro ⟨_, _, rfl, rfl⟩
    rfl
  · rintro rfl
    exact ⟨(), _, rfl, rfl⟩

theorem readWorkload_eq_ok {workload : CanonicalStoreWorkload} :
    readWorkload bytes = .ok (workload, rest) ↔ bytes = [workloadCode workload] ++ rest := by
  rw [readWorkload]
  simp only [ControlReader.readU8, ByteReader.bind_eq_ok, byte_eq_ok, lift_eq_ok, okOr_eq_ok,
    workloadOf_eq_some]
  constructor
  · rintro ⟨_, _, rfl, rfl, rfl⟩
    rfl
  · rintro rfl
    exact ⟨_, _, rfl, rfl, rfl⟩

theorem readRawBlobRetention_eq_ok {retention : RawBlobRetention} :
    readRawBlobRetention bytes = .ok (retention, rest) ↔
      bytes = [retentionCode retention] ++ rest := by
  rw [readRawBlobRetention]
  simp only [ControlReader.readU8, ByteReader.bind_eq_ok, byte_eq_ok, lift_eq_ok, okOr_eq_ok,
    retentionOf_eq_some]
  constructor
  · rintro ⟨_, _, rfl, rfl, rfl⟩
    rfl
  · rintro rfl
    exact ⟨_, _, rfl, rfl, rfl⟩

theorem readReorgWindowBlocks_eq_ok {window : Nat} :
    readReorgWindowBlocks bytes = .ok (window, rest) ↔
      (window ≠ 0 ∧ window < u32Bound) ∧ bytes = LittleEndian.toBytes 4 window ++ rest := by
  rw [readReorgWindowBlocks]
  simp only [ControlReader.readU32, ByteReader.bind_eq_ok, littleEndian_eq_ok, check_eq_ok,
    ByteReader.pure_eq_ok]
  constructor
  · rintro ⟨_, _, ⟨hlt, rfl⟩, _, _, ⟨hne, rfl⟩, rfl, rfl⟩
    exact ⟨⟨hne, hlt⟩, rfl⟩
  · rintro ⟨⟨hne, hlt⟩, rfl⟩
    exact ⟨_, _, ⟨hlt, rfl⟩, (), _, ⟨hne, rfl⟩, rfl, rfl⟩

theorem readControlHeader_eq_ok {header : ControlHeader} :
    readControlHeader bytes = .ok (header, rest) ↔
      (header.reorgWindowBlocks ≠ 0 ∧ header.reorgWindowBlocks < u32Bound) ∧
        bytes = encodeControlHeader header ++ rest := by
  rw [readControlHeader]
  simp only [ByteReader.bind_eq_ok, readStoreIdentity_eq_ok, readNetwork_eq_ok, readFingerprint_eq_ok,
    readWorkload_eq_ok, readRawBlobRetention_eq_ok, readReorgWindowBlocks_eq_ok, ByteReader.pure_eq_ok,
    encodeControlHeader]
  constructor
  · rintro ⟨_, _, rfl, network, _, rfl, fingerprint, _, rfl, workload, _, rfl, retention, _, rfl, window,
      _, ⟨hwindow, rfl⟩, rfl, rfl⟩
    exact ⟨hwindow, by simp only [append_assoc]⟩
  · rintro ⟨hwindow, rfl⟩
    refine ⟨(), _, ?_, header.network, _, rfl, header.fingerprint, _, rfl, header.workload, _, rfl,
      header.rawBlobRetention, _, rfl, header.reorgWindowBlocks, _, ⟨hwindow, rfl⟩, rfl, rfl⟩
    simp only [append_assoc]

/-- A plan that can be written: its numbers fit, its frontiers are the library's, and it passes its own
validation. -/
structure PlanValid (T : TreeLibrary) (plan : ControlBuildPlan) : Prop where
  window_ne : plan.reorgWindowBlocks ≠ 0
  window_lt : plan.reorgWindowBlocks < u32Bound
  history : HistoryValid T plan.historyBounds plan.historyPredecessor
  buildTip : plan.buildTip.height < u32Bound
  validated : plan.validate = .ok plan

structure ControlValid (T : TreeLibrary) (control : DecodedStoreControl) : Prop where
  network : control.network = control.buildPlan.network
  plan : PlanValid T control.buildPlan
  state : StateValid control.buildPlan.historyBounds.firstAvailableHeight control.buildPlan.buildTip
    control.buildState

theorem encodeStoreControl_eq (control : DecodedStoreControl) :
    encodeStoreControl control = (encodeStoreControlPrefix control.workload control.buildPlan
      control.cursorAuthKey >>= fun encoded =>
        .ok (encoded ++ encodeBuildState control.buildState)) := by
  obtain ⟨network, workload, plan, key, state⟩ := control
  cases state <;> rfl

def DecodedStoreControl.header (control : DecodedStoreControl) : ControlHeader :=
  ⟨control.buildPlan.network, control.buildPlan.networkUpgradeActivationsFingerprint, control.workload,
    control.buildPlan.rawBlobRetention, control.buildPlan.reorgWindowBlocks⟩

variable {control : DecodedStoreControl}

theorem encodeStoreControl_eq_ok {w : Bytes} :
    encodeStoreControl control = .ok w ↔
      ∃ f, encodePredecessorFrontiers control.buildPlan.historyPredecessor.frontiers = .ok f ∧
        w = encodeControlHeader control.header ++
          (encodeHistoryKind control.buildPlan.historyBounds
            control.buildPlan.historyPredecessor.blockId ++
          (LittleEndian.toBytes 4 control.buildPlan.historyPredecessor.blockTimeSeconds ++ (f ++
            (encodeBlockId control.buildPlan.buildTip ++ (control.cursorAuthKey.bytes ++
              encodeBuildState control.buildState))))) := by
  rw [encodeStoreControl_eq]
  simp only [encodeStoreControlPrefix, bind_eq_ok, Except.ok.injEq, encodeControlHeader,
    DecodedStoreControl.header]
  constructor
  · rintro ⟨_, ⟨f, hf, rfl⟩, rfl⟩
    exact ⟨f, hf, by simp only [append_assoc]⟩
  · rintro ⟨f, hf, rfl⟩
    exact ⟨_, ⟨f, hf, rfl⟩, by simp only [append_assoc]⟩

theorem validate_eq_ok {plan plan' : ControlBuildPlan} (h : plan.validate = .ok plan') :
    plan' = plan := by
  simp only [ControlBuildPlan.validate, bind_eq_ok, Except.ok.injEq, Unique.exists_iff] at h
  obtain ⟨_, _, _, _, _, _, rfl⟩ := h
  rfl

theorem readStoreControl_eq_ok :
    readStoreControl T bytes = .ok (control, rest) ↔
      ControlValid T control ∧ ∃ w, encodeStoreControl control = .ok w ∧ bytes = w ++ rest := by
  simp only [encodeStoreControl_eq_ok]
  rw [readStoreControl]
  simp only [ByteReader.bind_eq_ok, readControlHeader_eq_ok, readBlockId_eq_ok, readArray32_eq_ok,
    lift_eq_ok, mapError_ok_iff, readBuildState_eq_ok, ByteReader.pure_eq_ok]
  constructor
  · rintro ⟨header, _, ⟨⟨hne, hlt⟩, rfl⟩, ⟨bounds, predecessor⟩, _,
      hhistory, buildTip, _, ⟨htip, rfl⟩, plan, _,
      ⟨hvalidate, rfl⟩, key, _, rfl, state, _, ⟨hstate, rfl⟩, rfl, rfl⟩
    obtain ⟨hvalid, f, hf, rfl⟩ := readHistoryBounds_eq_ok.mp hhistory
    obtain rfl := validate_eq_ok hvalidate
    refine ⟨⟨rfl, ⟨hne, hlt, hvalid, htip, hvalidate⟩, hstate⟩, _, ⟨f, hf, rfl⟩, ?_⟩
    simp only [DecodedStoreControl.header, append_assoc]
  · rintro ⟨hvalid, _, ⟨f, hf, rfl⟩, rfl⟩
    obtain ⟨network, workload, plan, key, state⟩ := control
    obtain rfl : network = plan.network := hvalid.network
    refine ⟨DecodedStoreControl.header ⟨plan.network, workload, plan, key, state⟩, _,
      ⟨⟨hvalid.plan.window_ne, hvalid.plan.window_lt⟩, ?_⟩,
      (plan.historyBounds, plan.historyPredecessor), _,
      readHistoryBounds_eq_ok.mpr ⟨hvalid.plan.history, f, hf, rfl⟩, plan.buildTip, _,
      ⟨hvalid.plan.buildTip, rfl⟩, plan, _, ⟨hvalid.plan.validated, rfl⟩, key, _, rfl, state, _,
      ⟨hvalid.state, rfl⟩, rfl, rfl⟩
    simp only [DecodedStoreControl.header, append_assoc]

/-- The decoder accepts exactly the records of the control states that can be written. -/
theorem decodeStoreControl_eq_ok {encoded : Bytes} :
    decodeStoreControl T encoded = .ok control ↔
      ControlValid T control ∧ encodeStoreControl control = .ok encoded := by
  simp only [decodeStoreControl, bind_eq_ok, rejectIf_eq_ok, not_not, Except.ok.injEq]
  constructor
  · rintro ⟨⟨control', rest⟩, hread, _, hrest, rfl⟩
    obtain rfl : rest = [] := hrest
    obtain ⟨hvalid, w, hw, rfl⟩ := readStoreControl_eq_ok.mp hread
    exact ⟨hvalid, by rwa [append_nil]⟩
  · rintro ⟨hvalid, hencoded⟩
    have hread : readStoreControl T encoded = .ok (control, []) :=
      readStoreControl_eq_ok.mpr ⟨hvalid, encoded, hencoded, (append_nil _).symm⟩
    exact ⟨(control, []), hread, (), rfl, rfl⟩

end Record

end Zinder.Canonical
