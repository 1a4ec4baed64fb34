import Zinder.Canonical.Block

/-!
# Zinder.Canonical.Reads

What the live paths read back from the store.

* `readPersistedReplay`, `resumePersistedSequenceCheckpoint` — the replay rows and the sequence
  checkpoint resumed over them (`block_replay.rs`).
* `appendAnchor` — the authenticated fence, settled tip and tip checkpoint (`live_commit.rs`).
* `validateEpochRecord`, `validateReadySequenceCheckpoint` — the publication checks every live
  batch must pass after it is written (`publication.rs`).
-/

namespace Zinder.Canonical

variable {D : Type} [DecidableEq D] {E : Env D}

/-! ## Replay rows -/

structure PersistedReplayStep (D : Type) where
  replay : ValidatedCanonicalBlockReplay D
  logicalReplayBytes : Nat

def decodePersistedReplay (E : Env D) (height : Nat) (encoded : Bytes) :
    Except CanonicalStoreError (ValidatedCanonicalBlockReplay D) := do
  let replay ← (decodeCanonicalBlockReplay E.hash E.replay encoded).mapError
    (.blockReplayUndecodable height)
  let found := replay.facts.height
  rejectIf (replay.facts.height ≠ height)
    (.blockReplayInvalid height s!"row contains height {found}")
  .ok replay

variable (E : Env D) (db : Db D)

def readPersistedReplay (height : Nat) : Except CanonicalStoreError (PersistedReplayStep D) := do
  let encoded ← okOr (db.lookup (Key.blockReplay height))
    (.blockReplaySequence s!"canonical replay at height {height} is absent")
  let replay ← decodePersistedReplay E height encoded
  rejectIf (u64Bound ≤ List.length (α := UInt8) encoded)
    (.blockReplaySequence "replay byte length exceeds u64::MAX")
  .ok ⟨replay, List.length (α := UInt8) encoded⟩

def resumeStep (checkpoint : CanonicalSequenceCheckpoint D)
    (height : Nat) : Except CanonicalStoreError (CanonicalSequenceCheckpoint D) := do
  let persisted ← readPersistedReplay E db height
  rejectIf (persisted.replay.facts.parentHash ≠ checkpoint.through.hash)
    (.blockReplaySequence s!"block {height} does not extend the sequence checkpoint")
  let sequenceDigest ← okOr
    (checkpoint.sequenceDigest.tryAppend E.hash persisted.replay.referenceDigest)
    (.blockReplaySequence "canonical block facts sequence digest cannot exceed u64::MAX blocks")
  let retainedBlockCount ← okOr (checkedAdd u64Bound checkpoint.retainedBlockCount 1)
    (.blockReplaySequence "checkpoint block count exceeds u64::MAX")
  let logicalReplayBytes ← okOr
    (checkedAdd u64Bound checkpoint.logicalReplayBytes persisted.logicalReplayBytes)
    (.blockReplaySequence "checkpoint replay bytes exceed u64::MAX")
  .ok
    { through := ⟨height, persisted.replay.facts.blockHash⟩
      retainedBlockCount, sequenceDigest, logicalReplayBytes }

def resumePersistedSequenceCheckpoint
    (checkpoint : CanonicalSequenceCheckpoint D) (through maximumReplayBlocks : Nat) :
    Except CanonicalStoreError (CanonicalSequenceCheckpoint D) := do
  let replayBlockCount ← okOr (checkedSub through checkpoint.through.height)
    (.blockReplaySequence "sequence checkpoint cannot resume backwards")
  rejectIf (maximumReplayBlocks < replayBlockCount)
    (.blockReplaySequence
      s!"sequence checkpoint tail has {replayBlockCount} blocks; maximum is {maximumReplayBlocks}")
  loop (resumeStep E db) checkpoint
    (List.range' (checkpoint.through.height + 1) replayBlockCount)

/-! ## Headers, compact blocks and checkpoints -/

variable (db : Db D)

def retainedBlockHash (height : Nat) : Except CanonicalStoreError BlockHash := do
  let header ← okOr (db.lookup (Key.blockHeader height))
    (.subtreeRootSequence s!"subtree completion header at height {height} is absent")
  .ok (BlockHeaderArtifact.blockHash header)

def readPersistedTipMetadata (tip : BlockId) : Except CanonicalStoreError ChainTipMetadata := do
  let compact ← okOr (db.lookup (Key.compactBlock tip.height))
    (.blockLoadSequence "published tip compact block is absent")
  rejectIf
    (CompactBlockArtifact.height compact ≠ tip.height ∨
      CompactBlockArtifact.blockHash compact ≠ tip.hash)
    (.blockLoadSequence "published tip compact block has the wrong canonical identity")
  .ok (CompactBlockArtifact.chainMetadata compact)

def readPersistedTipCheckpoint (tip : BlockId) :
    Except CanonicalStoreError CommitmentTreeCheckpoint := do
  let row : Nat × CommitmentTreeFrontiers ← okOr (db.lookup (Key.treeStateCheckpoint tip.height))
    (.liveCommit "authenticated visible tip has no persisted tree-state checkpoint")
  .ok ⟨tip, row.1, row.2⟩

/-- The epoch row, through `read_family_row`. -/
def readChainEpoch (id : Nat) : Except CanonicalStoreError ChainEpochRecord :=
  okOr (db.lookup (Key.chainEpoch id)) (.publication "chain_epoch row is absent")

def readChainEvent (sequence : Nat) : Except CanonicalStoreError (ChainEventRecord D) :=
  okOr (db.lookup (Key.chainEvent sequence)) (.publication "chain_event row is absent")

/-! ## Append anchor -/

structure CanonicalAppendAnchor (D : Type) where
  eventFence : CanonicalEventFence D
  settledTip : BlockId
  tipCheckpoint : CommitmentTreeCheckpoint

def RocksDbCanonicalStore.appendAnchor (s : RocksDbCanonicalStore D) :
    Except CanonicalStoreError (CanonicalAppendAnchor D) := do
  let fence := s.eventFence
  let epoch ← readChainEpoch s.db fence.chainEpochId
  rejectIf (epoch.visibleTip ≠ fence.visibleTip)
    (.liveCommit "persisted epoch no longer matches the admitted READY fence")
  let tipCheckpoint ← readPersistedTipCheckpoint s.db epoch.visibleTip
  let metadata ← readPersistedTipMetadata s.db epoch.visibleTip
  rejectIf (tipCheckpoint.tipMetadata ≠ metadata)
    (.liveCommit "visible-tip checkpoint differs from persisted compact-block tree positions")
  .ok ⟨fence, epoch.settledTip, tipCheckpoint⟩

/-! ## Publication checks -/

def validateSettledTip (first visibleTip settledTip : BlockId) :
    Except CanonicalStoreError Unit := do
  let failure := CanonicalStoreError.publication
    "settled tip is outside retained history or has the wrong canonical hash"
  rejectIf (settledTip.height < first.height ∨ visibleTip.height < settledTip.height) failure
  let hash ← retainedBlockHash db settledTip.height
  rejectIf (hash ≠ settledTip.hash) failure

def validateEpochRecord (firstHeight : Nat) (expectedVisibleTip : BlockId)
    (epoch : ChainEpochRecord) : Except CanonicalStoreError Unit := do
  let failure := CanonicalStoreError.publication
    "chain epoch does not match its retained canonical rows"
  rejectIf
    (epoch.visibleTip ≠ expectedVisibleTip ∨
      ¬ (firstHeight ≤ epoch.settledTip.height ∧
        epoch.settledTip.height ≤ epoch.visibleTip.height))
    failure
  let visibleHash ← retainedBlockHash db expectedVisibleTip.height
  rejectIf (visibleHash ≠ expectedVisibleTip.hash) failure
  let settledHash ← retainedBlockHash db epoch.settledTip.height
  rejectIf (settledHash ≠ epoch.settledTip.hash) failure
  let metadata ← readPersistedTipMetadata db expectedVisibleTip
  rejectIf (epoch.tipMetadata ≠ metadata) failure

def validateReadySequenceCheckpoint (plan : CanonicalStoreBuildPlan)
    (ready : CanonicalStoreReadyEvidence D) : Except CanonicalStoreError Unit := do
  let epoch ← readChainEpoch db ready.visibleEpoch
  let checkpoint := ready.sequenceCheckpoint
  rejectIf (epoch.visibleTip ≠ ready.visibleTip ∨ epoch.settledTip ≠ checkpoint.through)
    (.publication "READY sequence checkpoint does not match the visible epoch settled tip")
  let settledLag ← okOr (checkedSub ready.visibleTip.height checkpoint.through.height)
    (.publication "settled tip exceeds visible tip")
  let window := plan.reorgWindowBlocks
  rejectIf (plan.reorgWindowBlocks < settledLag)
    (.publication s!"visible epoch exceeds its {window}-block settlement window")
  let resumed ← resumePersistedSequenceCheckpoint E db checkpoint ready.visibleTip.height
    plan.reorgWindowBlocks
  rejectIf
    (resumed ≠
      { through := ready.visibleTip
        retainedBlockCount := ready.visibleBlockCount
        sequenceDigest := ready.visibleDigest
        logicalReplayBytes := ready.visibleLogicalReplayBytes })
    (.publication "READY sequence checkpoint does not authenticate the visible replay tail")

end Zinder.Canonical
