import Zinder.Lib.Requests
import Zinder.Canonical.LiveReplacement
import Zinder.Ingest.BlockConstruction

/-!
# Zinder.Ingest.Follow

One iteration of the canonical follower (`follow.rs`): observe the source tip, then propose an
append, a replacement, or nothing.

The upstream node is a `NodeSource`: a reply for every kind of request that may depend on the
number of requests made before it. Nothing ties one reply to another, so the node may move between
branches, go backwards, fail or time out at any request.
-/

namespace Zinder.Ingest

open Canonical

/-! ## The source -/

/-- Source errors; of the adapter's own failures, the description. -/
inductive SourceError where
  | nodeUnavailable (reason : String)
  | blockReorgDuringFetch (height : Nat) (reason : String)
  | adapter (description : String)
deriving DecidableEq

/-- How one request ends. -/
inductive Reply (α : Type) where
  | answer (a : α)
  | failed (e : SourceError)
  | timedOut
  | cancelled

structure SourceSubtreeRoot where
  subtreeIndex : Nat
  rootHash : Bytes32
  completingBlockHeight : Nat

structure SourceSubtreeRoots where
  protocol : ShieldedProtocol
  subtreeRoots : List SourceSubtreeRoot

/-- The upstream node: its reply to each request, by request number. -/
structure NodeSource where
  tipId : Nat → Reply BlockId
  fetchBlockAt : (height : Nat) → Nat → Reply SourceBlock
  fetchChainCheckpoint : (height : Nat) → Nat → Reply CommitmentTreeCheckpoint
  fetchSubtreeRootRange : SubtreeRootRange → Nat → Reply SourceSubtreeRoots

structure CanonicalReorgWindowExceeded where
  localTip : BlockId
  sourceTip : BlockId
  settledTip : BlockId
  requiredDepth : Nat
  configuredWindowBlocks : Nat
deriving DecidableEq

inductive CanonicalFollowError where
  | source (e : SourceError)
  | blockConstruction (e : CanonicalBlockConstructionError)
  | canonicalPreparation (e : CompactCommitmentWidth)
  | commitmentTreeState (height : Nat) (source : CommitmentTreeAccumulatorError)
  | sourceCheckpointMismatch (height : Nat)
  | commitmentTreePositionMismatch (height : Nat) (positioned accumulated : ChainTipMetadata)
  | subtreePositionRegression (protocol : ShieldedProtocol) (previousCount nextCount : Nat)
  | reorgRequired (localTip sourceTip : BlockId)
  | reorgWindowExceeded (evidence : CanonicalReorgWindowExceeded)
  | settlementHeaderAbsent (height : Nat)
  | cancelled
  | store (e : CanonicalStoreError)
deriving DecidableEq

/-- What the follower is configured with: the request timeout as it is shown, and the optional
height to stop at. -/
structure CanonicalFollowConfig where
  requestTimeout : String
  targetHeight : Option Nat

abbrev Follow (α : Type) := Requests CanonicalFollowError α

def sourceRequest {α : Type} (config : CanonicalFollowConfig) (reply : Nat → Reply α) : Follow α :=
  let timeout := config.requestTimeout
  Requests.request fun n =>
    match reply n with
    | .answer a => .ok a
    | .failed e => .error (.source e)
    | .timedOut =>
      .error (.source (.nodeUnavailable s!"canonical follow source request exceeded {timeout}"))
    | .cancelled => .error .cancelled

theorem sourceRequest_eq_ok {α : Type} {config : CanonicalFollowConfig} {reply : Nat → Reply α}
    {n m : Nat} {a : α} :
    sourceRequest config reply n = .ok (a, m) ↔ reply n = .answer a ∧ m = n + 1 := by
  simp only [sourceRequest, Requests.request_eq_ok]
  cases reply n <;> simp

/-! ## Preparing one block -/

section Prepare

variable {D : Type} {E : Env D}

/-- `prepare_live_block`: the block, with the checkpoint derived from its predecessor's. -/
def prepareLiveBlock (L : BlockLibrary) (sourceBlock : SourceBlock)
    (predecessorCheckpoint sourceCheckpoint : CommitmentTreeCheckpoint)
    (activations : NetworkUpgradeActivations) (retention : RawBlobRetention) :
    Except CanonicalFollowError (CanonicalBuildBlock E × ChainTipMetadata) := do
  let height := sourceBlock.height.val
  let prepared : PreparedCanonicalBlock E ←
    (prepareCanonicalBlock L sourceBlock activations retention).mapError .blockConstruction
  let commitments ← (compactBlockCommitments prepared).mapError .canonicalPreparation
  let seeded ← (CommitmentTreeAccumulator.fromValidatedFrontiers E.trees
      predecessorCheckpoint.blockId.height predecessorCheckpoint.frontiers activations).mapError
    (.commitmentTreeState height)
  let accumulator ← (seeded.appendBlockCommitments height commitments.sapling
      commitments.orchard commitments.ironwood).mapError (.commitmentTreeState height)
  let positioned ← (positionCanonicalBlock prepared predecessorCheckpoint.tipMetadata).mapError
    .blockConstruction
  rejectIf (positioned.tipMetadata ≠ accumulator.tipMetadata)
    (.commitmentTreePositionMismatch height positioned.tipMetadata accumulator.tipMetadata)
  let (frontiers, _) ← accumulator.validatedFrontiers.mapError (.commitmentTreeState height)
  let derived : CommitmentTreeCheckpoint :=
    ⟨⟨height, sourceBlock.hash⟩, sourceBlock.blockTimeSeconds, frontiers⟩
  rejectIf (derived ≠ sourceCheckpoint) (.sourceCheckpointMismatch height)
  .ok (canonicalBuildBlock positioned (some derived) none, positioned.tipMetadata)

/-- One protocol of `live_subtree_root_ranges`. -/
def liveSubtreeRootRange (previous next : ChainTipMetadata) (protocol : ShieldedProtocol) :
    Except CanonicalFollowError (Option SubtreeRootRange) := do
  let startIndex := previous.completedSubtreeCount protocol
  let completedAtNext := next.completedSubtreeCount protocol
  let rootCount ← okOr (checkedSub completedAtNext startIndex)
    (.subtreePositionRegression protocol startIndex completedAtNext)
  .ok (if rootCount = 0 then none else some ⟨protocol, startIndex, rootCount⟩)

def liveSubtreeRootRanges (previous next : ChainTipMetadata) :
    Except CanonicalFollowError (List SubtreeRootRange) := do
  let ranges ← collect (liveSubtreeRootRange previous next) shieldedProtocols
  .ok ranges.reduceOption

def SourceSubtreeRoots.buildRoots (response : SourceSubtreeRoots) :
    List CanonicalBuildSubtreeRoot :=
  response.subtreeRoots.map fun root =>
    ⟨response.protocol, root.subtreeIndex, root.rootHash, root.completingBlockHeight⟩

def fetchLiveSubtreeRoots (source : NodeSource) (config : CanonicalFollowConfig)
    (previous next : ChainTipMetadata) : Follow (List CanonicalBuildSubtreeRoot) := do
  let ranges ← Requests.of (liveSubtreeRootRanges previous next)
  Requests.loop
    (fun roots range => do
      let response ← sourceRequest config (source.fetchSubtreeRootRange range)
      pure (roots ++ response.buildRoots))
    [] ranges

end Prepare

/-! ## Iterations -/

/-- What one iteration found to do. -/
inductive FollowIteration {D : Type} (E : Env D) where
  | atTip (observedTip : BlockId)
  | append (append : CanonicalLiveAppend E) (observedTip : BlockId)
  | replacement (replacement : CanonicalLiveReplacement E) (observedTip : BlockId)

/-- Saturating `u32` addition. -/
def saturatingAddU32 (a b : Nat) : Nat := min (a + b) (u32Bound - 1)

def nextSettledHeight (firstRetainedHeight currentSettledHeight nextVisibleHeight
    reorgWindowBlocks : Nat) : Nat :=
  max (max (nextVisibleHeight - reorgWindowBlocks) firstRetainedHeight) currentSettledHeight

/-- The height to follow to: the observed one, or the configured one if it is lower. -/
def requestedTarget (config : CanonicalFollowConfig) (observedTip : BlockId) : Nat :=
  match config.targetHeight with
  | some target => min target observedTip.height
  | none => observedTip.height

section Iterate

variable {D : Type} [DecidableEq D] {E : Env D}

variable (L : BlockLibrary) (s : RocksDbCanonicalStore D) (source : NodeSource)

def blockHeaderAt (height : Nat) : Option BlockHeaderArtifact :=
  s.db.lookup (Key.blockHeader height)

def nextAppendSettledTip (anchor : CanonicalAppendAnchor D) (nextVisibleHeight : Nat) :
    Except CanonicalFollowError BlockId :=
  let selectedHeight := nextSettledHeight s.readyEvidence.firstRetainedBlock.height
    anchor.settledTip.height nextVisibleHeight s.window
  if selectedHeight = anchor.settledTip.height then
    .ok anchor.settledTip
  else do
    let header ← okOr (blockHeaderAt s selectedHeight) (.settlementHeaderAbsent selectedHeight)
    .ok ⟨selectedHeight, header.blockHash⟩

/-- Source blocks by height. -/
abbrev SourceBlocks := Nat → Option SourceBlock

/-- The fork discovery loop, from `height` down to the settled tip: the common parent if one is
found, and every block read on the way. -/
def discoverFork (s : RocksDbCanonicalStore D) (source : NodeSource)
    (config : CanonicalFollowConfig) (localTip settledTip observedTip : BlockId) :
    Nat → SourceBlocks → Follow (Option BlockId × SourceBlocks)
  | 0, blocks => pure (none, blocks)
  | height + 1, blocks =>
    if settledTip.height < height + 1 then do
      let sourceBlock ← sourceRequest config (source.fetchBlockAt (height + 1))
      let header ← Requests.of
        (okOr (blockHeaderAt s (height + 1)) (.reorgRequired localTip observedTip))
      let blocks := Function.update blocks (height + 1) (some sourceBlock)
      if sourceBlock.hash = header.blockHash then
        pure (some ⟨height + 1, sourceBlock.hash⟩, blocks)
      else if height + 1 = saturatingAddU32 settledTip.height 1 ∧
          sourceBlock.parentHash = settledTip.hash then
        pure (some settledTip, blocks)
      else
        discoverFork s source config localTip settledTip observedTip height blocks
    else pure (none, blocks)

/-- Where the suffix loop stands: the blocks read but not used, the checkpoint and the tree sizes
before the next block, and the replacement so far. -/
structure SuffixState (E : Env D) where
  sourceBlocks : SourceBlocks
  predecessorCheckpoint : CommitmentTreeCheckpoint
  previousTipMetadata : ChainTipMetadata
  blocks : List (CanonicalReplacementBlock E)

def takeSourceBlock (config : CanonicalFollowConfig) (blocks : SourceBlocks) (height : Nat) :
    Follow SourceBlock :=
  match blocks height with
  | some sourceBlock => pure sourceBlock
  | none => sourceRequest config (source.fetchBlockAt height)

def prepareSuffixBlock (config : CanonicalFollowConfig) (activations : NetworkUpgradeActivations)
    (retention : RawBlobRetention) (state : SuffixState E) (height : Nat) :
    Follow (SuffixState E) := do
  let sourceBlock ← takeSourceBlock source config state.sourceBlocks height
  Requests.of (rejectIf (sourceBlock.parentHash ≠ state.predecessorCheckpoint.blockId.hash)
    (.source (.blockReorgDuringFetch height
      "replacement suffix changed during bounded fork discovery")))
  let sourceCheckpoint ← sourceRequest config (source.fetchChainCheckpoint height)
  let (block, nextTipMetadata) ← Requests.of
    (prepareLiveBlock L sourceBlock state.predecessorCheckpoint sourceCheckpoint activations
      retention)
  let subtreeRoots ← fetchLiveSubtreeRoots source config state.previousTipMetadata nextTipMetadata
  pure
    { sourceBlocks := Function.update state.sourceBlocks height none
      predecessorCheckpoint := sourceCheckpoint
      previousTipMetadata := nextTipMetadata
      blocks := state.blocks ++ [⟨block, subtreeRoots⟩] }

variable (activations : NetworkUpgradeActivations) (config : CanonicalFollowConfig) (now : Nat)

def prepareReplacementIteration (anchor : CanonicalAppendAnchor D)
    (observedTip : BlockId) (prefetched : Option SourceBlock) : Follow (FollowIteration E) := do
  let localTip := anchor.eventFence.visibleTip
  let settledTip := anchor.settledTip
  let initial : SourceBlocks := fun height => prefetched.filter fun b => b.height.val = height
  let (found, sourceBlocks) ← discoverFork s source config localTip settledTip observedTip
    (min localTip.height observedTip.height) initial
  let commonParent ← Requests.of (okOr found (.reorgWindowExceeded
    { localTip
      sourceTip := observedTip
      settledTip
      requiredDepth := saturatingAddU32 (localTip.height - settledTip.height) 1
      configuredWindowBlocks := s.window }))
  let first ← Requests.of
    (okOr (nextHeight commonParent.height) (.reorgRequired localTip observedTip))
  let replacementTip := min (requestedTarget config observedTip)
    (saturatingAddU32 settledTip.height s.window)
  Requests.of (rejectIf (replacementTip < first ∨ localTip.height < first)
    (.source (.blockReorgDuringFetch observedTip.height
      "source rewind did not yet expose a nonempty replacement suffix")))
  let predecessor ← Requests.of
    ((replacementParentCheckpoint E s commonParent activations).mapError .store)
  let suffix ← Requests.loop
    (prepareSuffixBlock L source config activations s.buildPlan.rawBlobRetention)
    ({ sourceBlocks
       predecessorCheckpoint := predecessor
       previousTipMetadata := predecessor.tipMetadata
       blocks := [] } : SuffixState E)
    (⟨first, replacementTip⟩ : BlockHeightRange).heights
  pure (.replacement ⟨anchor.eventFence, suffix.blocks, now⟩ observedTip)

/-- The rest of an iteration that appends `sourceBlock`. -/
def prepareAppendIteration (anchor : CanonicalAppendAnchor D)
    (observedTip settledTip : BlockId) (height : Nat) (sourceBlock : SourceBlock) :
    Follow (FollowIteration E) := do
  let sourceCheckpoint ← sourceRequest config (source.fetchChainCheckpoint height)
  let (block, nextTipMetadata) ← Requests.of
    (prepareLiveBlock L sourceBlock anchor.tipCheckpoint sourceCheckpoint activations
      s.buildPlan.rawBlobRetention)
  let subtreeRoots ← fetchLiveSubtreeRoots source config anchor.tipCheckpoint.tipMetadata
    nextTipMetadata
  pure (.append ⟨anchor.eventFence, block, subtreeRoots, settledTip, now⟩ observedTip)

def prepareFollowIteration : Follow (FollowIteration E) := do
  let anchor ← Requests.of (s.appendAnchor.mapError .store)
  let observedTip ← sourceRequest config source.tipId
  let localTip := anchor.eventFence.visibleTip
  if observedTip.height < localTip.height ∨
      (observedTip.height = localTip.height ∧ observedTip.hash ≠ localTip.hash) then
    prepareReplacementIteration L s source activations config now anchor observedTip none
  else if requestedTarget config observedTip ≤ localTip.height then
    pure (.atTip observedTip)
  else do
    let height ← Requests.of
      (okOr (nextHeight localTip.height) (.reorgRequired localTip observedTip))
    let settledTip ← Requests.of (nextAppendSettledTip s anchor height)
    let sourceBlock ← sourceRequest config (source.fetchBlockAt height)
    if sourceBlock.parentHash ≠ localTip.hash then
      prepareReplacementIteration L s source activations config now anchor observedTip
        (some sourceBlock)
    else
      prepareAppendIteration L s source activations config now anchor observedTip settledTip
        height sourceBlock

end Iterate

end Zinder.Ingest
