import Zinder.Canonical.Lifecycle
import Zinder.Lib.Stateful
import Zinder.Views.Budget

/-!
# Zinder.Views.Replay

One catch-up pass of the materialized-view tailer (`MaterializedViewTailer::catch_up_with_pass`) over
the block-keyed consumers: it replays the retained canonical events after the consumers' cursor and
then rebuilds the heights above the last materialized one.

A page is one write batch: the reverts of its transition on the first page, the rows of its blocks,
and the cursor on the last page. Between pages the pass asks the budget, and a pause returns success
at every level. The consumers are written in lockstep, so one of them stands for the plane: its rows,
the height index by which it reverts, and its cursor. `written` records the pages in order.

A pass can also die: `crashAfter` is the number of pages after which the process does.
-/

namespace Zinder.Views

open Canonical

/-! ## The canonical secondary -/

inductive IngestError where
  | canonicalStore (e : CanonicalEventError)
  | materializedViewDispatch (reason : String)
  | materializedViewHistoryIncomplete (firstAvailableHeight : Nat)
  | crashed
deriving DecidableEq

/-- The reads of `RocksDbCanonicalSecondary` at one admitted fence. -/
structure CanonicalSecondary (D : Type) where
  firstAvailableHeight : Nat
  eventFenceSequence : Nat
  chainEpoch : Except CanonicalEventError ChainEpoch
  chainEpochAt : Nat → Except CanonicalEventError ChainEpoch
  retentionFloor : Except CanonicalEventError Nat
  retainedEvent : Nat → Except CanonicalEventError (CanonicalRetainedEvent D)
  blockFacts : BlockHeightRange → Except CanonicalEventError (List CanonicalBlockFacts)
  eventSequence_retainedEvent : ∀ sequence event, retainedEvent sequence = .ok event →
    event.eventSequence = sequence
  retainedEvent_ne_expired : ∀ sequence cursor oldest,
    retainedEvent sequence ≠ .error (.canonicalEventCursorExpired cursor oldest)

section Secondary

variable {D : Type} (canonical : CanonicalSecondary D)

def materializedViewReplayEventPage : Nat := 256

/-- The events from `sequence` on, at most `maxEvents`. -/
def CanonicalSecondary.eventsFrom : (maxEvents : Nat) → (sequence : Nat) →
    Except CanonicalEventError (List (CanonicalRetainedEvent D))
  | 0, _ => .ok []
  | maxEvents + 1, sequence =>
    if sequence ≤ canonical.eventFenceSequence then do
      let event ← canonical.retainedEvent sequence
      let rest ← eventsFrom maxEvents (sequence + 1)
      .ok (event :: rest)
    else .ok []

/-- `canonical_event_history_from_db`, after a cursor. -/
def CanonicalSecondary.canonicalEventHistory (eventSequence maxEvents : Nat) :
    Except CanonicalEventError (List (CanonicalRetainedEvent D)) := do
  let oldestRetainedSequence ← canonical.retentionFloor
  rejectIf (canonical.eventFenceSequence < eventSequence)
    (.canonicalEventCursorMalformed "cursor sequence is ahead of canonical history")
  let nextSequence ← okOr (checkedAdd u64Bound eventSequence 1)
    (.canonicalEventCursorMalformed "cursor sequence cannot advance")
  rejectIf (nextSequence < oldestRetainedSequence)
    (.canonicalEventCursorExpired eventSequence oldestRetainedSequence)
  canonical.eventsFrom maxEvents nextSequence

/-- `GENESIS_COMPLETE_FIRST_HEIGHT`. -/
def genesisCompleteFirstHeight : Nat := 1

def requireGenesisCompleteHistory : Except IngestError Unit :=
  rejectIf (canonical.firstAvailableHeight ≠ genesisCompleteFirstHeight)
    (.materializedViewHistoryIncomplete canonical.firstAvailableHeight)

/-- `reverted_range_of` the chain event of a retained one. -/
def revertedRangeOf (retained : CanonicalRetainedEvent D) (resultingEpoch : ChainEpoch)
    (revertedEpoch : Option ChainEpoch) : Except CanonicalEventError (Option BlockHeightRange) := do
  let mismatch := CanonicalEventError.canonicalEventRecordMalformed retained.eventSequence
  rejectIf (resultingEpoch.id ≠ retained.resultingEpochId)
    (mismatch "resulting epoch does not match the retained canonical event")
  match retained.kind with
  | .committed => .ok none
  | .reorg =>
    let range ← okOr retained.revertedRange
      (mismatch "reorged canonical event carries no reverted range")
    let epoch ← okOr revertedEpoch
      (mismatch "reorged canonical event requires its reverted epoch")
    rejectIf (some epoch.id ≠ retained.previousEpochId)
      (mismatch "reverted epoch does not match the retained canonical event")
    .ok (some range)

def revertedEpoch (retained : CanonicalRetainedEvent D) :
    Except CanonicalEventError (Option ChainEpoch) :=
  match retained.kind, retained.previousEpochId with
  | .reorg, some epochId => do
    let epoch ← canonical.chainEpochAt epochId
    .ok (some epoch)
  | _, _ => .ok none

end Secondary

/-! ## Consumers -/

/-- A block-keyed consumer whose rows for a block are a function of the block's facts. A consumer that
reads the store when it applies or reverts a block, as `ironwood_migration` and
`transparent_address_ranking` do for their totals, is not one. -/
structure BlockKeyedConsumer (K V : Type) where
  rows : CanonicalBlockFacts → List (K × V)

/-- `TransparentOutPoint::COINBASE_SENTINEL`. -/
def coinbaseSentinel : TransparentOutPoint :=
  ⟨repeatedByte 0, ⟨2 ^ 32 - 1, by decide⟩⟩

structure TransparentSpendEntry where
  spentOutpoint : TransparentOutPoint
  spendingTransactionId : TransactionId
  inputIndex : U32
  spendingBlockHeight : Nat
  spendingBlockHash : BlockHash
deriving DecidableEq

def collectSpendRows (block : CanonicalBlockFacts) : List TransparentSpendEntry :=
  block.transactions.flatMap fun transaction =>
    (transaction.transparentInputs.filter fun input => input.spentOutpoint ≠ coinbaseSentinel).map
      fun input =>
        { spentOutpoint := input.spentOutpoint
          spendingTransactionId := transaction.transactionId
          inputIndex := input.inputIndex
          spendingBlockHeight := block.height
          spendingBlockHash := block.blockHash }

/-- `TransparentOutpointSpendConsumer`: the spender of every outpoint. -/
def transparentOutpointSpendConsumer :
    BlockKeyedConsumer TransparentOutPoint TransparentSpendEntry :=
  ⟨fun block => (collectSpendRows block).map fun spend => (spend.spentOutpoint, spend)⟩

inductive RowOp (K V : Type) where
  | put (key : K) (value : V)
  | delete (key : K)
  | putIndex (height : Nat) (keys : List K)
  | deleteIndex (height : Nat)

/-- The rows of a consumer, the per-height index it reverts by, and its chain-event cursor. -/
structure MaterializedViewStore (K V : Type) where
  rows : K → Option V
  index : Std.ExtTreeMap Nat (List K)
  cursor : Option Nat

namespace MaterializedViewStore

variable {K V : Type} [DecidableEq K]

def empty : MaterializedViewStore K V := ⟨fun _ => none, ∅, none⟩

variable (store : MaterializedViewStore K V)

def write : RowOp K V → MaterializedViewStore K V
  | .put key value => { store with rows := fun k => if k = key then some value else store.rows k }
  | .delete key => { store with rows := fun k => if k = key then none else store.rows k }
  | .putIndex height keys => { store with index := store.index.insert height keys }
  | .deleteIndex height => { store with index := store.index.erase height }

def writeBatch (batch : List (RowOp K V)) : MaterializedViewStore K V :=
  batch.foldl write store

omit [DecidableEq K] in
def applyBlock (consumer : BlockKeyedConsumer K V) (block : CanonicalBlockFacts) :
    List (RowOp K V) :=
  (consumer.rows block).map (fun row => .put row.1 row.2) ++
    [.putIndex block.height ((consumer.rows block).map Prod.fst)]

/-- `BlockKeyedConsumer::revert_block`: it reads the store, not the batch. -/
def revertBlock (height : Nat) : List (RowOp K V) :=
  match store.index[height]? with
  | none => []
  | some keys => keys.map .delete ++ [.deleteIndex height]

def materializedHeight : Option Nat := store.index.keys.getLast?

end MaterializedViewStore

/-! ## Transitions and pages -/

structure DispatchedTransition where
  chainEpoch : ChainEpoch
  cursor : Nat
  committedRange : BlockHeightRange
  reverted : Option BlockHeightRange
deriving DecidableEq

/-- What a dispatched page belongs to. -/
inductive DispatchOrigin where
  | event (sequence : Nat)
  | rebuild
  | recovery
deriving DecidableEq

structure PageWrite where
  origin : DispatchOrigin
  page : BlockHeightRange
  cursor : Nat
  advanceCursor : Bool
deriving DecidableEq

def DispatchedTransition.forPage (t : DispatchedTransition) (firstPage : Bool) :
    DispatchedTransition :=
  { t with reverted := if firstPage then t.reverted else none }

/-- `MAX_CANONICAL_INCREMENTAL_REPLAY_BLOCKS`. -/
def maxCanonicalIncrementalReplayBlocks : Nat := 4096

def replayPage (start stop batchBlocks : Nat) : Except IngestError BlockHeightRange := do
  let span := max 1 (min batchBlocks maxCanonicalIncrementalReplayBlocks) - 1
  let pageEnd := min (min (start + span) (u32Bound - 1)) stop
  rejectIf (pageEnd < start)
    (.materializedViewDispatch "materialized-view replay page starts above its end")
  .ok ⟨start, pageEnd⟩

def contextsOf (blocks : List CanonicalBlockFacts) : Std.ExtTreeMap Nat CanonicalBlockFacts :=
  blocks.foldl (fun contexts block => contexts.insert block.height block) ∅

/-! ## The pass -/

/-- What a pass works with. -/
structure ReplayEnv (D K V : Type) where
  config : MaterializedViewReplayConfig
  reorgWindowBlocks : Nat
  canonical : CanonicalSecondary D
  consumer : BlockKeyedConsumer K V
  samples : BudgetSamples

structure ReplayState (K V : Type) where
  store : MaterializedViewStore K V
  memoryState : MaterializedViewReplayBudgetState
  checks : Nat
  crashAfter : Option Nat
  written : List PageWrite

abbrev ReplayM (K V α : Type) := Stateful (ReplayState K V) IngestError α

section Pass

variable {D K V : Type} [DecidableEq K] (env : ReplayEnv D K V)

def fromExcept {α : Type} : Except IngestError α → ReplayM K V α
  | .ok a => pure a
  | .error e => throw e

def readCanonical {α : Type} (r : Except CanonicalEventError α) : ReplayM K V α :=
  fromExcept (r.mapError .canonicalStore)

/-- One check of the budget: the limits, and whether the pass stops. -/
def evaluate : ReplayM K V (EffectiveMaterializedViewReplayLimits × Bool) :=
  Stateful.ofExec fun s =>
    let sample := env.samples.sample s.checks
    let memoryState := nextMemoryState env.config s.memoryState sample
    let limits := effectiveLimits env.config memoryState sample
    (.ok (limits, sample.cancelled || limits.state.isPaused),
      { s with memoryState, checks := s.checks + 1 })

/-- `ReplayPass::yields`. A cancelled process is not sampled. -/
def yields : ReplayM K V Bool :=
  Stateful.ofExec fun s =>
    let sample := env.samples.sample s.checks
    if sample.cancelled then (.ok true, { s with checks := s.checks + 1 })
    else
      let memoryState := nextMemoryState env.config s.memoryState sample
      (.ok (effectiveLimits env.config memoryState sample).state.isPaused,
        { s with memoryState, checks := s.checks + 1 })

variable (store : MaterializedViewStore K V)

def pageBatch (t : DispatchedTransition) (page : BlockHeightRange)
    (contexts : Std.ExtTreeMap Nat CanonicalBlockFacts) :
    List (RowOp K V) :=
  (match t.reverted with
    | none => []
    | some range => range.heights.flatMap store.revertBlock) ++
  page.heights.flatMap fun height => match contexts[height]? with
    | none => []
    | some block => MaterializedViewStore.applyBlock env.consumer block

/-- `dispatch_page`. The consumers' checkpoint needs every block of the page. -/
def dispatchPage (origin : DispatchOrigin) (t : DispatchedTransition) (page : BlockHeightRange)
    (contexts : Std.ExtTreeMap Nat CanonicalBlockFacts) (advanceCursor : Bool) :
    ReplayM K V Unit :=
  Stateful.ofExec fun s =>
    if s.crashAfter = some 0 then (.error .crashed, s)
    else if ∀ height ∈ page.heights, contexts.contains height then
      let store := s.store.writeBatch (pageBatch env s.store t page contexts)
      (.ok (), { s with
        store := { store with cursor := if advanceCursor then some t.cursor else store.cursor }
        crashAfter := s.crashAfter.map (· - 1)
        written := s.written ++ [(⟨origin, page, t.cursor, advanceCursor⟩ : PageWrite)] })
    else (.error (.materializedViewDispatch
      "transparent-outpoint-spend materialized-view checkpoint is missing its indexed tip"), s)

/-- The page loop of `dispatch_committed_range`. Every page has a height, so the heights left are
turns enough. -/
def dispatchPages (origin : DispatchOrigin) (t : DispatchedTransition) :
    (turns nextHeight : Nat) → (firstPage : Bool) → ReplayM K V Unit
  | 0, _, _ => pure ()
  | turns + 1, next, firstPage => do
    if t.committedRange.stop < next then
      return
    let (limits, stop) ← evaluate env
    if stop then
      return
    let page ← fromExcept (replayPage next t.committedRange.stop limits.batchBlocks)
    let blocks ← readCanonical (env.canonical.blockFacts page)
    dispatchPage env origin (t.forPage firstPage) page (contextsOf blocks)
      (t.committedRange.stop ≤ page.stop)
    let next ← fromExcept (okOr (nextHeight page.stop)
      (.materializedViewDispatch "materialized-view replay height overflow"))
    dispatchPages origin t turns next false

def dispatchCommittedRange (origin : DispatchOrigin) (t : DispatchedTransition) :
    ReplayM K V Unit :=
  if t.committedRange.stop < t.committedRange.start then
    dispatchPage env origin t t.committedRange ∅ true
  else
    dispatchPages env origin t (t.committedRange.stop + 1 - t.committedRange.start)
      t.committedRange.start true

def replayRetainedEvent (retained : CanonicalRetainedEvent D) : ReplayM K V Unit := do
  let resultingEpoch ← readCanonical (env.canonical.chainEpochAt retained.resultingEpochId)
  let epoch ← readCanonical (revertedEpoch env.canonical retained)
  let reverted ← readCanonical (revertedRangeOf retained resultingEpoch epoch)
  dispatchCommittedRange env (.event retained.eventSequence)
    ⟨resultingEpoch, retained.eventSequence, retained.committedRange, reverted⟩

/-- The first height `rebuild_unmaterialized_heights` has to dispatch. -/
def rebuildStart : Nat :=
  match store.materializedHeight with
  | none => env.canonical.firstAvailableHeight
  | some head => max ((nextHeight head).getD head) env.canonical.firstAvailableHeight

def rebuildUnmaterializedHeights : ReplayM K V Unit := do
  let chainEpoch ← readCanonical env.canonical.chainEpoch
  let s ← get
  if chainEpoch.visibleTip.height < rebuildStart env s.store then
    return
  dispatchCommittedRange env .rebuild
    ⟨chainEpoch, env.canonical.eventFenceSequence,
      ⟨rebuildStart env s.store, chainEpoch.visibleTip.height⟩, none⟩

def recoverExpiredCursor : ReplayM K V Unit := do
  fromExcept (requireGenesisCompleteHistory env.canonical)
  let s ← get
  match s.store.materializedHeight with
  | none => return
  | some durableHeight =>
    let chainEpoch ← readCanonical env.canonical.chainEpoch
    let revertFrom := max (min (durableHeight - env.reorgWindowBlocks + 1) (u32Bound - 1))
      env.canonical.firstAvailableHeight
    dispatchCommittedRange env .recovery
      ⟨chainEpoch, env.canonical.eventFenceSequence, ⟨revertFrom, chainEpoch.visibleTip.height⟩,
        some ⟨revertFrom, durableHeight⟩⟩

/-- The events of one page, up to a pause; the result is the cursor of the last one. -/
def replayEvents : List (CanonicalRetainedEvent D) → (cursor : Nat) →
    ReplayM K V (Turn Nat)
  | [], cursor => pure (.again cursor)
  | retained :: rest, cursor => do
    if ← yields env then
      return .leave cursor
    replayRetainedEvent env retained
    replayEvents rest retained.eventSequence

/-- One turn of the loop of `replay_retained_events`. -/
def replayTurn (cursor : Nat) : ReplayM K V (Turn Nat) := do
  if ← yields env then
    return .leave cursor
  match env.canonical.canonicalEventHistory cursor materializedViewReplayEventPage with
  | .error (.canonicalEventCursorExpired _ _) =>
    recoverExpiredCursor env
    return .leave cursor
  | .error e => throw (.canonicalStore e)
  | .ok [] => return .leave cursor
  | .ok page => replayEvents env page cursor

/-- `replay_retained_events`. A turn that goes on has moved the cursor closer to the fence, so the
events left are turns enough. -/
def replayRetainedEvents (fromCursor : Nat) : ReplayM K V Unit := do
  let _ ← Stateful.repeatTurns (replayTurn env)
    (env.canonical.eventFenceSequence - fromCursor + 1) fromCursor
  pure ()

def replayBlockConsumers : ReplayM K V Unit := do
  let s ← get
  match s.store.cursor with
  | some cursor => replayRetainedEvents env cursor
  | none => fromExcept (requireGenesisCompleteHistory env.canonical)
  rebuildUnmaterializedHeights env

/-- The state a pass over the views leaves, however it ends. -/
def passEnd (memoryState : MaterializedViewReplayBudgetState) (crashAfter : Option Nat) :
    ReplayState K V :=
  ((replayBlockConsumers env).exec ⟨store, memoryState, 0, crashAfter, []⟩).2

end Pass

end Zinder.Views
