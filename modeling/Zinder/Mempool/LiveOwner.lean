import Zinder.Mempool.Control

/-!
# Zinder.Mempool.LiveOwner

The owner of the live mempool (`mempool/live_owner.rs`): the process-local index, the staged source
generation and the transitions that go through the durable log before they reach the index.

Operations run under the owner's mutation gate, so they are programs over the owner and the writer.
Each request takes the next entry of the script, which says what becomes of it; requests behind the
end of the script are answered at once.
-/

namespace Zinder.Mempool

open Std (ExtTreeMap)

/-! ## State -/

/-- One source generation buffered until its snapshot-complete marker. -/
structure StagedMempoolGeneration where
  index : MempoolIndex
  terminalEvents : ExtTreeMap TransactionId ObservedEvent
  nextSyntheticSequence : Nat

def StagedMempoolGeneration.new : StagedMempoolGeneration := ⟨.new, ∅, 0⟩

variable (staged : StagedMempoolGeneration)

def StagedMempoolGeneration.nextPosition (id : TransactionId) :
    Except Status (MempoolEventPosition × StagedMempoolGeneration) := do
  let sequence ← okOr (checkedAdd u64Bound staged.nextSyntheticSequence 1)
    ⟨.resourceExhausted, "staged mempool event sequence is exhausted", none⟩
  .ok (⟨sequence, id⟩, { staged with nextSyntheticSequence := sequence })

inductive MempoolOwnerStatus where
  | hydrating
  | serving (sourceTip : BlockId) (snapshotCertifiedAt : U64)
  | rebuildRequired
deriving DecidableEq

structure LiveMempoolOwner where
  index : MempoolIndex
  reconciliationBatchTargetRawTransactionBytes : Nat
  status : MempoolOwnerStatus
  stagedGeneration : Option StagedMempoolGeneration

def LiveMempoolOwner.new (batchTarget : Nat) : LiveMempoolOwner :=
  ⟨.new, batchTarget, .hydrating, some .new⟩

/-- The owner, the writer and the script of the requests to come. -/
structure OwnerSystem where
  writer : Writer
  owner : LiveMempoolOwner
  script : List RequestScript

abbrev OwnerM (α : Type) := Stateful OwnerSystem Status α

open Stateful (ofExec repeatTurns)

def setStatus (status : MempoolOwnerStatus) : OwnerM Unit :=
  modify fun s => { s with owner := { s.owner with status } }

def markRebuildRequired : OwnerM Unit := setStatus .rebuildRequired

def setStagedGeneration (stagedGeneration : Option StagedMempoolGeneration) : OwnerM Unit :=
  modify fun s => { s with owner := { s.owner with stagedGeneration } }

variable (E : LogEnv) (index : MempoolIndex)

def setIndex : OwnerM Unit :=
  modify fun s => { s with owner := { s.owner with index } }

/-! ## Requests -/

def OwnerSystem.nextScript (s : OwnerSystem) : RequestScript := s.script.headD .prompt

def exchange {α : Type} (run : RequestScript → Writer → Except Status α × Writer) : OwnerM α :=
  ofExec fun s =>
    let (reply, writer) := run s.nextScript s.writer
    (reply, { s with writer, script := s.script.tail })

def requestAppendEvents (events : List ObservedEvent) : OwnerM (List MempoolEventEnvelope) :=
  exchange (Writer.request E (.append events) (Writer.appendEvents E events))

def requestAppendEvent (event : ObservedEvent) : OwnerM MempoolEventEnvelope :=
  exchange (Writer.request E (.append [event]) (Writer.appendEvent E event))

def requestEventPage (fromCursor : Option StreamCursorTokenV1) (maxEvents : Nat) :
    OwnerM (List MempoolEventEnvelope) :=
  exchange (Writer.requestRead E fun rows => mempoolEventHistory E rows fromCursor maxEvents)

/-! ## Transitions while serving -/

variable (event : MempoolEvent)

/-- A preflight whose rejection withdraws the index. -/
def preflightOrRebuild (message : String) : OwnerM MempoolIndexPreflight :=
  match index.preflightEvent event with
  | .ok preflight => pure preflight
  | .error error => do
    markRebuildRequired
    throw ⟨.failedPrecondition, message, some error⟩

/-- The transition on the live index; one that changes nothing withdraws the index. -/
def applyOrRebuild (position : MempoolEventPosition) (status : Status) : OwnerM Unit := do
  let s ← get
  let (outcome, index) := applyToIndex s.owner.index event position
  setIndex index
  if outcome ≠ .applied then do
    markRebuildRequired
    throw status
  else pure ()

def appendAndApplyLocked (observedAt : U64) : OwnerM MempoolApplyOutcome := do
  let s ← get
  let preflight ← preflightOrRebuild s.owner.index event
    "mempool index preflight rejected a source transition"
  if preflight = .noChange then pure .noChange
  else do
    let envelope ← requestAppendEvent E (event, observedAt)
    applyOrRebuild event envelope.position
      ⟨.unavailable, "durable mempool event could not be applied to the live index", none⟩
    pure .applied

/-! ## Reconciliation batches -/

def preflightTransitions (index : MempoolIndex) : List ObservedEvent → OwnerM (List ObservedEvent)
  | [] => pure []
  | transition :: rest => do
    let preflight ← preflightOrRebuild index transition.1
      "mempool index preflight rejected a reconciliation transition"
    let applicable ← preflightTransitions index rest
    pure (if preflight = .apply then transition :: applicable else applicable)

def applyEnvelopes : List MempoolEventEnvelope → OwnerM Unit
  | [] => pure ()
  | envelope :: rest => do
    applyOrRebuild envelope.event envelope.position
      ⟨.unavailable, "durable mempool reconciliation could not be applied to the live index", none⟩
    applyEnvelopes rest

def appendAndApplyReconciliationBatchLocked (transitions : List ObservedEvent) : OwnerM Unit := do
  let s ← get
  let applicable ← preflightTransitions s.owner.index transitions
  if applicable = [] then pure ()
  else do
    let envelopes ← requestAppendEvents E applicable
    if envelopes.length ≠ applicable.length then do
      markRebuildRequired
      throw ⟨.unavailable,
        "durable mempool reconciliation returned an incomplete transition batch", none⟩
    else applyEnvelopes envelopes

def maxMempoolReconciliationBatchEvents : Nat := 256

def saturatingAdd (a b : Nat) : Nat := min (a + b) (u64Bound - 1)

def transitionRawTransactionBytes : MempoolEvent → Nat
  | .added entry => min entry.rawTransactionBytes.length (u64Bound - 1)
  | .invalidated _ _ => 0
  | .mined _ _ _ => 0

/-- The transitions in batches bounded by count and by payload. The source's bound on the count is
`maxMempoolReconciliationBatchEvents`. -/
def appendTransitionBatches (E : LogEnv) (batchEvents batchTarget : Nat) :
    (batch : List ObservedEvent) → (batchBytes : Nat) → (transitions : List ObservedEvent) →
      OwnerM Unit
  | batch, _, [] => if batch = [] then pure () else appendAndApplyReconciliationBatchLocked E batch
  | batch, batchBytes, transition :: rest =>
    let bytes := transitionRawTransactionBytes transition.1
    if batch.length ≥ batchEvents ∨
        (batch ≠ [] ∧ saturatingAdd batchBytes bytes > batchTarget) then do
      appendAndApplyReconciliationBatchLocked E batch
      appendTransitionBatches E batchEvents batchTarget [transition] (saturatingAdd 0 bytes) rest
    else
      appendTransitionBatches E batchEvents batchTarget (batch ++ [transition])
        (saturatingAdd batchBytes bytes) rest

def appendAndApplyReconciliationTransitionsLocked (batchEvents : Nat)
    (transitions : List ObservedEvent) : OwnerM Unit := do
  let s ← get
  appendTransitionBatches E batchEvents s.owner.reconciliationBatchTargetRawTransactionBytes [] 0
    transitions

/-! ## Staging -/

def StagedMempoolGeneration.noteTerminalEvent (event : ObservedEvent) : StagedMempoolGeneration :=
  match event.1 with
  | .added entry =>
    { staged with terminalEvents := staged.terminalEvents.erase entry.transactionId }
  | .invalidated id _ => { staged with terminalEvents := staged.terminalEvents.insert id event }
  | .mined id _ _ => { staged with terminalEvents := staged.terminalEvents.insert id event }

def stageEventLocked (observedAt : U64) : OwnerM MempoolApplyOutcome := do
  let s ← get
  match s.owner.stagedGeneration with
  | none => throw ⟨.failedPrecondition, "mempool source emitted a transition outside hydration", none⟩
  | some staged => do
    let staged := staged.noteTerminalEvent (event, observedAt)
    setStagedGeneration (some staged)
    let preflight ← preflightOrRebuild staged.index event
      "staged mempool index preflight rejected a source transition"
    if preflight = .noChange then pure .noChange
    else
      match staged.nextPosition event.transactionId with
      | .error status => throw status
      | .ok (position, staged) => do
        let (outcome, index) := applyToIndex staged.index event position
        setStagedGeneration (some { staged with index })
        if outcome ≠ .applied then do
          markRebuildRequired
          throw ⟨.unavailable,
            "staged mempool transition could not be applied to the live-index model", none⟩
        else pure outcome

def applyEvent (observedAt : U64) : OwnerM MempoolApplyOutcome := do
  let s ← get
  match s.owner.status with
  | .hydrating => stageEventLocked event observedAt
  | .serving _ _ => appendAndApplyLocked E event observedAt
  | .rebuildRequired => throw ⟨.unavailable,
    "live mempool index is rebuilding after a durable transition mismatch", none⟩

/-! ## Hydration -/

def beginHydration : OwnerM Unit := do
  setStagedGeneration (some .new)
  setStatus .hydrating

def withdrawForRebuild : OwnerM Unit := do
  setStagedGeneration none
  markRebuildRequired

variable (staged : StagedMempoolGeneration) (clock : TransactionId → U64)

/-- How an entry that the snapshot lacks left the mempool, as far as the source said. -/
def removalOf (id : TransactionId) : ObservedEvent :=
  staged.terminalEvents[id]?.getD (.invalidated id .unknown, clock id)

def removals (entries : List MempoolEntry) : List ObservedEvent :=
  (entries.filter fun entry => !staged.index.isInMempool entry.transactionId).map fun entry =>
    removalOf staged clock entry.transactionId

def additions (entries : List MempoolEntry) : List ObservedEvent :=
  (entries.filter fun entry => !index.isInMempool entry.transactionId).map fun entry =>
    (.added entry, entry.firstSeenUnixMillis)

def turnAfter (page : MempoolSnapshotPage) (last : MempoolEntry) : Turn (Option TransactionId) :=
  if page.nextAfterTransactionId = none then .leave (some last.transactionId)
  else .again (some last.transactionId)

section Limits

variable (pageSize batchEvents : Nat) (staged : StagedMempoolGeneration)
    (clock : TransactionId → U64)

def reconcileRemovedTurn (after : Option TransactionId) : OwnerM (Turn (Option TransactionId)) := do
  let s ← get
  let page := s.owner.index.snapshotPage pageSize after
  match page.entries.getLast? with
  | none => pure (.leave after)
  | some last => do
    appendAndApplyReconciliationTransitionsLocked E batchEvents (removals staged clock page.entries)
    pure (turnAfter page last)

def reconcileAddedTurn (after : Option TransactionId) : OwnerM (Turn (Option TransactionId)) := do
  let s ← get
  let page := staged.index.snapshotPage pageSize after
  match page.entries.getLast? with
  | none => pure (.leave after)
  | some last => do
    appendAndApplyReconciliationTransitionsLocked E batchEvents (additions s.owner.index page.entries)
    pure (turnAfter page last)

/-- A turn that goes on leaves fewer entries behind it, so the entries are turns enough. -/
def reconcileRemovedOf : OwnerM Unit := do
  let s ← get
  let _ ← repeatTurns (reconcileRemovedTurn E pageSize batchEvents staged clock)
    (s.owner.index.entries.toList.length + 1) none
  pure ()

def reconcileAddedOf : OwnerM Unit := do
  let _ ← repeatTurns (reconcileAddedTurn E pageSize batchEvents staged)
    (staged.index.entries.toList.length + 1) none
  pure ()

/-- The reconciliation of a staged generation, with any page size and any bound on a batch. -/
def reconcileOf : OwnerM Unit := do
  reconcileRemovedOf E pageSize batchEvents staged clock
  reconcileAddedOf E pageSize batchEvents staged

end Limits

def reconcileRemovedEntriesLocked : OwnerM Unit :=
  reconcileRemovedOf E maxMempoolReconciliationBatchEvents maxMempoolReconciliationBatchEvents
    staged clock

def reconcileAddedEntriesLocked : OwnerM Unit :=
  reconcileAddedOf E maxMempoolReconciliationBatchEvents maxMempoolReconciliationBatchEvents staged

def reconcileStagedGenerationLocked : OwnerM Unit := do
  reconcileRemovedEntriesLocked E staged clock
  reconcileAddedEntriesLocked E staged

inductive SnapshotCertification where
  | pendingCanonicalTip
  | certified
deriving DecidableEq

/-- `visibleTip` is the tip of the reply to the chain epoch request; the clock gives the times read
for the entries the snapshot lacks, and `certifiedAt` the time read at the end. -/
def tryCompleteHydration (clock : TransactionId → U64) (certifiedAt : U64)
    (visibleTip : Except Status BlockId) (sourceTip : BlockId) : OwnerM SnapshotCertification := do
  let s ← get
  if s.owner.status ≠ .hydrating then
    throw ⟨.failedPrecondition, "mempool source emitted an unexpected snapshot-complete marker", none⟩
  else
    match visibleTip with
    | .error status => throw status
    | .ok visibleTip =>
      if sourceTip ≠ visibleTip then pure .pendingCanonicalTip
      else
        match s.owner.stagedGeneration with
        | none => throw ⟨.failedPrecondition,
          "mempool source completion marker has no staged snapshot", none⟩
        | some staged => do
          setStagedGeneration none
          reconcileStagedGenerationLocked E staged clock
          setStatus (.serving sourceTip certifiedAt)
          pure .certified

/-! ## Restoring the index from the log -/

def mempoolEventPageSize : Nat := 64

def restoreEnvelopes : List MempoolEventEnvelope → OwnerM Unit
  | [] => pure ()
  | envelope :: rest => do
    let s ← get
    let preflight ← preflightOrRebuild s.owner.index envelope.event
      "durable mempool history cannot rebuild the live index"
    if preflight = .noChange then restoreEnvelopes rest
    else do
      applyOrRebuild envelope.event envelope.position
        ⟨.failedPrecondition, "durable mempool history could not rebuild the live index", none⟩
      restoreEnvelopes rest

def restoreTurn (after : Option StreamCursorTokenV1) :
    OwnerM (Turn (Option StreamCursorTokenV1)) := do
  let page ← requestEventPage E after mempoolEventPageSize
  match page.getLast? with
  | none => pure (.leave after)
  | some last => do
    restoreEnvelopes page
    pure (.again (some last.cursor))

/-- What `restore_durable_index` does before it reads the log. -/
def resetForRestore : OwnerM Unit := do
  setIndex .new
  setStagedGeneration (some .new)
  setStatus .hydrating

/-- `restore_durable_index` with a bound on its pages. The result says whether the loop was left,
which it is at the first page without events. -/
def restoreDurableIndex (fuel : Nat) : OwnerM (Turn (Option StreamCursorTokenV1)) := do
  resetForRestore
  repeatTurns (restoreTurn E) fuel none

/-! ## Snapshot pages -/

/-- A snapshot page with the resume cursor of its walk; an absent cursor is empty. -/
structure LiveMempoolSnapshotPage where
  sourceTip : BlockId
  entries : List MempoolEntry
  eventsResumeCursor : Bytes
  snapshotAgeMillis : Nat
  nextCursor : Bytes

def coherentServingStateFor (visibleTip : BlockId) :
    MempoolOwnerStatus → Except Status (BlockId × U64)
  | .serving sourceTip snapshotCertifiedAt => do
    rejectIf (sourceTip ≠ visibleTip) ⟨.failedPrecondition,
      "live mempool index is not coherent with the requested chain epoch", none⟩
    .ok (sourceTip, snapshotCertifiedAt)
  | .hydrating => .error ⟨.unavailable,
    "live mempool index is hydrating from an upstream snapshot", none⟩
  | .rebuildRequired => .error ⟨.unavailable,
    "live mempool index is rebuilding after a durable transition mismatch", none⟩

def nextSnapshotCursor (start : CanonicalMempoolSnapshotStart) :
    Option TransactionId → OwnerM Bytes
  | none => pure []
  | some after => do
    let cursor ← exchange (Writer.requestRead E fun _ =>
      .ok (encodeMempoolSnapshotNextCursor E start.eventsResumeAnchor after))
    pure cursor.bytes

/-- `snapshot_page`: `visibleTip` is the tip of the chain epoch the caller pins. -/
def liveSnapshotPage (visibleTip : BlockId) (now : U64) (maxEntries : Nat) (fromCursor : Bytes) :
    OwnerM LiveMempoolSnapshotPage := do
  let s ← get
  match coherentServingStateFor visibleTip s.owner.status with
  | .error status => throw status
  | .ok (sourceTip, snapshotCertifiedAt) => do
    let start ← exchange (Writer.requestRead E fun rows => beginMempoolSnapshot E rows fromCursor)
    let snapshot := s.owner.index.snapshotPage maxEntries start.afterTransactionId
    let nextCursor ← nextSnapshotCursor E start snapshot.nextAfterTransactionId
    pure {
      sourceTip
      entries := snapshot.entries
      eventsResumeCursor := (start.eventsResumeCursor.map StreamCursorTokenV1.bytes).getD []
      snapshotAgeMillis := now.val - snapshotCertifiedAt.val
      nextCursor }

def defaultMempoolSnapshotPageSize : Nat := 256

def maxMempoolSnapshotPageSize : Nat := 1024

def boundedSnapshotPageSize (requested : Nat) : Nat :=
  if requested = 0 then defaultMempoolSnapshotPageSize
  else if requested > maxMempoolSnapshotPageSize then maxMempoolSnapshotPageSize
  else requested

theorem boundedSnapshotPageSize_pos (requested : Nat) : 0 < boundedSnapshotPageSize requested := by
  unfold boundedSnapshotPageSize
  split
  · decide
  · split
    · decide
    · omega

/-! ## Retention -/

def pruneEvents (now : U64) (retention : MempoolEventRetentionConfig)
    (budget : MempoolEventRetentionStepBudget) : OwnerM MempoolEventRetentionStepOutcome :=
  exchange (Writer.request E (.prune now retention budget) (Writer.pruneEvents E now retention budget))

end Zinder.Mempool
