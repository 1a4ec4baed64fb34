import Zinder.Lib.Stateful
import Zinder.Mempool.Index
import Zinder.Mempool.LogRun

/-!
# Zinder.Mempool.Control

Requests to the canonical writer (`writer/control.rs`). The caller enqueues a command with a time
limit and waits for the reply with another one, so a request can fail in four ways that differ in
what the writer did: the command was never enqueued, the writer answered with an error, the writer
carried it out but the reply came too late, or the command is still in the queue and will be carried
out later.
-/

namespace Zinder.Mempool

inductive Code where
  | unavailable
  | failedPrecondition
  | resourceExhausted
  | deadlineExceeded
  | invalidArgument
  | internal
deriving DecidableEq

/-- A status a request or an owner operation fails with. The message of a rejected transition ends in
the index error. -/
structure Status where
  code : Code
  message : String
  indexError : Option MempoolIndexInvariantError := none
deriving DecidableEq

/-- `map_store_error`, on the errors of the mempool log. -/
def mapStoreError : MempoolLogError → Status
  | .mempoolEventCursorExpired _ _ => ⟨.failedPrecondition, "mempool event cursor has expired", none⟩
  | .mempoolSnapshotCursorExpired _ _ =>
    ⟨.failedPrecondition, "mempool snapshot page cursor has expired", none⟩
  | .mempoolEventCursorInvalid _ => ⟨.invalidArgument, "mempool event cursor is invalid", none⟩
  | .mempoolSnapshotCursorInvalid _ =>
    ⟨.invalidArgument, "mempool snapshot page cursor is invalid", none⟩
  | .mempoolEventSequenceOverflow =>
    ⟨.resourceExhausted, "mempool event sequence is exhausted", none⟩
  | .mempoolEventLogInvalid _ => ⟨.failedPrecondition, "mempool event history is unavailable", none⟩
  | .liveCommitWriteOutcomeUnknown => ⟨.internal, "canonical writer operation failed", none⟩

/-! ## The writer -/

/-- The commands that change the mempool log. -/
inductive WriterCommand where
  | append (events : List ObservedEvent)
  | prune (now : U64) (retention : MempoolEventRetentionConfig)
    (budget : MempoolEventRetentionStepBudget)

/-- The task that owns the primary: the store, everything ever appended to its log, and the commands
whose callers have stopped waiting. -/
structure Writer where
  store : MempoolEventStore
  log : List ObservedEvent
  queue : List WriterCommand

namespace Writer

variable (E : LogEnv)

def appendEvents (events : List ObservedEvent) (reply : WriteReply) (w : Writer) :
    Except MempoolLogError (List MempoolEventEnvelope) × Writer :=
  let (appended, rows) := appendMempoolEvents E reply w.store.rows events
  (appended, { w with
    store := { w.store with rows }
    log := w.log ++ durableEvents E reply w.store.rows events })

def appendEvent (event : ObservedEvent) (reply : WriteReply) (w : Writer) :
    Except MempoolLogError MempoolEventEnvelope × Writer :=
  let (appended, rows) := appendMempoolEvent E reply w.store.rows event
  (appended, { w with
    store := { w.store with rows }
    log := w.log ++ durableEvents E reply w.store.rows [event] })

def pruneEvents (now : U64) (retention : MempoolEventRetentionConfig)
    (budget : MempoolEventRetentionStepBudget) (reply : WriteReply) (w : Writer) :
    Except MempoolLogError MempoolEventRetentionStepOutcome × Writer :=
  let (outcome, store) := advanceMempoolEventRetention E reply now retention budget w.store
  (outcome, { w with store })

def carryOut (command : WriterCommand) (reply : WriteReply) (w : Writer) : Writer :=
  match command with
  | .append events => (w.appendEvents E events reply).2
  | .prune now retention budget => (w.pruneEvents E now retention budget reply).2

def carryOutQueued : (replies : List WriteReply) → Writer → Writer
  | [], w => w
  | reply :: replies, w =>
    match w.queue with
    | [] => w
    | command :: queue => carryOutQueued replies (carryOut E command reply { w with queue })

end Writer

/-! ## Requests -/

/-- What becomes of a request after the commands before it. -/
inductive RequestFate where
  | queueFull
  | writerGone
  | answered (reply : WriteReply)
  | lost (reply : WriteReply)
  | late
deriving DecidableEq

/-- One request: the queued commands the writer carries out before it, and its own fate. -/
structure RequestScript where
  earlier : List WriteReply
  fate : RequestFate

def RequestScript.prompt : RequestScript := ⟨[], .answered .done⟩

def queueFullStatus : Status := ⟨.resourceExhausted, "canonical writer command queue is full", none⟩

def writerGoneStatus : Status := ⟨.unavailable, "canonical writer is unavailable", none⟩

def unservicedStatus : Status :=
  ⟨.deadlineExceeded, "canonical writer did not service the request", none⟩

/-- `request`, for a command that changes the log. -/
def Writer.request {α : Type} (E : LogEnv) (command : WriterCommand)
    (perform : WriteReply → Writer → Except MempoolLogError α × Writer) (script : RequestScript)
    (w : Writer) : Except Status α × Writer :=
  let w := w.carryOutQueued E script.earlier
  match script.fate with
  | .queueFull => (.error queueFullStatus, w)
  | .writerGone => (.error writerGoneStatus, w)
  | .answered reply => ((perform reply w).1.mapError mapStoreError, (perform reply w).2)
  | .lost reply => (.error unservicedStatus, (perform reply w).2)
  | .late => (.error unservicedStatus, { w with queue := w.queue ++ [command] })

/-- `request`, for a read of the log. -/
def Writer.requestRead {α : Type} (E : LogEnv) (read : MempoolRows → Except MempoolLogError α)
    (script : RequestScript) (w : Writer) : Except Status α × Writer :=
  let w := w.carryOutQueued E script.earlier
  match script.fate with
  | .queueFull => (.error queueFullStatus, w)
  | .writerGone => (.error writerGoneStatus, w)
  | .answered _ => ((read w.store.rows).mapError mapStoreError, w)
  | .lost _ => (.error unservicedStatus, w)
  | .late => (.error unservicedStatus, w)

end Zinder.Mempool
