import Zinder.Lib.TreeMap
import Zinder.Mempool.Cursor

/-!
# Zinder.Mempool.EventStore

The durable mempool event log of the canonical primary: its rows, the append, the paged history read,
and the resolution of stream starts and snapshot cursors (`mempool_lifecycle.rs`).

The rows are the head pointer and the retention floor of the control family and one row per retained
event under its sequence number. Every write is one batch; a write whose outcome is unknown to the
caller may or may not have become durable (`WriteReply.failed`).
-/

namespace Zinder.Mempool

open Std (ExtTreeMap)

/-! ## Envelopes and their records -/

/-- An event as consumers receive it. -/
structure MempoolEventEnvelope where
  cursor : StreamCursorTokenV1
  eventSequence : Nat
  sourceObservedUnixMillis : U64
  event : MempoolEvent
deriving DecidableEq

variable (e : MempoolEventEnvelope)

def MempoolEventEnvelope.transactionId : TransactionId :=
  e.event.transactionId

def MempoolEventEnvelope.position : MempoolEventPosition :=
  ⟨e.eventSequence, e.transactionId⟩

def MempoolEventEnvelope.observed : ObservedEvent :=
  (e.event, e.sourceObservedUnixMillis)

/-- The persisted part of an envelope: the cursor is minted again on every read. -/
structure MempoolEventEnvelopeRecord where
  eventSequence : Nat
  sourceObservedUnixMillis : U64
  event : MempoolEvent
deriving DecidableEq

/-- The protobuf coding of records, known by its round trip. -/
structure EventCodec where
  encode : MempoolEventEnvelopeRecord → Bytes
  decode : Bytes → Except String MempoolEventEnvelopeRecord
  decode_encode : ∀ r : MempoolEventEnvelopeRecord, r.eventSequence < u64Bound →
    decode (encode r) = .ok r

/-- What a store's mempool log is read and written with. -/
structure LogEnv where
  authority : CursorAuthority
  codec : EventCodec

/-- The mempool variants of `CanonicalStoreError`. -/
inductive MempoolLogError where
  | mempoolEventLogInvalid (reason : String)
  | mempoolEventCursorInvalid (reason : String)
  | mempoolEventCursorExpired (eventSequence oldestRetainedSequence : Nat)
  | mempoolEventSequenceOverflow
  | mempoolSnapshotCursorInvalid (reason : String)
  | mempoolSnapshotCursorExpired (anchorEventSequence currentEventSequence : Nat)
  | liveCommitWriteOutcomeUnknown
deriving DecidableEq

open MempoolLogError

variable (E : LogEnv) (rows : MempoolRows)

/-- The envelope of the event appended under `sequence`. -/
def envelopeOf (sequence : Nat) (observed : ObservedEvent) : MempoolEventEnvelope where
  cursor := .mempoolEvent E.authority sequence observed.1.transactionId
  eventSequence := sequence
  sourceObservedUnixMillis := observed.2
  event := observed.1

def encodeMempoolEventEnvelope (envelope : MempoolEventEnvelope) : Bytes :=
  E.codec.encode ⟨envelope.eventSequence, envelope.sourceObservedUnixMillis, envelope.event⟩

def decodeMempoolEventEnvelope (encodedEvent : Bytes) :
    Except MempoolLogError MempoolEventEnvelope := do
  let record ← (E.codec.decode encodedEvent).mapError mempoolEventLogInvalid
  .ok (envelopeOf E record.eventSequence (record.event, record.sourceObservedUnixMillis))

def decodeMempoolEvent (eventSequence : Nat) (encodedEvent : Bytes) :
    Except MempoolLogError MempoolEventEnvelope := do
  let envelope ← decodeMempoolEventEnvelope E encodedEvent
  let observed := envelope.eventSequence
  rejectIf (observed ≠ eventSequence) (mempoolEventLogInvalid
    s!"mempool event key {eventSequence} does not match envelope sequence {observed}")
  .ok envelope

/-! ## Rows -/

structure MempoolRows where
  eventSequence : Option Nat
  retentionFloor : Option Nat
  events : ExtTreeMap Nat Bytes

def MempoolRows.empty : MempoolRows := ⟨none, none, ∅⟩

inductive RowOp where
  | putEvent (sequence : Nat) (encodedEvent : Bytes)
  | deleteEvent (sequence : Nat)
  | putEventSequence (sequence : Nat)
  | putRetentionFloor (sequence : Nat)

def RowOp.apply : RowOp → MempoolRows
  | putEvent sequence encodedEvent =>
    { rows with events := rows.events.insert sequence encodedEvent }
  | deleteEvent sequence => { rows with events := rows.events.erase sequence }
  | putEventSequence sequence => { rows with eventSequence := some sequence }
  | putRetentionFloor sequence => { rows with retentionFloor := some sequence }

def MempoolRows.write (rows : MempoolRows) (batch : List RowOp) : MempoolRows :=
  batch.foldl RowOp.apply rows

/-- The reply to a batch write. A failed write may have become durable all the same. -/
inductive WriteReply where
  | done
  | failed (durable : Bool)
deriving DecidableEq

def WriteReply.durable : WriteReply → Bool
  | done => true
  | failed durable => durable

variable (reply : WriteReply) (rows : MempoolRows)

def writeMempoolLifecycleBatch (batch : List RowOp) : Except MempoolLogError Unit × MempoolRows :=
  (match reply with
    | .done => .ok ()
    | .failed _ => .error liveCommitWriteOutcomeUnknown,
   if reply.durable then rows.write batch else rows)

/-! ## Reading rows -/

/-- The head sequence; zero before the first append. -/
def currentMempoolEventSequence : Except MempoolLogError Nat :=
  match rows.eventSequence with
  | none => .ok 0
  | some 0 => .error
    (mempoolEventLogInvalid "mempool event sequence pointer must be absent or nonzero")
  | some sequence => .ok sequence

def mempoolEventRetentionFloor (currentEventSequence : Nat) : Except MempoolLogError Nat := do
  let floor := rows.retentionFloor.getD 1
  rejectIf (floor = 0 ∨ floor > currentEventSequence)
    (mempoolEventLogInvalid "mempool event retention floor is outside retained history")
  .ok floor

def readEncodedMempoolEvent (eventSequence : Nat) : Except MempoolLogError Bytes :=
  okOr rows.events[eventSequence]?
    (mempoolEventLogInvalid s!"mempool event {eventSequence} is absent")

def readMempoolEvent (eventSequence : Nat) : Except MempoolLogError MempoolEventEnvelope := do
  let encodedEvent ← readEncodedMempoolEvent rows eventSequence
  decodeMempoolEvent E eventSequence encodedEvent

def validateAdmissionEventRow (expectedSequence : Nat) (row : Nat × Bytes) :
    Except MempoolLogError Unit := do
  let observedSequence := row.1
  rejectIf (observedSequence ≠ expectedSequence) (mempoolEventLogInvalid
    s!"mempool event physical key {observedSequence} does not match admitted sequence {expectedSequence}")
  let envelope ← decodeMempoolEventEnvelope E row.2
  let envelopeSequence := envelope.eventSequence
  rejectIf (envelopeSequence ≠ observedSequence) (mempoolEventLogInvalid
    s!"mempool event physical key {observedSequence} does not match envelope sequence {envelopeSequence}")

/-- The check of the log when the primary opens and before the first append: the floor and head rows
are the first and last of the family. -/
def validateMempoolLifecycleAdmission : Except MempoolLogError Unit :=
  match rows.eventSequence, rows.retentionFloor, rows.events.toList.head?,
    rows.events.toList.getLast? with
  | none, none, none, none => .ok ()
  | some head, some floor, some first, some last => do
    rejectIf (head = 0 ∨ floor = 0 ∨ floor > head)
      (mempoolEventLogInvalid "mempool event floor and head are outside retained history")
    validateAdmissionEventRow E floor first
    validateAdmissionEventRow E head last
  | none, none, some _, some _ => .error (mempoolEventLogInvalid
    "mempool event column family has orphan rows without lifecycle metadata")
  | _, _, _, _ => .error (mempoolEventLogInvalid
    "mempool event lifecycle metadata and column family disagree")

/-! ## Appending -/

structure AppendState where
  sequence : Nat
  envelopes : List MempoolEventEnvelope
  batch : List RowOp

def appendOne (s : AppendState) (observed : ObservedEvent) :
    Except MempoolLogError AppendState := do
  let sequence ← okOr (checkedAdd u64Bound s.sequence 1) mempoolEventSequenceOverflow
  let envelope := envelopeOf E sequence observed
  .ok { sequence
        envelopes := s.envelopes ++ [envelope]
        batch := s.batch ++ [.putEvent sequence (encodeMempoolEventEnvelope E envelope)] }

/-- The first append checks that it starts an empty log. -/
def admitAppend (currentEventSequence : Nat) : Except MempoolLogError Unit :=
  if currentEventSequence = 0 then validateMempoolLifecycleAdmission E rows else .ok ()

/-- Everything an append does before its write: the envelopes and the batch. -/
def prepareAppend (events : List ObservedEvent) :
    Except MempoolLogError (List MempoolEventEnvelope × List RowOp) := do
  let currentEventSequence ← currentMempoolEventSequence rows
  admitAppend E rows currentEventSequence
  let s ← loop (appendOne E) ⟨currentEventSequence, [], []⟩ events
  .ok (s.envelopes, s.batch ++ [.putEventSequence s.sequence] ++
    (if currentEventSequence = 0 then [.putRetentionFloor 1] else []))

/-- `append_mempool_events`: the rows of all events, the head and the first floor in one batch. -/
def appendMempoolEvents (events : List ObservedEvent) :
    Except MempoolLogError (List MempoolEventEnvelope) × MempoolRows :=
  if events = [] then (.ok [], rows) else
  match prepareAppend E rows events with
  | .error e => (.error e, rows)
  | .ok (envelopes, batch) =>
    let (written, rows') := writeMempoolLifecycleBatch reply rows batch
    (written.map fun _ => envelopes, rows')

def appendMempoolEvent (event : ObservedEvent) :
    Except MempoolLogError MempoolEventEnvelope × MempoolRows :=
  let (appended, rows') := appendMempoolEvents E reply rows [event]
  (do let envelopes ← appended
      okOr envelopes.head? (mempoolEventLogInvalid
        "single mempool event append produced no durable envelope"), rows')

/-! ## Event history -/

/-- Where a page starts that resumes strictly after `cursor`. -/
def validateMempoolResumeCursor (cursor : StreamCursorTokenV1)
    (currentEventSequence oldestRetainedSequence : Nat) : Except MempoolLogError Nat := do
  let payload ← (cursor.decodeMempoolEvent E.authority).mapError fun _ =>
    mempoolEventCursorInvalid "cursor token failed validation"
  rejectIf (payload.eventSequence > currentEventSequence)
    (mempoolEventCursorInvalid "cursor sequence is ahead of retained history")
  rejectIf (payload.eventSequence < oldestRetainedSequence)
    (mempoolEventCursorExpired payload.eventSequence oldestRetainedSequence)
  let envelope ← readMempoolEvent E rows payload.eventSequence
  rejectIf (envelope.transactionId ≠ payload.lastTransactionId)
    (mempoolEventCursorInvalid "cursor transaction id does not match the retained event")
  okOr (checkedAdd u64Bound payload.eventSequence 1) mempoolEventSequenceOverflow

/-- The page loop over the rows an iterator from `startSequence` visits. -/
def historyPage (E : LogEnv) (currentEventSequence startSequence maxEvents : Nat) :
    List (Nat × Bytes) → List MempoolEventEnvelope →
      Except MempoolLogError (List MempoolEventEnvelope)
  | [], events => .ok events
  | (eventSequence, encodedEvent) :: rest, events =>
    if eventSequence > currentEventSequence ∨ events.length ≥ maxEvents then .ok events
    else if eventSequence < startSequence then
      historyPage E currentEventSequence startSequence maxEvents rest events
    else do
      let expectedSequence ← okOr (checkedAdd u64Bound startSequence events.length)
        mempoolEventSequenceOverflow
      rejectIf (eventSequence ≠ expectedSequence)
        (mempoolEventCursorExpired (eventSequence - 1) eventSequence)
      let envelope ← decodeMempoolEvent E eventSequence encodedEvent
      historyPage E currentEventSequence startSequence maxEvents rest (events ++ [envelope])

def MempoolRows.seekEvents (sequence : Nat) : List (Nat × Bytes) :=
  rows.events.toList.filter fun row => sequence ≤ row.1

/-- `mempool_event_history`: a page of at most `maxEvents` events strictly after the cursor, or from
the retained floor when there is none. -/
def mempoolEventHistory (fromCursor : Option StreamCursorTokenV1) (maxEvents : Nat) :
    Except MempoolLogError (List MempoolEventEnvelope) := do
  let currentEventSequence ← currentMempoolEventSequence rows
  if currentEventSequence = 0 then
    rejectIf fromCursor.isSome
      (mempoolEventCursorInvalid "cursor sequence is ahead of retained history")
    .ok []
  else
    let oldestRetainedSequence ← mempoolEventRetentionFloor rows currentEventSequence
    let startSequence ← match fromCursor with
      | none => .ok oldestRetainedSequence
      | some cursor =>
        validateMempoolResumeCursor E rows cursor currentEventSequence oldestRetainedSequence
    if startSequence > currentEventSequence then .ok []
    else
      let events ← historyPage E currentEventSequence startSequence maxEvents
        (rows.seekEvents startSequence) []
      rejectIf (events = []) (mempoolEventLogInvalid
        "mempool event head points to an absent retained row")
      .ok events

inductive EventStreamStartPosition where
  | earliestRetained
  | afterCursor (cursor : StreamCursorTokenV1)
  | liveTail
deriving DecidableEq

/-- `resolve_mempool_event_stream_start`: the cursor a subscription's page reads resume after. -/
def resolveMempoolEventStreamStart (start : EventStreamStartPosition) :
    Except MempoolLogError (Option StreamCursorTokenV1) := do
  let currentEventSequence ← currentMempoolEventSequence rows
  match start with
  | .earliestRetained => .ok none
  | .afterCursor cursor =>
    rejectIf (currentEventSequence = 0)
      (mempoolEventCursorInvalid "cursor sequence is ahead of retained history")
    let oldestRetainedSequence ← mempoolEventRetentionFloor rows currentEventSequence
    let _ ← validateMempoolResumeCursor E rows cursor currentEventSequence oldestRetainedSequence
    .ok (some cursor)
  | .liveTail =>
    if currentEventSequence = 0 then .ok none
    else
      let envelope ← readMempoolEvent E rows currentEventSequence
      .ok (some envelope.cursor)

/-! ## Snapshot cursors -/

structure CanonicalMempoolSnapshotStart where
  afterTransactionId : Option TransactionId
  eventsResumeAnchor : Option MempoolEventPosition
  eventsResumeCursor : Option StreamCursorTokenV1
deriving DecidableEq

/-- `begin_mempool_snapshot`: the anchor of a new walk is the durable head; a later page takes its
walk's anchor from the cursor. -/
def beginMempoolSnapshot (cursorBytes : Bytes) :
    Except MempoolLogError CanonicalMempoolSnapshotStart := do
  let currentEventSequence ← currentMempoolEventSequence rows
  let currentAnchor ← if currentEventSequence = 0 then .ok none
    else (readMempoolEvent E rows currentEventSequence).map fun e => some e.position
  let (afterTransactionId, eventsResumeAnchor) ←
    if cursorBytes = [] then .ok (none, currentAnchor)
    else do
      let payload ← ((StreamCursorTokenV1.mk cursorBytes).decodeSnapshotPage E.authority).mapError
        fun _ => mempoolSnapshotCursorInvalid "cursor token failed validation"
      let anchorSequence := (payload.eventsResumeAnchor.map (·.eventSequence)).getD 0
      rejectIf (anchorSequence > currentEventSequence)
        (mempoolSnapshotCursorExpired anchorSequence currentEventSequence)
      .ok (some payload.afterTransactionId, payload.eventsResumeAnchor)
  .ok { afterTransactionId
        eventsResumeAnchor
        eventsResumeCursor := eventsResumeAnchor.map fun anchor =>
          .mempoolEvent E.authority anchor.eventSequence anchor.transactionId }

def encodeMempoolSnapshotNextCursor (eventsResumeAnchor : Option MempoolEventPosition)
    (afterTransactionId : TransactionId) : StreamCursorTokenV1 :=
  .snapshotPage E.authority eventsResumeAnchor afterTransactionId

end Zinder.Mempool
