import Zinder.Canonical.ArchiveReads
import Zinder.Canonical.Lifecycle
import Zinder.Format.StreamCursor
import Zinder.Mempool.EventStore

/-!
# Zinder.ChainEvents.History

The wallet's chain events, projected from the retained events of a canonical store.

A page read resumes after a cursor. The cursor carries a locator, the tip its client had seen and some
ancestors of it, and the read looks for the first entry that is still on the visible chain.

* `walletChainEventHistory`: one page.
* `walletEventResume`: where a page starts, and the reorg it may have to lead with.
* `resolveWalletChainEventStreamStart`: the cursor a subscription starts with.
* `mintWalletEventCursorAtAnchor`: the locator of a cursor, from the archive of displaced blocks and
  the visible headers.
-/

namespace Zinder.ChainEvents

open Canonical Format
open Mempool (CursorAuthority StreamCursorTokenV1 EventStreamStartPosition)

/-! ## Envelopes -/

structure ChainEpochCommitted where
  chainEpoch : ChainEpoch
  blockRange : BlockHeightRange
deriving DecidableEq

structure ChainRangeReverted where
  chainEpoch : ChainEpoch
  blockRange : BlockHeightRange
deriving DecidableEq

inductive ChainEvent where
  | chainCommitted (committed : ChainEpochCommitted)
  | chainReorged (reverted : ChainRangeReverted) (committed : ChainEpochCommitted)
deriving DecidableEq

structure ChainEventEnvelope where
  cursor : StreamCursorTokenV1
  eventSequence : Nat
  chainEpoch : ChainEpoch
  settledTipHeight : Nat
  event : ChainEvent
deriving DecidableEq

structure WalletEventResume where
  startSequence : Nat
  family : ChainEventStreamFamily
  syntheticReorg : Option ChainEventEnvelope
deriving DecidableEq

structure ChainEventHistoryRequest where
  fromCursor : Option StreamCursorTokenV1
  family : ChainEventStreamFamily
  maxEvents : Nat
  maxEvents_pos : 0 < maxEvents

structure ChainEventStreamResume where
  cursor : Option StreamCursorTokenV1
  family : ChainEventStreamFamily
deriving DecidableEq

/-! ## Reads -/

section Reads

variable {D : Type}

def blockHashAt (db : Db D) (height : Nat) : Option BlockHash :=
  (db.lookup (Key.blockHeader height)).map BlockHeaderArtifact.blockHash

/-- The anchor is a block of the visible chain. -/
def onVisibleChain (db : Db D) (anchor : ChainEventCursorAnchor) : Bool :=
  blockHashAt db anchor.height = some anchor.hash

end Reads

/-! ## Cursors -/

/-- The loop of `locator_heights`, with the number of heights that still fit. -/
def locatorHeightsFrom : (room current step : Nat) → List Nat
  | 0, _, _ => []
  | room + 1, current, step =>
    current :: if current = 0 then []
      else locatorHeightsFrom room (current - step) (min (step * 2) (u32Bound - 1))

def locatorHeights (tipHeight : Nat) : List Nat :=
  locatorHeightsFrom chainEventLocatorMax tipHeight 1

section Cursors

variable {D : Type} (A : CursorAuthority) (db : Db D)

/-- The block at a height after an event: the first one displaced there later, or else the visible
one. -/
def locatorEntry (eventSequence height : Nat) :
    Except CanonicalEventError (Option ChainEventCursorAnchor) := do
  let displaced ← (firstDisplacedBlockHashAfterEvent db eventSequence height).mapError .store
  .ok ((displaced.or (blockHashAt db height)).map fun hash => ⟨height, hash⟩)

def mintWalletEventCursorAtAnchor (family : ChainEventStreamFamily) (eventSequence : Nat)
    (tip : ChainEventCursorAnchor) : Except CanonicalEventError StreamCursorTokenV1 := do
  let ancestors ← collect (locatorEntry db eventSequence) (locatorHeights tip.height).tail
  let locator ← (ChainEventLocator.new (tip :: ancestors.filterMap id)).mapError fun _ =>
    .canonicalEventCursorMalformed "chain-event locator is outside its bound"
  (chainEvent A family eventSequence locator).mapError fun _ =>
    .canonicalEventCursorMalformed "cursor authentication failed"

def anchorOf (epoch : ChainEpoch) : ChainEventCursorAnchor :=
  ⟨epoch.visibleTip.height, epoch.visibleTip.hash⟩

def mintWalletEventCursor (chainEpoch : ChainEpoch) (family : ChainEventStreamFamily)
    (eventSequence : Nat) : Except CanonicalEventError StreamCursorTokenV1 :=
  mintWalletEventCursorAtAnchor A db family eventSequence (anchorOf chainEpoch)

def decodeCursor (cursor : StreamCursorTokenV1) :
    Except CanonicalEventError ChainEventCursorPayload :=
  (decodeChainEvent A cursor).mapError fun _ =>
    .canonicalEventCursorMalformed "cursor token failed validation"

end Cursors

/-! ## Events -/

section Events

variable {D : Type} (A : CursorAuthority) (db : Db D)

variable (event : CanonicalRetainedEvent D)

def walletEventMatchesFamily (family : ChainEventStreamFamily) : Except CanonicalEventError Bool :=
  match family with
  | .visible => .ok true
  | .settled => do
    let epoch ← chainEpochAt db event.resultingEpochId
    .ok (event.kind = .committed ∧ epoch.visibleTip.height ≤ epoch.settledTip.height)

/-- The event of `wallet_event_envelope`. -/
def walletEvent (committed : ChainEpochCommitted) : Except CanonicalEventError ChainEvent :=
  match event.kind with
  | .committed => .ok (.chainCommitted committed)
  | .reorg => do
    let previousEpochId ← okOr event.previousEpochId
      (.canonicalEventRecordMalformed event.eventSequence "reorg event has no previous epoch")
    let previousEpoch ← chainEpochAt db previousEpochId
    let revertedRange ← okOr event.revertedRange
      (.canonicalEventRecordMalformed event.eventSequence "reorg event has no reverted range")
    .ok (.chainReorged ⟨previousEpoch, revertedRange⟩ committed)

def walletEventEnvelope (family : ChainEventStreamFamily) :
    Except CanonicalEventError ChainEventEnvelope := do
  let chainEpoch ← chainEpochAt db event.resultingEpochId
  let walletEvent ← walletEvent db event ⟨chainEpoch, event.committedRange⟩
  let cursor ← mintWalletEventCursor A db chainEpoch family event.eventSequence
  .ok ⟨cursor, event.eventSequence, chainEpoch, chainEpoch.settledTip.height, walletEvent⟩

def projectEvent (family : ChainEventStreamFamily) (sequence : Nat) :
    Except CanonicalEventError (List ChainEventEnvelope) := do
  let event ← readRetainedEvent db sequence
  let included ← walletEventMatchesFamily db event family
  if included then do
    let envelope ← walletEventEnvelope A db event family
    .ok [envelope]
  else .ok []

/-- The page loop of `wallet_chain_event_history`, over the sequences that are left. -/
def historyPage (family : ChainEventStreamFamily) (maxEvents : Nat) :
    (sequences : List Nat) → (envelopes : List ChainEventEnvelope) →
      Except CanonicalEventError (List ChainEventEnvelope)
  | [], envelopes => .ok envelopes
  | sequence :: sequences, envelopes =>
    if maxEvents ≤ envelopes.length then .ok envelopes
    else do
      let projected ← projectEvent A db family sequence
      let _ ← okOr (checkedAdd u64Bound sequence 1)
        (.canonicalEventCursorMalformed "event sequence cannot advance")
      historyPage family maxEvents sequences (envelopes ++ projected)

end Events

/-! ## Resuming -/

section Resume

variable {D : Type} (A : CursorAuthority) (s : PrimaryStore D)

def entries (locator : ChainEventLocator) : List ChainEventCursorAnchor :=
  locator.tip :: locator.ancestors

variable (payload : ChainEventCursorPayload)

/-- The reorg a page leads with when the events that displaced the client's tip are pruned. -/
def syntheticReorg (forkPoint : ChainEventCursorAnchor)
    (currentEpoch : ChainEpoch) (oldestRetainedSequence : Nat) :
    Except CanonicalEventError ChainEventEnvelope := do
  let revertedStart ← okOr (nextHeight forkPoint.height)
    (.canonicalEventCursorMalformed "fork height cannot advance")
  let revertedEpoch ← chainEpochAt s.canonical.db payload.eventSequence
  rejectIf (payload.locator.tip ≠ anchorOf revertedEpoch)
    (.canonicalEventCursorMalformed "cursor tip does not match its historical chain epoch")
  let cursorSequence := oldestRetainedSequence - 1
  let cursor ← mintWalletEventCursorAtAnchor A s.canonical.db payload.family cursorSequence forkPoint
  .ok ⟨cursor, cursorSequence, currentEpoch, currentEpoch.settledTip.height,
    .chainReorged ⟨revertedEpoch, ⟨revertedStart, payload.locator.tip.height⟩⟩
      ⟨currentEpoch, ⟨revertedStart, currentEpoch.visibleTip.height⟩⟩⟩

def nextSequence : Except CanonicalEventError Nat :=
  okOr (checkedAdd u64Bound payload.eventSequence 1)
    (.canonicalEventCursorMalformed "cursor sequence cannot advance")

/-- `wallet_event_resume` once the fork point is known. -/
def resumeAtForkPoint (forkPoint : ChainEventCursorAnchor)
    (currentEpoch : ChainEpoch) (oldestRetainedSequence : Nat) :
    Except CanonicalEventError WalletEventResume :=
  let expired := CanonicalEventError.canonicalEventCursorExpired payload.eventSequence
    oldestRetainedSequence
  if forkPoint = payload.locator.tip then do
    let startSequence ← nextSequence payload
    rejectIf (startSequence < oldestRetainedSequence) expired
    .ok ⟨startSequence, payload.family, none⟩
  else if payload.family = .settled then .error expired
  else if oldestRetainedSequence ≤ payload.eventSequence then do
    let startSequence ← nextSequence payload
    .ok ⟨startSequence, payload.family, none⟩
  else do
    let reorg ← syntheticReorg A s payload forkPoint currentEpoch oldestRetainedSequence
    .ok ⟨oldestRetainedSequence, payload.family, some reorg⟩

def walletEventResume (cursor : Option StreamCursorTokenV1)
    (requestedFamily : ChainEventStreamFamily) (currentEventSequence oldestRetainedSequence : Nat) :
    Except CanonicalEventError WalletEventResume :=
  match cursor with
  | none => .ok ⟨oldestRetainedSequence, requestedFamily, none⟩
  | some cursor => do
    let payload ← decodeCursor A cursor
    rejectIf (payload.eventSequence = 0 ∨ currentEventSequence < payload.eventSequence)
      (.canonicalEventCursorMalformed "cursor sequence is outside canonical history")
    let currentEpoch ← chainEpochAt s.canonical.db s.canonical.readyEvidence.visibleEpoch
    let forkPoint ← okOr ((entries payload.locator).find? (onVisibleChain s.canonical.db))
      (.canonicalEventCursorExpired payload.eventSequence oldestRetainedSequence)
    resumeAtForkPoint A s payload forkPoint currentEpoch oldestRetainedSequence

def walletChainEventHistory (request : ChainEventHistoryRequest) :
    Except CanonicalEventError (List ChainEventEnvelope) := do
  let oldestRetainedSequence ← s.retentionFloor
  let resume ← walletEventResume A s request.fromCursor request.family s.currentEventSequence
    oldestRetainedSequence
  historyPage A s.canonical.db resume.family request.maxEvents
    (List.range' resume.startSequence (s.currentEventSequence + 1 - resume.startSequence))
    resume.syntheticReorg.toList

def resolveWalletChainEventStreamStart (start : EventStreamStartPosition)
    (requestedFamily : ChainEventStreamFamily) :
    Except CanonicalEventError ChainEventStreamResume :=
  match start with
  | .afterCursor cursor => do
    let payload ← decodeCursor A cursor
    rejectIf (requestedFamily ≠ .visible ∧ requestedFamily ≠ payload.family)
      (.canonicalEventCursorMalformed "request family does not match the cursor's encoded family")
    .ok ⟨some cursor, payload.family⟩
  | .earliestRetained => .ok ⟨none, requestedFamily⟩
  | .liveTail =>
    if s.currentEventSequence = 0 then .ok ⟨none, requestedFamily⟩
    else do
      let chainEpoch ← chainEpochAt s.canonical.db s.canonical.readyEvidence.visibleEpoch
      let cursor ← mintWalletEventCursor A s.canonical.db chainEpoch requestedFamily
        s.currentEventSequence
      .ok ⟨some cursor, requestedFamily⟩

end Resume

end Zinder.ChainEvents
