import Zinder.Canonical.Reads

/-!
# Zinder.Canonical.Lifecycle

Retained canonical events and the leases that protect them (`event_lifecycle.rs`).

The default column family holds three kinds of rows besides the store control: the retention floor,
the generation counter of leases, and one row per lease. They are kept here next to the canonical
rows, as `LifecycleRows`; a primary store is the two together. Every operation below takes the
lifecycle lock, so operations are atomic and their interleavings are sequences.
-/

namespace Zinder.Canonical

open KeyValue

/-! ## Records -/

structure ProjectionBuildLeaseId where
  bytes : Bytes
  length_eq : bytes.length = 16
deriving DecidableEq

/-- The event and epoch a projection construction is pinned to. -/
structure ProjectionBuildAnchor where
  chainEpochId : Nat
  eventSequence : Nat
deriving DecidableEq

structure ProjectionBuildLease where
  id : ProjectionBuildLeaseId
  generation : Nat
  anchor : ProjectionBuildAnchor
  expiresAt : Nat
deriving DecidableEq

structure ProjectionBuildLeaseValue where
  generation : Nat
  anchor : ProjectionBuildAnchor
  expiresAt : Nat
deriving DecidableEq

def ProjectionBuildLeaseValue.lease (v : ProjectionBuildLeaseValue) (id : ProjectionBuildLeaseId) :
    ProjectionBuildLease :=
  ⟨id, v.generation, v.anchor, v.expiresAt⟩

def ProjectionBuildLease.value (l : ProjectionBuildLease) : ProjectionBuildLeaseValue :=
  ⟨l.generation, l.anchor, l.expiresAt⟩

@[simp] theorem ProjectionBuildLease.value_lease (l : ProjectionBuildLease) :
    l.value.lease l.id = l := rfl

structure LifecycleRows where
  retentionFloor : Option Nat
  leaseGeneration : Option Nat
  leases : Finmap fun _ : ProjectionBuildLeaseId => ProjectionBuildLeaseValue

/-- A primary store: the canonical rows and the lifecycle rows. -/
structure PrimaryStore (D : Type) where
  canonical : RocksDbCanonicalStore D
  lifecycle : LifecycleRows

/-- Errors of the event lifecycle, besides those of the rows it reads. -/
inductive CanonicalEventError where
  | store (e : CanonicalStoreError)
  | canonicalEventCursorMalformed (reason : String)
  | canonicalEventCursorExpired (eventSequence oldestRetainedSequence : Nat)
  | canonicalEventRecordMalformed (eventSequence : Nat) (reason : String)
  | canonicalEventVersionUnsupported (eventSequence : Nat) (version : UInt8)
  | canonicalEpochNotRetained (epochId : Nat)
  | projectionBuildLeaseInvalid (reason : String)
  | projectionBuildLeaseExpired
deriving DecidableEq

/-- A chain epoch, as the reader returns it. The network is the one of the store. -/
structure ChainEpoch where
  id : Nat
  visibleTip : BlockId
  settledTip : BlockId
  tipMetadata : ChainTipMetadata
  createdAt : Nat
deriving DecidableEq

/-- `read_chain_epoch_at`. -/
def chainEpochAt {D : Type} (db : Db D) (epochId : Nat) :
    Except CanonicalEventError ChainEpoch := do
  let record : ChainEpochRecord ← okOr (db.lookup (Key.chainEpoch epochId))
    (.canonicalEpochNotRetained epochId)
  .ok ⟨epochId, record.visibleTip, record.settledTip, record.tipMetadata, record.createdAt⟩

def maxProjectionBuildLeaseDurationMillis : Nat := 24 * 60 * 60 * 1000

def maxLiveProjectionBuildLeases : Nat := 1024

/-! ## Retained events -/

structure CanonicalRetainedEvent (D : Type) where
  eventSequence : Nat
  resultingEpochId : Nat
  previousEpochId : Option Nat
  kind : ChainEventKind
  revertedRange : Option BlockHeightRange
  committedRange : BlockHeightRange
  resultingFence : CanonicalEventFence D
deriving DecidableEq

section Events

variable {D : Type}

/-- `canonical_event_retention_floor_from_db`. -/
def canonicalEventRetentionFloor (rows : LifecycleRows) (currentEventSequence : Nat) :
    Except CanonicalEventError Nat :=
  match rows.retentionFloor with
  | none => .ok 1
  | some floor => do
    rejectIf (floor = 0 ∨ currentEventSequence < floor)
      (.canonicalEventRecordMalformed currentEventSequence
        "retention floor is outside canonical event history")
    .ok floor

/-- `validate_event_range`: an inclusive range, or the empty one anchored at its end. -/
def validateEventRange (eventSequence : Nat) (range : BlockHeightRange)
    (allowAnchoredEmpty : Bool) : Except CanonicalEventError Unit :=
  rejectIf
    (¬ (range.start ≤ range.stop ∨
      allowAnchoredEmpty = true ∧ nextHeight range.stop = some range.start))
    (.canonicalEventRecordMalformed eventSequence
      "event range is neither inclusive nor anchored empty")

def validateEventRecordShape (eventSequence : Nat) (record : ChainEventRecord D) :
    Except CanonicalEventError Unit := do
  match record.revertedRange with
  | none => .ok ()
  | some range => validateEventRange eventSequence range false
  validateEventRange eventSequence record.committedRange true
  rejectIf
    (¬ (record.kind = .committed ∧ record.revertedRange = none ∨
      record.kind = .reorg ∧ 0 < record.previousEpochId ∧ record.revertedRange ≠ none))
    (.canonicalEventRecordMalformed eventSequence "event kind and range presence disagree")

/-- The check of `decode_chain_event` that is left once the shape is known. -/
def validateEventTransition (record : ChainEventRecord D) : Prop :=
  0 < record.resultingEpochId ∧ record.previousEpochId < record.resultingEpochId

instance (record : ChainEventRecord D) : Decidable (validateEventTransition record) :=
  inferInstanceAs (Decidable (_ ∧ _))

/-- `read_retained_event_from_db`. -/
def readRetainedEvent (db : Db D) (eventSequence : Nat) :
    Except CanonicalEventError (CanonicalRetainedEvent D) := do
  let record : ChainEventRecord D ← okOr (db.lookup (Key.chainEvent eventSequence))
    (.canonicalEventRecordMalformed eventSequence "retained event row is absent")
  validateEventRecordShape eventSequence record
  rejectIf (¬ validateEventTransition record)
    (.canonicalEventRecordMalformed eventSequence
      "event record does not satisfy the version-1 transition contract")
  rejectIf
    (record.resultingEpochId ≠ eventSequence ∨ record.previousEpochId ≠ eventSequence - 1)
    (.canonicalEventRecordMalformed eventSequence
      "event sequence and epoch transition disagree")
  .ok
    { eventSequence
      resultingEpochId := record.resultingEpochId
      previousEpochId := if record.previousEpochId = 0 then none else some record.previousEpochId
      kind := record.kind
      revertedRange := record.revertedRange
      committedRange := record.committedRange
      resultingFence :=
        { chainEpochId := record.resultingEpochId
          chainEventSequence := eventSequence
          visibleTip := record.visibleTip
          sequenceDigest := ⟨record.visibleBlockCount, record.visibleSequenceDigest⟩ } }

end Events

/-! ## Leases -/

section Leases

variable {D : Type}

def validateLiveLeaseExpiry (lease : ProjectionBuildLease) (now : Nat) :
    Except CanonicalEventError Unit := do
  rejectIf (lease.expiresAt ≤ now) .projectionBuildLeaseExpired
  rejectIf (maxProjectionBuildLeaseDurationMillis < lease.expiresAt - now)
    (.projectionBuildLeaseInvalid "lease expiry exceeds the maximum duration")

/-- `validate_projection_build_anchor_from_db`. -/
def validateProjectionBuildAnchor (db : Db D) (currentEventSequence retentionFloor : Nat)
    (anchor : ProjectionBuildAnchor) : Except CanonicalEventError Unit := do
  rejectIf
    (anchor.eventSequence < retentionFloor ∨ currentEventSequence < anchor.eventSequence)
    (.projectionBuildLeaseInvalid "anchor event is outside retained canonical history")
  let event ← readRetainedEvent db anchor.eventSequence
  rejectIf (event.resultingEpochId ≠ anchor.chainEpochId)
    (.projectionBuildLeaseInvalid "anchor event does not produce the pinned canonical epoch")

/-- `decode_projection_build_lease`, for the checks on a decoded value. -/
def decodeProjectionBuildLease (id : ProjectionBuildLeaseId) (value : ProjectionBuildLeaseValue) :
    Except CanonicalEventError ProjectionBuildLease := do
  rejectIf (value.generation = 0)
    (.projectionBuildLeaseInvalid "lease generation must be nonzero")
  rejectIf (value.anchor.eventSequence = 0)
    (.canonicalEventCursorMalformed "event sequence must be nonzero")
  .ok (value.lease id)

variable (rows : LifecycleRows)

def readProjectionBuildLease (id : ProjectionBuildLeaseId) :
    Except CanonicalEventError (Option ProjectionBuildLease) :=
  match rows.leases.lookup id with
  | none => .ok none
  | some value => do
    let lease ← decodeProjectionBuildLease id value
    .ok (some lease)

def nextProjectionBuildLeaseGeneration : Except CanonicalEventError Nat := do
  rejectIf (rows.leaseGeneration = some 0)
    (.projectionBuildLeaseInvalid "lease generation singleton must be nonzero")
  okOr (checkedAdd u64Bound (rows.leaseGeneration.getD 0) 1)
    (.projectionBuildLeaseInvalid "projection build lease generation overflow")

/-- Lease keys in the order of the column family. -/
def leaseKeyLe (a b : ProjectionBuildLeaseId) : Prop := a.bytes ≤ b.bytes

instance : DecidableRel leaseKeyLe := fun a b => inferInstanceAs (Decidable (a.bytes ≤ b.bytes))

instance : IsTrans ProjectionBuildLeaseId leaseKeyLe := ⟨fun _ _ _ h h' => List.le_trans h h'⟩

instance : Std.Antisymm leaseKeyLe := ⟨fun a b h h' => by
  have : a.bytes = b.bytes := List.le_antisymm h h'
  cases a
  cases b
  simpa using this⟩

instance : Std.Total leaseKeyLe := ⟨fun a b => List.le_total a.bytes b.bytes⟩

def LifecycleRows.scan : List (ProjectionBuildLeaseId × ProjectionBuildLeaseValue) :=
  (rows.leases.keys.sort leaseKeyLe).filterMap fun id => (rows.leases.lookup id).map (id, ·)

/-- One row of the lease scan: live leases are validated, expired ones are only named. -/
def scanLease (db : Db D) (currentEventSequence : Nat)
    (retentionFloor : Except CanonicalEventError Nat) (now : Nat)
    (found : List ProjectionBuildLease × List ProjectionBuildLeaseId)
    (row : ProjectionBuildLeaseId × ProjectionBuildLeaseValue) :
    Except CanonicalEventError (List ProjectionBuildLease × List ProjectionBuildLeaseId) := do
  let lease ← decodeProjectionBuildLease row.1 row.2
  if lease.expiresAt ≤ now then
    .ok (found.1, found.2 ++ [lease.id])
  else do
    validateLiveLeaseExpiry lease now
    let floor ← retentionFloor
    validateProjectionBuildAnchor db currentEventSequence floor lease.anchor
    .ok (found.1 ++ [lease], found.2)

namespace PrimaryStore

variable (s : PrimaryStore D)

def currentEventSequence : Nat := s.canonical.readyEvidence.visibleEventSequence

/-- `canonical_event_retention_floor`. -/
def retentionFloor : Except CanonicalEventError Nat :=
  canonicalEventRetentionFloor s.lifecycle s.currentEventSequence

def liveProjectionBuildLeaseState (now : Nat) :
    Except CanonicalEventError (List ProjectionBuildLease × List ProjectionBuildLeaseId) :=
  loop (scanLease s.canonical.db s.currentEventSequence s.retentionFloor now) ([], [])
    s.lifecycle.scan

def acquireProjectionBuildLease (lease : ProjectionBuildLease) (now : Nat) :
    Except CanonicalEventError (PrimaryStore D × ProjectionBuildLease) := do
  validateLiveLeaseExpiry lease now
  let (liveLeases, expiredLeaseIds) ← s.liveProjectionBuildLeaseState now
  let existing ← readProjectionBuildLease s.lifecycle lease.id
  rejectIf (∃ held ∈ existing, now < held.expiresAt)
    (.projectionBuildLeaseInvalid "lease identity is already held by a live builder")
  rejectIf (maxLiveProjectionBuildLeases ≤ liveLeases.length)
    (.projectionBuildLeaseInvalid "live projection build lease capacity is exhausted")
  let floor ← s.retentionFloor
  validateProjectionBuildAnchor s.canonical.db s.currentEventSequence floor lease.anchor
  let generation ← nextProjectionBuildLeaseGeneration s.lifecycle
  let lease := { lease with generation }
  .ok
    ({ s with
      lifecycle :=
        { s.lifecycle with
          leaseGeneration := some generation
          leases := (expiredLeaseIds.foldl (fun rows id => rows.erase id) s.lifecycle.leases).insert
            lease.id lease.value } },
      lease)

def renewProjectionBuildLease (lease : ProjectionBuildLease) (now : Nat) :
    Except CanonicalEventError (PrimaryStore D) := do
  validateLiveLeaseExpiry lease now
  let found ← readProjectionBuildLease s.lifecycle lease.id
  let existing ← okOr found (.projectionBuildLeaseInvalid "lease identity is not held")
  rejectIf (existing.expiresAt ≤ now) .projectionBuildLeaseExpired
  rejectIf (existing.anchor ≠ lease.anchor)
    (.projectionBuildLeaseInvalid "lease renewal cannot change its canonical anchor")
  rejectIf (existing.generation ≠ lease.generation)
    (.projectionBuildLeaseInvalid "lease renewal generation does not match the live lease")
  let floor ← s.retentionFloor
  validateProjectionBuildAnchor s.canonical.db s.currentEventSequence floor lease.anchor
  .ok { s with
    lifecycle := { s.lifecycle with leases := s.lifecycle.leases.insert lease.id lease.value } }

def releaseProjectionBuildLease (lease : ProjectionBuildLease) :
    Except CanonicalEventError (PrimaryStore D) := do
  match ← readProjectionBuildLease s.lifecycle lease.id with
  | none => .ok s
  | some existing => do
    rejectIf (existing.generation ≠ lease.generation)
      (.projectionBuildLeaseInvalid "lease release generation does not match the live lease")
    .ok { s with
      lifecycle := { s.lifecycle with leases := s.lifecycle.leases.erase lease.id } }

def activeProjectionBuildLease (id : ProjectionBuildLeaseId) (now : Nat) :
    Except CanonicalEventError (Option ProjectionBuildLease) := do
  let lease ← readProjectionBuildLease s.lifecycle id
  .ok (lease.filter fun l => now < l.expiresAt)

end PrimaryStore

end Leases

/-! ## Pruning -/

/-- Retained-event state after a pruning pass. -/
structure CanonicalEventRetentionReport where
  currentEventSequence : Nat
  oldestRetainedSequence : Nat
  prunedEventCount : Nat
  leaseProtectedAnchor : Option ProjectionBuildAnchor
deriving DecidableEq

/-- `min_by_key` on the event sequence: the first of the smallest. -/
def earliestAnchor : List ProjectionBuildLease → Option ProjectionBuildAnchor
  | [] => none
  | lease :: leases =>
    match earliestAnchor leases with
    | none => some lease.anchor
    | some anchor =>
      if anchor.eventSequence < lease.anchor.eventSequence then some anchor else some lease.anchor

section Prune

variable {D : Type}

namespace PrimaryStore

variable (s : PrimaryStore D)

def pruneCanonicalEventsBefore (requestedOldestSequence now : Nat) :
    Except CanonicalEventError (PrimaryStore D × CanonicalEventRetentionReport) := do
  let current := s.currentEventSequence
  let oldest ← s.retentionFloor
  rejectIf (requestedOldestSequence < oldest ∨ current < requestedOldestSequence)
    (.canonicalEventCursorMalformed
      "requested retention floor is outside retained event history")
  let (liveLeases, expiredLeaseIds) ← s.liveProjectionBuildLeaseState now
  let earliest := earliestAnchor liveLeases
  let retainedFloor := match earliest with
    | none => requestedOldestSequence
    | some anchor => min requestedOldestSequence anchor.eventSequence
  -- the baseline event is never deleted
  let deleted := (List.range' oldest (retainedFloor - oldest)).filter (· ≠ 1)
  .ok
    ({ canonical :=
        { s.canonical with
          db := write (deleted.map fun sequence => Op.delete (Key.chainEvent sequence))
            s.canonical.db }
       lifecycle :=
        { s.lifecycle with
          retentionFloor :=
            if retainedFloor = oldest then s.lifecycle.retentionFloor else some retainedFloor
          leases := expiredLeaseIds.foldl (fun rows id => rows.erase id) s.lifecycle.leases } },
      { currentEventSequence := current
        oldestRetainedSequence := retainedFloor
        prunedEventCount := retainedFloor - max oldest 2
        leaseProtectedAnchor := earliest })

/-- The floor `prune_canonical_events_before_created_at` asks for: the first retained event whose
epoch is not older than the cutoff, or the current event. -/
def requestedFloorAt (cutoff : Nat) : List Nat → Except CanonicalEventError Nat
  | [] => .ok s.currentEventSequence
  | sequence :: rest => do
    let epoch ← (readChainEpoch s.canonical.db sequence).mapError .store
    if cutoff ≤ epoch.createdAt then .ok sequence else requestedFloorAt cutoff rest

def pruneCanonicalEventsBeforeCreatedAt (cutoff now : Nat) :
    Except CanonicalEventError (PrimaryStore D × CanonicalEventRetentionReport) := do
  let floor ← s.retentionFloor
  let requested ← s.requestedFloorAt cutoff
    (List.range' floor (s.currentEventSequence + 1 - floor))
  s.pruneCanonicalEventsBefore requested now

end PrimaryStore

end Prune

end Zinder.Canonical
