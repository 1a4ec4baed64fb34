import Zinder.Canonical.Reads

/-!
# Zinder.Canonical.Archive

The permanent archive of displaced blocks (`displaced_archive.rs`): the checks on its current
state and the rows one reorg event adds to it.
-/

namespace Zinder.Canonical

open KeyValue List

variable {D : Type} [DecidableEq D]

structure CanonicalDisplacedBlock where
  blockId : BlockId
  replayBytes : Bytes
  rawBlockBytes : Option Bytes
  finalNoteCommitmentRoots : Option BlockFinalNoteCommitmentRoots

structure DisplacedArchiveEvent where
  eventSequence : Nat
  displacementEpoch : Nat
  revertedRange : BlockHeightRange
  displacedAt : Nat

def checkedReorgRangeCount (window : Nat) (range : BlockHeightRange) :
    Except CanonicalStoreError Nat := do
  let difference ← okOr (checkedSub range.stop range.start)
    (.displacedArchive "archive event reverted range is empty")
  let count ← okOr (checkedAdd u32Bound difference 1)
    (.displacedArchive "archive event reverted range is empty")
  rejectIf (window < count)
    (.displacedArchive "archive event reverted range exceeds the admitted reorg window")
  .ok count

def validateEventContext (window : Nat) (context : ArchiveEventContext) :
    Except CanonicalStoreError Nat := do
  rejectIf
    (context.eventSequence = 0 ∨ context.displacementEpoch ≠ context.eventSequence ∨
      context.rowCount = 0 ∨ context.cumulativeBlockCount < context.rowCount)
    (.displacedArchive
      "archive event context sequence, epoch, and row count must be matching nonzero values")
  let expectedCount ← checkedReorgRangeCount window context.revertedRange
  rejectIf (context.rowCount ≠ expectedCount)
    (.displacedArchive "archive event row count does not match its exact reverted range")
  .ok expectedCount

def readEventContext (db : Db D) (sequence : Nat) :
    Except CanonicalStoreError ArchiveEventContext :=
  okOr (db.lookup (Key.displacedEventContext sequence))
    (.displacedArchive "archive event context row is absent")

/-- The checks of `read_archive_state` on a state row that is present. -/
def validateArchiveState (db : Db D) (window : Nat) (state : ArchiveState) :
    Except CanonicalStoreError Unit := do
  rejectIf
    (state.activationEventSequence = 0 ∨
      state.activationEpoch ≠ state.activationEventSequence ∨ state.blockCount = 0 ∨
      state.latestEventSequence < state.activationEventSequence)
    (.displacedArchive
      "archive state activation sequence, epoch, and count must be matching nonzero values")
  let context ← readEventContext db state.activationEventSequence
  let activationCount ← validateEventContext window context
  rejectIf (state.blockCount < activationCount)
    (.displacedArchive "archive state count is smaller than its activation event row count")
  rejectIf
    (state.activationEpoch ≠ context.displacementEpoch ∨ state.activatedAt ≠ context.displacedAt)
    (.displacedArchive
      "archive coverage does not match its canonical activation event and epoch")
  let latest ← readEventContext db state.latestEventSequence
  let _ ← validateEventContext window latest
  rejectIf (latest.cumulativeBlockCount ≠ state.blockCount)
    (.displacedArchive "archive state count is not bound to its latest event context")

def readArchiveState (db : Db D) (window : Nat) :
    Except CanonicalStoreError (Option ArchiveState) :=
  match db.lookup Key.displacedState with
  | none => do
    rejectIf (∃ k ∈ db.keys, k.isArchive = true)
      (.displacedArchive "archive rows exist without version-1 archive state")
    .ok none
  | some state => do
    validateArchiveState db window state
    .ok (some state)

def validateDisplacedWriteBlock (E : Env D) (displaced : CanonicalDisplacedBlock) :
    Except CanonicalStoreError Unit := do
  let replay ← (decodeCanonicalBlockReplay E.hash E.replay displaced.replayBytes).mapError
    (.displacedArchiveReplay "displaced canonical replay is invalid")
  let facts := replay.facts
  rejectIf
    ((encodeCanonicalBlockReplay E.hash E.replay facts).bytes ≠ displaced.replayBytes ∨
      facts.height ≠ displaced.blockId.height ∨ facts.blockHash ≠ displaced.blockId.hash)
    (.displacedArchive "displaced replay is not the exact canonical block identity")
  let coinbase ← okOr facts.transactions.head?
    (.displacedArchive "displaced canonical replay has no coinbase transaction")
  rejectIf
    (coinbase.publicFacts.isCoinbase = false ∨
      (facts.transactions.drop 1).any (fun t => t.publicFacts.isCoinbase))
    (.displacedArchive "displaced canonical replay must have tx[0] as its unique coinbase")
  rejectIf
    (∃ raw ∈ displaced.rawBlockBytes, E.hash.serializedBytes raw ≠ facts.serializedBytesDigest)
    (.displacedArchive "displaced raw block bytes do not match the canonical replay")
  rejectIf
    (∃ roots ∈ displaced.finalNoteCommitmentRoots,
      roots.height ≠ displaced.blockId.height ∨ roots.blockHash ≠ displaced.blockId.hash)
    (.displacedArchive "displaced final roots do not match the canonical replay identity")

def archiveBlockRows (E : Env D) (event : DisplacedArchiveEvent)
    (entry : Nat × CanonicalDisplacedBlock) :
    Except CanonicalStoreError (List (Row (Val D))) := do
  let (expectedHeight, displaced) := entry
  rejectIf (displaced.blockId.height ≠ expectedHeight)
    (.displacedArchive "archive write blocks are not in exact reverted-height order")
  validateDisplacedWriteBlock E displaced
  let position : ArchivePosition :=
    ⟨event.eventSequence, expectedHeight, displaced.blockId.hash⟩
  let record : ArchiveRecord :=
    { replayBytes := displaced.replayBytes
      displacementEpoch := event.displacementEpoch
      displacedAt := event.displacedAt
      rawBlockBytes := displaced.rawBlockBytes
      finalNoteCommitmentRoots := displaced.finalNoteCommitmentRoots }
  rejectIf (u32Bound ≤ displaced.replayBytes.length)
    (.displacedArchive "archive replay length exceeds u32")
  rejectIf (∃ raw ∈ displaced.rawBlockBytes, u32Bound ≤ raw.length)
    (.displacedArchive "archive raw block length exceeds u32")
  .ok [⟨.displacedOrder position, record⟩, ⟨.displacedHashPointer displaced.blockId.hash, position⟩]

def nextArchiveState (prior : Option ArchiveState) (event : DisplacedArchiveEvent)
    (count : Nat) : Except CanonicalStoreError ArchiveState :=
  match prior with
  | some state => do
    let blockCount ← okOr (checkedAdd u64Bound state.blockCount count)
      (.displacedArchive "archive block count exceeds u64")
    .ok { state with blockCount, latestEventSequence := event.eventSequence }
  | none =>
    .ok
      { activationEventSequence := event.eventSequence
        activationEpoch := event.displacementEpoch
        activatedAt := event.displacedAt
        blockCount := count
        latestEventSequence := event.eventSequence }

/-- `PreparedDisplacedArchiveWrite::new`. -/
def prepareDisplacedArchiveWrite (E : Env D) (s : RocksDbCanonicalStore D)
    (event : DisplacedArchiveEvent) (displaced : List CanonicalDisplacedBlock) :
    Except CanonicalStoreError (List (Row (Val D))) := do
  rejectIf (event.eventSequence = 0 ∨ event.displacementEpoch ≠ event.eventSequence)
    (.displacedArchive "archive write sequence and epoch must be matching nonzero values")
  let expectedCount ← checkedReorgRangeCount s.window event.revertedRange
  rejectIf (displaced.length ≠ expectedCount)
    (.displacedArchive "archive write does not exactly cover the reverted range")
  rejectIf (s.db.lookup (Key.displacedEventContext event.eventSequence) ≠ none)
    (.displacedArchive "archive event sequence already exists")
  let prior ← readArchiveState s.db s.window
  rejectIf (∃ state ∈ prior, event.eventSequence ≤ state.latestEventSequence)
    (.displacedArchive "archive event sequence does not advance its latest event")
  let state ← nextArchiveState prior event expectedCount
  let context : ArchiveEventContext :=
    { eventSequence := event.eventSequence
      revertedRange := event.revertedRange
      displacementEpoch := event.displacementEpoch
      displacedAt := event.displacedAt
      rowCount := expectedCount
      cumulativeBlockCount := state.blockCount }
  let blockRows ← collect (archiveBlockRows E event) (event.revertedRange.heights.zip displaced)
  .ok
    (⟨.displacedEventContext event.eventSequence, context⟩ ::
      (blockRows.flatten ++ [⟨.displacedState, state⟩]))

theorem prepareDisplacedArchiveWrite_isArchive {E : Env D} {s : RocksDbCanonicalStore D}
    {event : DisplacedArchiveEvent} {displaced : List CanonicalDisplacedBlock}
    {rows : List (Row (Val D))}
    (h : prepareDisplacedArchiveWrite E s event displaced = .ok rows) {k : Key}
    (hk : k ∈ rows.keys) : k.isArchive = true := by
  simp only [prepareDisplacedArchiveWrite, bind_eq_ok, Unique.exists_iff] at h
  obtain ⟨_, count, _, _, _, prior, _, _, state, _, blockRows, hrows, h⟩ := h
  cases h
  have hblock : ∀ row ∈ blockRows.flatten, row.1.isArchive = true := by
    intro row hrow
    obtain ⟨l, hl, hrow⟩ := mem_flatten.mp hrow
    obtain ⟨entry, _, hentry⟩ := exists_of_mem_collect hrows hl
    simp only [archiveBlockRows, bind_eq_ok, Unique.exists_iff] at hentry
    obtain ⟨_, _, _, _, hentry⟩ := hentry
    cases hentry
    simp only [mem_cons, not_mem_nil, or_false] at hrow
    rcases hrow with rfl | rfl <;> rfl
  simp only [List.keys, map_cons, map_append, mem_cons, mem_append,
    mem_map, map_nil, not_mem_nil, or_false] at hk
  rcases hk with rfl | ⟨row, hrow, rfl⟩ | rfl
  · rfl
  · exact hblock row hrow
  · rfl

end Zinder.Canonical
