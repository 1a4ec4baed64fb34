import Zinder.Canonical.ArchiveCodec

/-!
# Zinder.Canonical.ArchiveReads

The readers of the displaced-block archive (`displaced_archive.rs`): pages of archived blocks, the
validation of the whole archive when a store is reopened, and the block that was visible at a height
right after an event.

They walk the archive's column family with iterators. `archiveFamily` is that family: the encoded
archive rows in key order.
-/

namespace Zinder.Canonical

open KeyValue OrderedRows BigEndian

/-! ## The column family -/

section Family

variable {D : Type}

def archiveRowBytes : Row (Val D) → Option ByteRow
  | ⟨.displacedState, state⟩ => some (archiveStateKey, encodeArchiveState state)
  | ⟨.displacedOrder position, record⟩ => some (encodeOrderKey position, encodeArchiveRecord record)
  | ⟨.displacedHashPointer hash, position⟩ =>
    some (encodeHashPointerKey hash, encodeHashPointer position)
  | ⟨.displacedEventContext sequence, context⟩ =>
    some (encodeEventContextKey sequence, encodeEventContext context)
  | _ => none

def archiveFamily (db : Db D) : List ByteRow := ordered (db.entries.filterMap archiveRowBytes)

/-- `read_exact_db_row`. -/
def readExactRow (family : List ByteRow) (key : Bytes) : Option Bytes := family.lookup key

end Family

/-! ## Archived blocks -/

structure DisplacedBlockCoinbaseOutput where
  outputIndex : Nat
  valueZat : Nat
  scriptPubKey : Bytes
deriving DecidableEq

structure DisplacedBlock where
  blockHash : BlockHash
  header : BlockHeaderArtifact
  transactionIds : List TransactionId
  coinbaseOutputs : List DisplacedBlockCoinbaseOutput
  rawBlockBytes : Option Bytes
  finalNoteCommitmentRoots : Option BlockFinalNoteCommitmentRoots
  displacementEventSequence : Nat
  displacementEpoch : Nat
  displacedAt : Nat
deriving DecidableEq

section Records

variable {D : Type} [DecidableEq D]

def deriveDisplacedBlock (position : ArchivePosition) (record : ArchiveRecord)
    (facts : CanonicalBlockFacts) : Except CanonicalStoreError DisplacedBlock := do
  let coinbase ← okOr facts.transactions.head?
    (.displacedArchive "archive canonical replay has no first coinbase transaction")
  rejectIf
    (coinbase.publicFacts.isCoinbase = false ∨
      (facts.transactions.drop 1).any (fun t => t.publicFacts.isCoinbase))
    (.displacedArchive "archive canonical replay must have tx[0] as its unique coinbase")
  .ok
    { blockHash := position.blockHash
      header := facts.blockHeader
      transactionIds := facts.transactions.map CanonicalTransactionFacts.transactionId
      coinbaseOutputs := coinbase.transparentOutputs.map fun output =>
        ⟨output.outputIndex, output.valueZat, output.scriptPubKey⟩
      rawBlockBytes := record.rawBlockBytes
      finalNoteCommitmentRoots := record.finalNoteCommitmentRoots
      displacementEventSequence := position.eventSequence
      displacementEpoch := record.displacementEpoch
      displacedAt := record.displacedAt }

variable (E : Env D) (s : RocksDbCanonicalStore D)

def decodeAndValidateRecordWithContext (key encoded : Bytes) (context : ArchiveEventContext) :
    Except CanonicalStoreError DisplacedBlock := do
  let position ← decodeOrderKey key
  rejectIf (position.eventSequence ≠ context.eventSequence)
    (.displacedArchive "archive row event does not match its cached event context")
  let record ← decodeArchiveRecord encoded
  let replay ← (decodeCanonicalBlockReplay E.hash E.replay record.replayBytes).mapError
    (.displacedArchiveReplay "archive canonical replay is invalid")
  let facts := replay.facts
  rejectIf ((encodeCanonicalBlockReplay E.hash E.replay facts).bytes ≠ record.replayBytes)
    (.displacedArchive "archive replay is not the exact canonical encoding")
  rejectIf (facts.height ≠ position.height ∨ facts.blockHash ≠ position.blockHash)
    (.displacedArchive "archive order key height or hash does not match canonical replay")
  rejectIf
    (∃ raw ∈ record.rawBlockBytes, E.hash.serializedBytes raw ≠ facts.serializedBytesDigest)
    (.displacedArchive "archive raw block bytes do not match the replay serialized-block digest")
  rejectIf
    (∃ roots ∈ record.finalNoteCommitmentRoots,
      roots.height ≠ position.height ∨ roots.blockHash ≠ position.blockHash)
    (.displacedArchive "archive final roots height or hash does not match canonical replay")
  rejectIf
    (position.height < context.revertedRange.start ∨
      context.revertedRange.stop < position.height ∨
      record.displacementEpoch ≠ context.displacementEpoch ∨
      record.displacedAt ≠ context.displacedAt)
    (.displacedArchive "archive row does not match its canonical reorg event and epoch")
  deriveDisplacedBlock position record facts

/-! ## Pages -/

def maxPublicPageLimit : Nat := 4096

structure DisplacedBlockPage where
  blocks : List DisplacedBlock
  hasMore : Bool
  nextCursor : Option ArchivePosition
deriving DecidableEq

/-- `decode_and_validate_record_cached`: the context of an event is read once per run of rows. -/
def decodeAndValidateRecordCached (cache : Option ArchiveEventContext) (key encoded : Bytes) :
    Except CanonicalStoreError (DisplacedBlock × Option ArchiveEventContext) := do
  let position ← decodeOrderKey key
  let context ← match cache.filter fun context =>
      context.eventSequence = position.eventSequence with
    | some context => .ok context
    | none => do
      let context ← readEventContext s.db position.eventSequence
      let _ ← validateEventContext s.window context
      .ok context
  let block ← decodeAndValidateRecordWithContext E key encoded context
  .ok (block, some context)

/-- The page loop: at most `count` order rows. -/
def collectPage (E : Env D) (s : RocksDbCanonicalStore D) :
    (count : Nat) → Option ArchiveEventContext → List ByteRow →
      Except CanonicalStoreError (List DisplacedBlock)
  | 0, _, _ => .ok []
  | _ + 1, _, [] => .ok []
  | count + 1, cache, (key, encoded) :: rows =>
    if key.head? ≠ some orderKeyTag then .ok []
    else do
      let (block, cache) ← decodeAndValidateRecordCached E s cache key encoded
      let blocks ← collectPage E s count cache rows
      .ok (block :: blocks)

def pageStart :
    Option ArchivePosition →
      Except CanonicalStoreError (List ByteRow × Option ArchiveEventContext)
  | none => .ok (seekForPrev [hashPointerKeyTag] (archiveFamily s.db), none)
  | some cursor => do
    let key := encodeOrderKey cursor
    let encoded ← okOr (readExactRow (archiveFamily s.db) key)
      (.displacedArchive "archive cursor does not resolve an exact order row")
    let (_, cache) ← decodeAndValidateRecordCached E s none key encoded
    let rows := seekForPrev key (archiveFamily s.db)
    .ok (if (rows.head?.map Prod.fst) = some key then rows.drop 1 else rows, cache)

def pageCursor (blocks : List DisplacedBlock) (hasMore : Bool) : Option ArchivePosition :=
  if hasMore = true then
    blocks.getLast?.map fun block =>
      ⟨block.displacementEventSequence, block.header.height, block.blockHash⟩
  else none

def displacedBlockPage (after : Option ArchivePosition) (limit : Nat) :
    Except CanonicalStoreError DisplacedBlockPage := do
  rejectIf (maxPublicPageLimit < limit)
    (.displacedArchive s!"archive read limit {limit} exceeds {maxPublicPageLimit}")
  match ← readArchiveState s.db s.window with
  | none => do
    rejectIf (after.isSome = true)
      (.displacedArchive "archive cursor cannot resolve in an empty archive")
    .ok ⟨[], false, none⟩
  | some _ => do
    let (rows, cache) ← pageStart E s after
    let found ← collectPage E s (limit + 1) cache rows
    let hasMore := decide (limit < found.length)
    let blocks := found.take limit
    .ok ⟨blocks, hasMore, pageCursor blocks hasMore⟩

/-! ## Validation on reopen -/

def validateLatestHashPointer (family : List ByteRow) (archived : ArchivePosition) :
    Except CanonicalStoreError Unit := do
  let encoded ← okOr (readExactRow family (encodeHashPointerKey archived.blockHash))
    (.displacedArchive "retained displaced block has no newest-hash pointer")
  let pointed ← decodeHashPointer encoded archived.blockHash
  rejectIf (pointed.height ≠ archived.height)
    (.displacedArchive "retained reorg newest-hash pointer changes block height")
  rejectIf (pointed.eventSequence < archived.eventSequence)
    (.displacedArchive "latest retained reorg newest-hash pointer is stale")
  rejectIf (readExactRow family (encodeOrderKey pointed) = none)
    (.displacedArchive "retained reorg newest-hash pointer target row is absent")

/-- The row loop of `validate_latest_event_rows`: the heights observed. -/
def observeEventRows (E : Env D) (family : List ByteRow) (context : ArchiveEventContext) :
    List ByteRow → Except CanonicalStoreError (List Nat)
  | [] => .ok []
  | (key, encoded) :: rows =>
    if key.head? ≠ some orderKeyTag then .ok []
    else do
      let position ← decodeOrderKey key
      if position.eventSequence ≠ context.eventSequence then .ok []
      else do
        let _ ← decodeAndValidateRecordWithContext E key encoded context
        validateLatestHashPointer family position
        let heights ← observeEventRows E family context rows
        .ok (position.height :: heights)

/-- The last order key an event can have. -/
def lastOrderKey (eventSequence : Nat) : Bytes :=
  encodeOrderKey ⟨eventSequence, u32Bound - 1, ⟨List.replicate 32 0xff, List.length_replicate⟩⟩

def validateLatestEventRows (family : List ByteRow) (context : ArchiveEventContext)
    (expectedCount : Nat) : Except CanonicalStoreError Unit := do
  let heights ← observeEventRows E family context
    ((seekForPrev (lastOrderKey context.eventSequence) family).take (expectedCount + 1))
  rejectIf (heights.length ≠ expectedCount ∨ heights ≠ context.revertedRange.heights.reverse)
    (.displacedArchive "archive rows do not exactly cover their retained reorg event")

/-- What the context loop keeps: the first and the latest context, and the blocks counted. -/
structure ArchiveScan where
  first : Option ArchiveEventContext
  latest : Option ArchiveEventContext
  cumulativeBlockCount : Nat

/-- One context row of `validate_permanent_reorg_archive`. -/
def validateContextRow (family : List ByteRow) (window visibleEventSequence : Nat)
    (scan : ArchiveScan) (row : ByteRow) : Except CanonicalStoreError ArchiveScan := do
  rejectIf (row.1.length ≠ 9)
    (.displacedArchive "archive event context key is not exact version-1 bytes")
  let sequence ← readArray 8 row.1 1
  let eventSequence := ofBytes sequence
  rejectIf (eventSequence = 0 ∨ visibleEventSequence < eventSequence)
    (.displacedArchive "archive event context is outside canonical event history")
  let context ← decodeEventContext row.2 eventSequence
  rejectIf (context.displacementEpoch ≠ eventSequence)
    (.displacedArchive "archive event context does not match its displacement epoch")
  let expectedCount ← checkedReorgRangeCount window context.revertedRange
  rejectIf (context.rowCount ≠ expectedCount)
    (.displacedArchive "archive event context row count does not match its reverted range")
  let cumulativeBlockCount ← okOr
    (checkedAdd u64Bound scan.cumulativeBlockCount expectedCount)
    (.displacedArchive "archive cumulative count exceeds u64")
  rejectIf (context.cumulativeBlockCount ≠ cumulativeBlockCount)
    (.displacedArchive "archive event context cumulative count is not contiguous")
  validateLatestEventRows E family context expectedCount
  .ok ⟨some (scan.first.getD context), some context, cumulativeBlockCount⟩

def validatePermanentReorgArchive (db : Db D) (window visibleEventSequence : Nat) :
    Except CanonicalStoreError Unit := do
  let family := archiveFamily db
  let contexts := (seek [eventContextKeyTag] family).takeWhile fun row =>
    row.1.head? = some eventContextKeyTag
  let scan ← loop (validateContextRow E family window visibleEventSequence) ⟨none, none, 0⟩ contexts
  let encodedState := readExactRow family archiveStateKey
  match scan.first, scan.latest with
  | some first, some latest => do
    let encoded ← okOr encodedState
      (.displacedArchive "archive event contexts have no version-1 archive state")
    let state ← decodeArchiveState encoded
    rejectIf
      (state.activationEventSequence ≠ first.eventSequence ∨
        state.activationEpoch ≠ first.displacementEpoch ∨
        state.activatedAt ≠ first.displacedAt ∨
        state.latestEventSequence ≠ latest.eventSequence ∨
        state.blockCount ≠ scan.cumulativeBlockCount)
      (.displacedArchive "archive state does not match its permanent event contexts")
  | _, _ =>
    rejectIf (encodedState ≠ none ∨ family ≠ [])
      (.displacedArchive "archive rows exist without a version-1 archive event context")

/-! ## The block visible after an event -/

/-- The context loop of `first_displaced_block_hash_after_event`. -/
def firstDisplacedBlockHashFrom (family : List ByteRow) (height : Nat) :
    List ByteRow → Except CanonicalStoreError (Option BlockHash)
  | [] => .ok none
  | (key, encoded) :: rows =>
    if key.head? ≠ some eventContextKeyTag then .ok none
    else do
      rejectIf (key.length ≠ 9)
        (.displacedArchive "archive event context key is not exact version-1 bytes")
      let sequence ← readArray 8 key 1
      let contextSequence := ofBytes sequence
      let context ← decodeEventContext encoded contextSequence
      if context.revertedRange.start ≤ height ∧ height ≤ context.revertedRange.stop then do
        let found ← okOr
          (seek (orderKeyTag :: (toBytes 8 contextSequence ++
            (toBytes 4 height ++ List.replicate 32 0))) family).head?
          (.displacedArchive "archive context has no row at a covered historical height")
        let position ← decodeOrderKey found.1
        rejectIf (position.eventSequence ≠ contextSequence ∨ position.height ≠ height)
          (.displacedArchive "archive context does not resolve its covered historical height")
        .ok (some position.blockHash)
      else firstDisplacedBlockHashFrom family height rows

def firstDisplacedBlockHashAfterEvent (db : Db D) (eventSequence height : Nat) :
    Except CanonicalStoreError (Option BlockHash) :=
  match checkedAdd u64Bound eventSequence 1 with
  | none => .ok none
  | some firstLaterSequence =>
    firstDisplacedBlockHashFrom (archiveFamily db) height
      (seek (encodeEventContextKey firstLaterSequence) (archiveFamily db))

end Records

end Zinder.Canonical
