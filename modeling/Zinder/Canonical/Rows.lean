import Zinder.Canonical.Block

/-!
# Zinder.Canonical.Rows

The rows one block is stored under.

* `fromBlock` — the checked preparation of the source (`PreparedLiveBlockRows::from_block`).
* `blockRows`, `completedRootRows` — the rows it produces, as plain lists.
* `ownedKeys` — every key a block may own; a replacement deletes exactly these for each block it
  displaces.
-/

namespace Zinder.Canonical

open KeyValue List

variable {D : Type} {E : Env D}

/-! ## Preparation -/

def locationRow (b : CanonicalBuildBlock E) (entry : CanonicalTransactionFacts × Nat) :
    Row (Val D) :=
  ⟨.transactionLocation entry.1.transactionId,
    (⟨entry.1.transactionId, b.height, b.hash, entry.2⟩ : TransactionLocation)⟩

def transactionBlobRow (b : CanonicalBuildBlock E) (entry : TransactionBlobArtifact × Nat) :
    Row (Val D) :=
  ⟨.transactionBlob b.height entry.2, entry.1.rawTransactionBytes⟩

/-- `append_transaction_rows`: one location per transaction, then one row per raw blob. -/
def appendTransactionRows (b : CanonicalBuildBlock E) :
    Except CanonicalStoreError (List (Row (Val D))) := do
  let height := b.height
  rejectIf (u32Bound < b.facts.transactions.length)
    (.liveCommit s!"block {height} transaction count exceeds u32::MAX")
  rejectIf (u32Bound < b.transactionBlobs.length)
    (.liveCommit s!"block {height} transaction blob count exceeds u32::MAX")
  .ok (b.facts.transactions.zipIdx.map (locationRow b) ++
    b.transactionBlobs.zipIdx.map (transactionBlobRow b))

def SubtreeRootArtifact.row (a : SubtreeRootArtifact) : Row (Val D) :=
  ⟨.subtreeRoot a.protocol a.subtreeIndex, a.value⟩

def completedRoot (b : CanonicalBuildBlock E) (root : CanonicalBuildSubtreeRoot) :
    SubtreeRootArtifact :=
  ⟨root.protocol, root.subtreeIndex, ⟨root.rootHash, b.height, b.hash⟩⟩

/-- `PreparedLiveSubtreeRoots::append_to`: the supplied roots must be exactly the expected ones, in
order, each completed at this block. -/
def subtreeRootRows (b : CanonicalBuildBlock E) :
    List (ShieldedProtocol × Nat) → List CanonicalBuildSubtreeRoot →
      Except CanonicalStoreError (List (Row (Val D)))
  | [], [] => .ok []
  | [], extra :: _ =>
    let protocol := extra.protocol.name
    let index := extra.subtreeIndex
    .error (.liveCommit s!"unexpected {protocol} live subtree root at index {index}")
  | (protocol, index) :: _, [] =>
    let protocol := protocol.name
    .error (.liveCommit s!"missing {protocol} live subtree root at index {index}")
  | (protocol, index) :: expected, root :: roots => do
    let height := b.height
    let name := protocol.name
    rejectIf
      (root.protocol ≠ protocol ∨ root.subtreeIndex ≠ index ∨
        root.completingBlockHeight ≠ b.height)
      (.liveCommit
        s!"live subtree root does not match {name} index {index} completed at height {height}")
    let rows ← subtreeRootRows b expected roots
    .ok ((completedRoot b root).row :: rows)

/-- The row of an artifact a block may lack. -/
def optionalRow (k : Key) : Option (Val D k) → List (Row (Val D))
  | some v => [⟨k, v⟩]
  | none => []

def blockBlobRows (b : CanonicalBuildBlock E) : List (Row (Val D)) :=
  optionalRow (.blockBlob b.height) (b.blockBlob.map BlockBlobArtifact.rawBlockBytes)

def checkpointRows (b : CanonicalBuildBlock E) : List (Row (Val D)) :=
  optionalRow (.treeStateCheckpoint b.height)
    (b.treeStateCheckpoint.map fun checkpoint =>
      (checkpoint.blockTimeSeconds, checkpoint.frontiers))

def finalRootsRows (b : CanonicalBuildBlock E) : List (Row (Val D)) :=
  optionalRow (.blockFinalNoteCommitmentRoots b.height) b.blockFinalNoteCommitmentRoots

/-- The rows of the block itself: its identity rows, its transactions, and the optional rows its
store retains. -/
def blockRows (b : CanonicalBuildBlock E) : List (Row (Val D)) :=
  [⟨.blockHeader b.height, b.facts.blockHeader⟩,
    ⟨.blockReplay b.height, b.replayEnvelope.bytes⟩,
    ⟨.compactBlock b.height, b.compactBlock⟩,
    ⟨.blockHashIndex b.hash, b.height⟩] ++
  (b.facts.transactions.zipIdx.map (locationRow b) ++
    b.transactionBlobs.zipIdx.map (transactionBlobRow b)) ++
  blockBlobRows b ++ checkpointRows b ++ finalRootsRows b

def fromBlock (b : CanonicalBuildBlock E) (previousTipMetadata : ChainTipMetadata)
    (subtreeRoots : List CanonicalBuildSubtreeRoot) :
    Except CanonicalStoreError (List (Row (Val D))) := do
  let transactionRows ← appendTransactionRows b
  let ranges ← requiredSubtreeRootRanges previousTipMetadata b.tipMetadata
  let roots ← subtreeRootRows b (ranges.flatMap SubtreeRootRange.indexes) subtreeRoots
  .ok
    ([⟨.blockHeader b.height, b.facts.blockHeader⟩,
      ⟨.blockReplay b.height, b.replayEnvelope.bytes⟩,
      ⟨.compactBlock b.height, b.compactBlock⟩,
      ⟨.blockHashIndex b.hash, b.height⟩] ++ transactionRows ++
      blockBlobRows b ++ checkpointRows b ++ finalRootsRows b ++ roots)

def predecessorRow (plan : CanonicalStoreBuildPlan) : Row (Val D) :=
  ⟨.treeStateCheckpoint plan.historyPredecessor.blockId.height,
    ((plan.historyPredecessor.blockTimeSeconds, plan.historyPredecessor.frontiers) :
      Nat × CommitmentTreeFrontiers)⟩

/-! ## What the preparation produces -/

def CanonicalBuildSubtreeRoot.position (r : CanonicalBuildSubtreeRoot) : ShieldedProtocol × Nat :=
  (r.protocol, r.subtreeIndex)

def completedRootRows (b : CanonicalBuildBlock E) (roots : List CanonicalBuildSubtreeRoot) :
    List (Row (Val D)) :=
  (roots.map (completedRoot b)).map SubtreeRootArtifact.row

variable {b : CanonicalBuildBlock E} {roots : List CanonicalBuildSubtreeRoot}

theorem subtreeRootRows_eq_ok {expected : List (ShieldedProtocol × Nat)}
    {rows : List (Row (Val D))} :
    subtreeRootRows b expected roots = .ok rows ↔
      roots.map CanonicalBuildSubtreeRoot.position = expected ∧
      (∀ r ∈ roots, r.completingBlockHeight = b.height) ∧ rows = completedRootRows b roots := by
  induction expected generalizing roots rows with
  | nil =>
    cases roots with
    | nil => simp [subtreeRootRows, completedRootRows]
    | cons r roots => simp [subtreeRootRows]
  | cons e expected ih =>
    obtain ⟨p, i⟩ := e
    cases roots with
    | nil => simp [subtreeRootRows]
    | cons r roots =>
      simp only [subtreeRootRows, bind_eq_ok, rejectIf_eq_ok, ih, not_or, not_not]
      constructor
      · rintro ⟨_, ⟨hp, hi, hh⟩, _, ⟨hpos, hall, rfl⟩, h⟩
        cases h
        refine ⟨?_, ?_, rfl⟩
        · simp [CanonicalBuildSubtreeRoot.position, hp, hi, ← hpos]
        · simpa [hh] using hall
      · rintro ⟨hpos, hall, rfl⟩
        simp only [map_cons, CanonicalBuildSubtreeRoot.position, List.cons.injEq,
          Prod.mk.injEq] at hpos
        refine ⟨(), ⟨hpos.1.1, hpos.1.2, hall r (by simp)⟩, _, ⟨hpos.2, ?_, rfl⟩, rfl⟩
        exact fun r' hr' => hall r' (by simp [hr'])

theorem fromBlock_eq_ok {previous : ChainTipMetadata} {rows : List (Row (Val D))}
    (h : fromBlock b previous roots = .ok rows) :
    SubtreeMonotone previous b.tipMetadata ∧
      roots.map CanonicalBuildSubtreeRoot.position = completedBetween previous b.tipMetadata ∧
      rows = blockRows b ++ completedRootRows b roots := by
  simp only [fromBlock, bind_eq_ok, subtreeRootRows_eq_ok] at h
  obtain ⟨txRows, htx, ranges, hranges, _, ⟨hpos, _, rfl⟩, h⟩ := h
  obtain ⟨hmono, hindexes⟩ := requiredSubtreeRootRanges_eq_ok hranges
  simp only [appendTransactionRows, bind_eq_ok, rejectIf_eq_ok] at htx
  obtain ⟨_, _, _, _, htx⟩ := htx
  cases htx
  cases h
  exact ⟨hmono, by rw [hpos, hindexes], by simp [blockRows]⟩

theorem fromBlock_ok {previous : ChainTipMetadata}
    (htransactions : b.facts.transactions.length ≤ u32Bound)
    (hblobs : b.transactionBlobs.length ≤ u32Bound) (hmono : SubtreeMonotone previous b.tipMetadata)
    (hroots : roots.map CanonicalBuildSubtreeRoot.position =
      completedBetween previous b.tipMetadata)
    (hheights : ∀ r ∈ roots, r.completingBlockHeight = b.height) :
    fromBlock b previous roots = .ok (blockRows b ++ completedRootRows b roots) := by
  obtain ⟨ranges, hranges⟩ := requiredSubtreeRootRanges_of_monotone hmono
  have hindexes := (requiredSubtreeRootRanges_eq_ok hranges).2
  simp only [fromBlock, bind_eq_ok, subtreeRootRows_eq_ok, appendTransactionRows, rejectIf_eq_ok,
    not_lt]
  refine ⟨_, ⟨(), htransactions, (), hblobs, rfl⟩, ranges, hranges, _,
    ⟨by rw [hroots, hindexes], hheights, rfl⟩, ?_⟩
  simp [blockRows]

/-! ## Keys -/

def blockKeys (height : Nat) (hash : BlockHash) (ids : List TransactionId) : List Key :=
  [.blockHeader height, .blockReplay height, .compactBlock height, .blockHashIndex hash] ++
    (ids.map Key.transactionLocation ++
      (List.range ids.length).map (Key.transactionBlob height)) ++
    [.blockBlob height, .treeStateCheckpoint height, .blockFinalNoteCommitmentRoots height]

def subtreeKey (position : ShieldedProtocol × Nat) : Key :=
  .subtreeRoot position.1 position.2

def CanonicalBuildBlock.transactionIds (b : CanonicalBuildBlock E) : List TransactionId :=
  b.facts.transactions.map CanonicalTransactionFacts.transactionId

theorem mem_blockKeys {height : Nat} {hash : BlockHash} {ids : List TransactionId} {k : Key} :
    k ∈ blockKeys height hash ids ↔
      match k with
      | .blockHeader h | .blockReplay h | .compactBlock h | .blockBlob h
      | .treeStateCheckpoint h | .blockFinalNoteCommitmentRoots h => h = height
      | .blockHashIndex x => x = hash
      | .transactionLocation t => t ∈ ids
      | .transactionBlob h i => h = height ∧ i < ids.length
      | _ => False := by
  cases k <;> simp [blockKeys]
  · exact ⟨fun ⟨hi, hh⟩ => ⟨hh.symm, hi⟩, fun ⟨hh, hi⟩ => ⟨hi, hh.symm⟩⟩

theorem locationRows_keys (b : CanonicalBuildBlock E) :
    (b.facts.transactions.zipIdx.map (locationRow b)).keys =
      b.transactionIds.map Key.transactionLocation := by
  have h := congrArg (List.map fun t => Key.transactionLocation t.transactionId)
    (zipIdx_map_fst 0 b.facts.transactions)
  rw [map_map] at h
  simp only [List.keys, map_map, CanonicalBuildBlock.transactionIds]
  exact h

theorem transactionBlobRows_keys (b : CanonicalBuildBlock E) :
    (b.transactionBlobs.zipIdx.map (transactionBlobRow b)).keys =
      (List.range b.transactionBlobs.length).map (Key.transactionBlob b.height) := by
  have h := congrArg (List.map (Key.transactionBlob b.height))
    (zipIdx_map_snd 0 b.transactionBlobs)
  rw [map_map, ← range_eq_range'] at h
  simp only [List.keys, map_map]
  exact h

theorem optionalRow_keys_sublist (k : Key) (v : Option (Val D k)) :
    (optionalRow k v).keys.Sublist [k] := by
  cases v <;> simp [optionalRow]

/-- A block never has a row outside its keys, and each of its keys carries at most one row. -/
theorem blockRows_keys_sublist (b : CanonicalBuildBlock E)
    (hblobs : b.transactionBlobs.length ≤ b.facts.transactions.length) :
    (blockRows b).keys.Sublist (blockKeys b.height b.hash b.transactionIds) := by
  have hids : b.transactionIds.length = b.facts.transactions.length := by
    simp [CanonicalBuildBlock.transactionIds]
  have htx : (b.facts.transactions.zipIdx.map (locationRow b) ++
      b.transactionBlobs.zipIdx.map (transactionBlobRow b)).keys.Sublist
      (b.transactionIds.map Key.transactionLocation ++
        (List.range b.transactionIds.length).map (Key.transactionBlob b.height)) := by
    rw [keys_append, locationRows_keys, transactionBlobRows_keys]
    refine List.Sublist.append_left ?_ _
    exact (range_sublist.mpr (by omega)).map _
  have hopt : (blockBlobRows b ++ checkpointRows b ++ finalRootsRows b).keys.Sublist
      [.blockBlob b.height, .treeStateCheckpoint b.height,
        .blockFinalNoteCommitmentRoots b.height] := by
    simp only [keys_append]
    exact ((optionalRow_keys_sublist _ _).append (optionalRow_keys_sublist _ _)).append
      (optionalRow_keys_sublist _ _)
  have := (List.Sublist.refl ([.blockHeader b.height, .blockReplay b.height,
    .compactBlock b.height, .blockHashIndex b.hash] : List Key)).append (htx.append hopt)
  simpa [blockRows, blockKeys] using this

theorem rootRows_keys (roots : List SubtreeRootArtifact) :
    (roots.map (SubtreeRootArtifact.row (D := D))).keys =
      (roots.map SubtreeRootArtifact.position).map subtreeKey := by
  simp [List.keys, SubtreeRootArtifact.row, SubtreeRootArtifact.position, subtreeKey,
    Function.comp_def]

theorem completedRoots_positions (b : CanonicalBuildBlock E)
    (roots : List CanonicalBuildSubtreeRoot) :
    (roots.map (completedRoot b)).map SubtreeRootArtifact.position =
      roots.map CanonicalBuildSubtreeRoot.position := by
  rw [map_map]
  rfl

end Zinder.Canonical
