import Zinder.Canonical.CommitProgress

/-!
# Zinder.Canonical.ReplacementProgress

When a live replacement succeeds: `commitLiveReplacement_ok`. The new blocks follow the tree state
at the last block kept, the displaced blocks can be archived, and the counters have room.
-/

namespace Zinder.Canonical

open KeyValue List

variable {D : Type} [DecidableEq D] {E : Env D}

/-! ## The new suffix -/

section Suffix

variable {activations : NetworkUpgradeActivations} {retention : RawBlobRetention}
  {parent : CommitmentTreeCheckpoint} {blocks : List (CanonicalReplacementBlock E)}

/-- The store carries one accumulator from block to block. It is the one seeded from the checkpoint
of the block before, so each block is checked as if it were appended. -/
theorem SuffixFollows.validate_loop {s : RocksDbCanonicalStore D}
    (hworkload : s.workload = .wallet)
    (h : SuffixFollows activations .wallet s.buildPlan.rawBlobRetention parent blocks)
    {accumulator : CommitmentTreeAccumulator E.trees}
    (hseeded : CommitmentTreeAccumulator.fromValidatedFrontiers E.trees parent.blockId.height
      parent.frontiers activations = .ok accumulator) :
    ∃ final, loop (validateReplacementBlock s) (parent.blockId, accumulator) blocks =
      .ok final := by
  induction blocks generalizing parent accumulator with
  | nil => exact ⟨_, rfl⟩
  | cons r blocks ih =>
    obtain ⟨checkpoint, hfollows, hrest⟩ := h
    obtain ⟨commitments, seeded, appended, rooted, hcommitments, hseed, happended, hfrontiers,
      hsizes, hreseed⟩ := hfollows.trees
    cases hseeded.symm.trans hseed
    have hid := hfollows.checkpoint_blockId
    rw [← CanonicalBuildBlock.blockId_height, ← hid] at hreseed
    obtain ⟨final, hfinal⟩ := ih hrest hreseed
    refine ⟨final, loop_cons_eq_ok.mpr ⟨(checkpoint.blockId, rooted), ?_, hfinal⟩⟩
    have hheight := hfollows.height
    have hlt := r.block.height_lt
    simp only [validateReplacementBlock, appendCompactCommitments, bind_eq_ok, okOr_eq_ok,
      nextHeight_eq_some, rejectIf_eq_ok, not_or, not_not, mapError_ok_iff]
    refine ⟨(), by rw [hworkload]; exact hfollows.valid, _, ⟨by omega, rfl⟩, (),
      ⟨hheight, hfollows.parentHash⟩, appended, ⟨commitments, hcommitments _, happended⟩,
      checkpoint, hfollows.checkpoint_eq, (checkpoint.frontiers, rooted), hfrontiers, (),
      ⟨hid, hfollows.checkpoint_tipMetadata, rfl, hsizes⟩, by rw [hid]⟩

theorem SuffixFollows.linked (h : SuffixFollows activations .wallet retention parent blocks) :
    Linked parent.blockId (blocks.map CanonicalReplacementBlock.visible) := by
  induction blocks generalizing parent with
  | nil => trivial
  | cons r blocks ih =>
    obtain ⟨checkpoint, hfollows, hrest⟩ := h
    have hlinked := ih hrest
    rw [hfollows.checkpoint_blockId] at hlinked
    exact ⟨hfollows.height, hfollows.parentHash, hlinked⟩

theorem SuffixFollows.rows_ok (h : SuffixFollows activations .wallet retention parent blocks) :
    ∃ rows, prepareReplacementRows parent.tipMetadata blocks = .ok rows := by
  induction blocks generalizing parent with
  | nil => exact ⟨[], rfl⟩
  | cons r blocks ih =>
    obtain ⟨checkpoint, hfollows, hrest⟩ := h
    obtain ⟨rows, hrows⟩ := ih hrest
    rw [hfollows.checkpoint_tipMetadata] at hrows
    exact ⟨r.visible.rows :: rows, by
      simp only [prepareReplacementRows, bind_eq_ok]
      exact ⟨_, hfollows.rows, rows, hrows, rfl⟩⟩

omit [DecidableEq D] in
theorem replacement_sequence_ok {start : BlockId} {chain : Chain E} {countError bytesError : String}
    (hlinked : Linked start (chain ++ blocks.map CanonicalReplacementBlock.visible))
    (hbytes : replayTotal (chain ++ blocks.map CanonicalReplacementBlock.visible) < u64Bound) :
    loop (fun checkpoint (r : CanonicalReplacementBlock E) =>
        appendToSequence checkpoint r.block countError bytesError)
      (sequenceSummary start chain) blocks =
        .ok (sequenceSummary start (chain ++ blocks.map CanonicalReplacementBlock.visible)) := by
  induction blocks generalizing chain with
  | nil => simp
  | cons r blocks ih =>
    have hsplit : chain ++ (r :: blocks).map CanonicalReplacementBlock.visible =
        (chain ++ [r.visible]) ++ blocks.map CanonicalReplacementBlock.visible := by simp
    rw [hsplit] at hlinked hbytes ⊢
    refine loop_cons_eq_ok.mpr ⟨_, ?_, ih hlinked hbytes⟩
    have hlength := (linked_append.mp hlinked).1.length_lt
    have hu : u32Bound < u64Bound := by decide
    have hone : replayTotal (chain ++ [r.visible]) = replayTotal chain + r.block.replayBytes := by
      rw [replayTotal_append]
      simp [replayTotal, CanonicalReplacementBlock.visible]
    rw [replayTotal_append, hone] at hbytes
    rw [length_append, length_singleton] at hlength
    refine appendToSequence_eq_ok.mpr ⟨?_, ?_, ?_, sequenceSummary_concat _ _ _⟩
    · simp only [sequenceSummary, CanonicalBlockFactsSequenceDigest.blockCount_ofItems,
        length_map]
      omega
    · simp only [sequenceSummary]
      omega
    · have : (sequenceSummary start chain).logicalReplayBytes = replayTotal chain := rfl
      rw [this]
      omega

end Suffix

/-! ## The displaced blocks -/

section OptionalRows

omit [DecidableEq D]

theorem mem_optionalRow {k k' : Key} {v : Option (Val D k')} {x : Val D k} :
    (⟨k, x⟩ : Row (Val D)) ∈ optionalRow k' v ↔
      ∃ y, v = some y ∧ (⟨k, x⟩ : Row (Val D)) = ⟨k', y⟩ := by
  cases v <;> simp [optionalRow]

theorem mem_blockRows_blob {b : CanonicalBuildBlock E} {x : Bytes} :
    (⟨.blockBlob b.height, x⟩ : Row (Val D)) ∈ blockRows b ↔
      b.blockBlob.map BlockBlobArtifact.rawBlockBytes = some x := by
  simp [blockRows, blockBlobRows, checkpointRows, finalRootsRows, mem_optionalRow, locationRow,
    transactionBlobRow]

theorem mem_blockRows_finalRoots {b : CanonicalBuildBlock E} {x : BlockFinalNoteCommitmentRoots} :
    (⟨.blockFinalNoteCommitmentRoots b.height, x⟩ : Row (Val D)) ∈ blockRows b ↔
      b.blockFinalNoteCommitmentRoots = some x := by
  simp [blockRows, blockBlobRows, checkpointRows, finalRootsRows, mem_optionalRow, locationRow,
    transactionBlobRow]

variable {plan : CanonicalStoreBuildPlan} {earlier : List SubtreeRootArtifact} {chain : Chain E}
  {db : Db D}

theorem Linked.eq_of_height {start : BlockId} (h : Linked start chain) {v w : VisibleBlock E}
    (hv : v ∈ chain) (hw : w ∈ chain) (heq : v.block.height = w.block.height) : v = w := by
  obtain ⟨i, hi⟩ := mem_iff_getElem?.mp hv
  obtain ⟨j, hj⟩ := mem_iff_getElem?.mp hw
  have hvi := h.height_of_getElem? hi
  have hwj := h.height_of_getElem? hj
  obtain rfl : i = j := by omega
  exact Option.some.inj (hi.symm.trans hj)

variable {v : VisibleBlock E}

section

variable (h : HoldsChain plan earlier chain db) (hv : v ∈ chain)
include h hv

theorem HoldsChain.lookup_eq_some_iff {k : Key} (hk : k.height? = some v.block.height)
    {x : Val D k} :
    db.lookup k = some x ↔ (⟨k, x⟩ : Row (Val D)) ∈ blockRows v.block := by
  have hheight : k.IsHeightKey := by
    simp [Key.IsHeightKey, hk]
  have hroots : ∀ roots : List SubtreeRootArtifact,
      (⟨k, x⟩ : Row (Val D)) ∉ roots.map SubtreeRootArtifact.row := by
    intro roots hmem
    obtain ⟨a, _, ha⟩ := mem_map.mp hmem
    have hkey : Key.subtreeRoot a.protocol a.subtreeIndex = k := congrArg Sigma.fst ha
    rw [← hkey] at hk
    cases hk
  constructor
  · intro hlookup
    have hrow : (⟨k, x⟩ : Row (Val D)) ∈ storedRows plan earlier chain := by
      rw [h.rows k hheight] at hlookup
      exact of_mem_dlookup hlookup
    rw [storedRows, mem_cons, mem_append] at hrow
    rcases hrow with hpre | hroot | hblock
    · have hkey : k = .treeStateCheckpoint plan.historyPredecessor.blockId.height :=
        congrArg Sigma.fst hpre
      have hlt := h.linked.lt_height hv
      rw [hkey] at hk
      simp only [Key.height?, Option.some.injEq] at hk
      omega
    · exact (hroots _ hroot).elim
    · obtain ⟨w, hw, hrow⟩ := mem_flatMap.mp hblock
      have howned := (rows_keys_sublist (h.admitted w hw)).subset
        (mem_map_of_mem (f := Sigma.fst) hrow)
      obtain rfl := h.linked.eq_of_height hw hv (height_of_mem_ownedKeys howned hk)
      rcases mem_append.mp hrow with hrow | hrow
      · exact hrow
      · exact (hroots _ hrow).elim
  · intro hrow
    exact h.lookup_row hv hrow hheight

theorem HoldsChain.lookup_blockBlob : db.lookup (Key.blockBlob v.block.height) =
      v.block.blockBlob.map BlockBlobArtifact.rawBlockBytes := by
  refine Option.ext fun x => ?_
  rw [h.lookup_eq_some_iff hv rfl]
  exact mem_blockRows_blob

theorem HoldsChain.lookup_finalRoots :
    db.lookup (Key.blockFinalNoteCommitmentRoots v.block.height) =
      v.block.blockFinalNoteCommitmentRoots := by
  refine Option.ext fun x => ?_
  rw [h.lookup_eq_some_iff hv rfl]
  exact mem_blockRows_finalRoots

end

end OptionalRows

/-- What the archive relies on and the store does not check: the replay envelope encodes the block's
own facts, the first transaction is the only coinbase, and a block is smaller than four gigabytes. -/
structure Archivable (v : VisibleBlock E) : Prop where
  own : v.block.OwnEnvelope
  coinbase : ∃ c rest, v.block.facts.transactions = c :: rest ∧ c.publicFacts.isCoinbase = true ∧
    ∀ t ∈ rest, t.publicFacts.isCoinbase = false
  replayBytes_lt : v.block.replayBytes < u32Bound
  raw_lt : ∀ blob ∈ v.block.blockBlob, blob.rawBlockBytes.length < u32Bound
  transactions_le : v.block.facts.transactions.length ≤ u32Bound

omit [DecidableEq D] in
theorem plainBlock_archivable {v : VisibleBlock E} {height : U32} {hash parent id : UInt8}
    (hblock : v.block = plainBlock E (plainFacts height hash parent id))
    (hbytes : v.block.replayBytes < u32Bound) : Archivable v := by
  refine ⟨?_, ⟨plainCoinbase (repeatedByte id), [], ?_, rfl, by simp⟩, hbytes, ?_, ?_⟩
  · rw [hblock]
    rfl
  · rw [hblock]
    rfl
  · rw [hblock]
    simp [plainBlock]
  · rw [hblock]
    simp [plainBlock, plainFacts, u32Bound]

def VisibleBlock.displaced (v : VisibleBlock E) : CanonicalDisplacedBlock :=
  { blockId := v.block.blockId
    replayBytes := v.block.replayEnvelope.bytes
    rawBlockBytes := v.block.blockBlob.map BlockBlobArtifact.rawBlockBytes
    finalNoteCommitmentRoots := none }

variable {retention : RawBlobRetention}

theorem validateBlock_optional {b : CanonicalBuildBlock E}
    {tip : Nat} (h : validateBlock .wallet retention b tip = .ok ()) :
    b.blockFinalNoteCommitmentRoots = none ∧
      b.blockBlob.isSome = retention.retainsBlockBlobs ∧
      ∀ blob ∈ b.blockBlob,
        E.hash.serializedBytes blob.rawBlockBytes = b.facts.serializedBytesDigest := by
  simp only [validateBlock, bind_eq_ok, Unique.exists_iff] at h
  obtain ⟨_, _, _, _, hblob, _, hroots⟩ := h
  refine ⟨?_, ?_⟩
  · cases hr : b.blockFinalNoteCommitmentRoots with
    | none => rfl
    | some roots => simp [validateBlockFinalNoteCommitmentRoots, hr] at hroots
  · simp only [validateBlockBlob] at hblob
    split at hblob
    · cases hblob
    · cases hblob
    · next hretains hb =>
      simp only [bind_eq_ok, rejectIf_eq_ok, not_or, not_not] at hblob
      obtain ⟨_, _, hdigest⟩ := hblob
      refine ⟨by simp [hretains, hb], fun blob hmem => ?_⟩
      cases hb.symm.trans hmem
      exact hdigest
    · next hretains hb => exact ⟨by simp [hretains, hb], by simp [hb]⟩

variable {r : CanonicalLiveReplacement E} {activations : NetworkUpgradeActivations}
  {s : RocksDbCanonicalStore D} {chain : Chain E} {p : PreparedLiveReplacement D} {k n : Nat}
  {st : LiveState E}

omit [DecidableEq D] in
theorem replayBytes_le_total {v : VisibleBlock E} (hv : v ∈ chain) :
    v.block.replayBytes ≤ replayTotal chain := by
  obtain ⟨a, b, rfl⟩ := append_of_mem hv
  rw [replayTotal_append]
  simp only [replayTotal, map_cons, sum_cons]
  omega

section Displaced

variable {v : VisibleBlock E}

section

variable (ready : StoreReady st) (inv : LiveInvariant st k)
  (hbytes : replayTotal st.chain < u64Bound)
include ready inv hbytes

theorem StoreReady.capture_ok (hv : v ∈ st.chain) :
    captureDisplacedBlock E st.store v.block.height = .ok v.displaced := by
  obtain ⟨tip, hvalid⟩ := ready.valid v hv
  obtain ⟨hroots, hblob, _⟩ := validateBlock_optional hvalid
  obtain ⟨facts, _, hhash, _, _, hreads⟩ := inv.holds.readPersistedReplay_eq_ok hv
  have hread := (hreads _).mpr ⟨(replayBytes_le_total hv).trans_lt hbytes, rfl⟩
  have hraw : (v.block.blockBlob.map BlockBlobArtifact.rawBlockBytes).isSome =
      st.store.buildPlan.rawBlobRetention.retainsBlockBlobs := by
    rw [Option.isSome_map, hblob]
  simp only [captureDisplacedBlock, inv.holds.lookup_replay hv, okOr_some, ok_bind, hread,
    hhash, inv.holds.lookup_blockBlob hv, inv.holds.lookup_finalRoots hv, hroots, ready.workload]
  rw [rejectIf_of_not (not_not.mpr hraw)]
  rfl

theorem StoreReady.captures_ok :
    captureDisplacedBlocks E st.store
      ⟨st.start.height + n + 1, st.start.height + st.chain.length⟩ =
        .ok ((st.chain.drop n).map VisibleBlock.displaced) := by
  rw [captureDisplacedBlocks, ← inv.linked.drop_heights n, collect_eq_ok, List.forall₂_map_left_iff,
    List.forall₂_map_right_iff]
  exact List.forall₂_same.mpr fun v hv =>
    ready.capture_ok inv hbytes (mem_of_mem_drop hv)

end

theorem StoreReady.subtreeMonotone (ready : StoreReady st) {i j : Nat} {v w : VisibleBlock E}
    (hij : i ≤ j) (hv : st.chain[i]? = some v) (hw : st.chain[j]? = some w) :
    SubtreeMonotone v.block.tipMetadata w.block.tipMetadata := by
  obtain ⟨d, rfl⟩ := Nat.exists_eq_add_of_le hij
  clear hij
  induction d generalizing w with
  | zero =>
    cases hv.symm.trans hw
    exact SubtreeMonotone.refl _
  | succ d ih =>
    have hlt : i + (d + 1) < st.chain.length := (List.getElem?_eq_some_iff.mp hw).1
    have hmid : st.chain[i + d]? = some st.chain[i + d] := getElem?_eq_getElem (by omega)
    have hstep := isChain_iff_getElem.mp ready.advance (i + d) hlt
    have hlast : st.chain[i + d + 1] = w := (List.getElem?_eq_some_iff.mp hw).2
    rw [hlast] at hstep
    exact (ih hmid).trans hstep

theorem StoreReady.deletions_ok (ready : StoreReady st) (inv : LiveInvariant st k)
    (hbytes : replayTotal st.chain < u64Bound) (harchivable : ∀ v ∈ st.chain.drop n, Archivable v)
    {v w : VisibleBlock E} (hn : 0 < n) (hlt : n < st.chain.length) (hv : st.chain[n - 1]? = some v)
    (hw : st.chain[st.chain.length - 1]? = some w) :
    ∃ dels, prepareCanonicalDeletions E st.store
      ⟨st.start.height + n + 1, st.start.height + st.chain.length⟩ v.block.tipMetadata
      w.block.tipMetadata ((st.chain.drop n).map VisibleBlock.displaced) = .ok dels := by
  obtain ⟨ranges, hranges⟩ := requiredSubtreeRootRanges_of_monotone
    (ready.subtreeMonotone (by omega) hv hw)
  have hblocks : collect (prepareBlockDeletions E st.store)
      (((st.chain.drop n).map fun v => v.block.height).zip
        ((st.chain.drop n).map VisibleBlock.displaced)) =
      .ok ((st.chain.drop n).map fun v =>
        blockDeletions v.block.height v.block.hash v.block.transactionIds) := by
    rw [zip_map', collect_eq_ok, List.forall₂_map_left_iff, List.forall₂_map_right_iff]
    refine List.forall₂_same.mpr fun u hu => ?_
    have hmem := mem_of_mem_drop hu
    obtain ⟨facts, _, _, _, hown, hreads⟩ := inv.holds.readPersistedReplay_eq_ok hmem
    obtain rfl := hown (harchivable u hu).own
    have hread := (hreads _).mpr ⟨(replayBytes_le_total hmem).trans_lt hbytes, rfl⟩
    simp only [prepareBlockDeletions, hread, ok_bind, bind_eq_ok, rejectIf_eq_ok, not_not, not_lt]
    exact ⟨(), rfl, (), (harchivable u hu).transactions_le, rfl⟩
  simp only [prepareCanonicalDeletions, ← inv.linked.drop_heights n, bind_eq_ok]
  exact ⟨_, _, hblocks, ranges, hranges, rfl⟩

theorem Archivable.write_ok {tip : Nat}
    (h : Archivable v) (hvalid : validateBlock .wallet retention v.block tip = .ok ()) :
    validateDisplacedWriteBlock E v.displaced = .ok () := by
  obtain ⟨c, rest, htransactions, hcoinbase, hrest⟩ := h.coinbase
  obtain ⟨_, _, hraw⟩ := validateBlock_optional hvalid
  have hbytes := congrArg ReplayFields.bytes h.own
  have hdecode : decodeCanonicalBlockReplay E.hash E.replay v.displaced.replayBytes =
      .ok ⟨E.hash.digest v.block.facts, v.block.facts⟩ := by
    simp only [VisibleBlock.displaced, hbytes]
    exact decodeCanonicalBlockReplay_encode _
  simp only [validateDisplacedWriteBlock, hdecode, Except.mapError, ok_bind, bind_eq_ok,
    rejectIf_eq_ok, not_or, not_not, okOr_eq_ok]
  refine ⟨(), ⟨hbytes.symm, rfl, rfl⟩, c, by rw [htransactions]; rfl, (), ⟨?_, ?_⟩, (), ?_, ?_⟩
  · simp [hcoinbase]
  · rw [htransactions]
    simpa using hrest
  · rintro ⟨raw, hmem, hne⟩
    obtain ⟨blob, hblob, rfl⟩ := Option.map_eq_some_iff.mp hmem
    exact hne (hraw blob hblob)
  · simp [VisibleBlock.displaced]

def VisibleBlock.archivedRows (event : DisplacedArchiveEvent) (v : VisibleBlock E) :
    List (Row (Val D)) :=
  [⟨.displacedOrder ⟨event.eventSequence, v.block.height, v.block.hash⟩,
      ({ replayBytes := v.displaced.replayBytes
         displacementEpoch := event.displacementEpoch
         displacedAt := event.displacedAt
         rawBlockBytes := v.displaced.rawBlockBytes
         finalNoteCommitmentRoots := none } : ArchiveRecord)⟩,
    ⟨.displacedHashPointer v.block.hash,
      (⟨event.eventSequence, v.block.height, v.block.hash⟩ : ArchivePosition)⟩]

theorem Archivable.rows_ok {tip : Nat}
    (h : Archivable v) (hvalid : validateBlock .wallet retention v.block tip = .ok ())
    (event : DisplacedArchiveEvent) :
    archiveBlockRows E event (v.block.height, v.displaced) = .ok (v.archivedRows event) := by
  simp only [archiveBlockRows, bind_eq_ok, rejectIf_eq_ok, not_not, not_le]
  refine ⟨(), rfl, (), h.write_ok hvalid, (), h.replayBytes_lt, (), ?_, rfl⟩
  rintro ⟨raw, hmem, hle⟩
  obtain ⟨blob, hblob, rfl⟩ := Option.map_eq_some_iff.mp hmem
  have := h.raw_lt blob hblob
  omega

theorem StoreReady.archive_ok (ready : StoreReady st)
    (inv : LiveInvariant st k) (hlt : n < st.chain.length)
    (hwindow : st.chain.length - n ≤ st.store.window)
    (harchivable : ∀ v ∈ st.chain.drop n, Archivable v)
    (hcount : ∀ state : ArchiveState, st.store.db.lookup Key.displacedState = some state →
      state.blockCount + (st.chain.length - n) < u64Bound) (event : DisplacedArchiveEvent)
    (hsequence : event.eventSequence = st.store.readyEvidence.visibleEpoch + 1)
    (hepoch : event.displacementEpoch = event.eventSequence)
    (hevent : event.revertedRange =
      ⟨st.start.height + n + 1, st.start.height + st.chain.length⟩) :
    ∃ context state, prepareDisplacedArchiveWrite E st.store event
      ((st.chain.drop n).map VisibleBlock.displaced) =
        .ok (⟨.displacedEventContext event.eventSequence, context⟩ ::
          ((st.chain.drop n).flatMap (VisibleBlock.archivedRows event) ++
            [⟨.displacedState, state⟩])) := by
  have hheights : event.revertedRange.heights =
      (st.chain.drop n).map fun v => v.block.height := by
    rw [hevent, inv.linked.drop_heights n]
  have hfence := inv.fence
  have hlength := inv.linked.length_lt
  obtain ⟨prior, hprior, hlatest⟩ := ready.archive.readable
  have hrange : checkedReorgRangeCount st.store.window event.revertedRange =
      .ok (st.chain.length - n) := by
    rw [hevent]
    refine checkedReorgRangeCount_eq_ok.mpr ⟨?_, ?_, ?_, ?_⟩ <;> simp only <;> omega
  obtain ⟨state, hstate⟩ : ∃ state,
      nextArchiveState prior event (st.chain.length - n) = .ok state := by
    cases prior with
    | none => exact ⟨_, rfl⟩
    | some p =>
      have hp : st.store.db.lookup Key.displacedState = some p :=
        (readArchiveState_eq_ok hprior).1.symm
      simp only [nextArchiveState, bind_eq_ok, okOr_eq_ok, checkedAdd_eq_some]
      exact ⟨_, _, ⟨hcount p hp, rfl⟩, rfl⟩
  have hrows : collect (archiveBlockRows E event)
      (((st.chain.drop n).map fun v => v.block.height).zip
        ((st.chain.drop n).map VisibleBlock.displaced)) =
      .ok ((st.chain.drop n).map (VisibleBlock.archivedRows event)) := by
    rw [zip_map', collect_eq_ok, List.forall₂_map_left_iff, List.forall₂_map_right_iff]
    refine List.forall₂_same.mpr fun v hv => ?_
    obtain ⟨tip, hvalid⟩ := ready.valid v (mem_of_mem_drop hv)
    exact (harchivable v hv).rows_ok hvalid event
  simp only [prepareDisplacedArchiveWrite, bind_eq_ok, rejectIf_eq_ok, not_or, not_not, hheights]
  refine ⟨⟨event.eventSequence, event.revertedRange, event.displacementEpoch, event.displacedAt,
      st.chain.length - n, state.blockCount⟩, state, (), ⟨by omega, hepoch⟩, _, hrange, (), by simp,
    (), ready.archive.fresh _ (by omega), prior, hprior, (), ?_, state, hstate, _, hrows, ?_⟩
  · rintro ⟨p, hp, hle⟩
    have := hlatest p hp
    omega
  · rw [flatMap_def]

end Displaced

/-! ## Replacing -/

/-- A replacement that a state with `k` settled blocks can take: it keeps the first `n` blocks, and
its blocks follow the tree state at the last of them. -/
structure ReplacementEnabled (st : LiveState E) (k : Nat) (r : CanonicalLiveReplacement E)
    (activations : NetworkUpgradeActivations) (n : Nat) : Prop where
  network : activations.network = st.store.buildPlan.network
  fingerprint : activations.fingerprint =
    st.store.buildPlan.networkUpgradeActivationsFingerprint
  fence : r.expectedFence = st.store.eventFence
  settled_le : k ≤ n
  lt_length : n < st.chain.length
  displaced_le : st.chain.length - n ≤ st.store.window
  nonempty : r.blocks ≠ []
  follows : ∃ checkpoint,
    checkpointAt E st.store (tipId st.start (st.chain.take n)) activations = .ok checkpoint ∧
    readPersistedTipMetadata st.store.db (tipId st.start (st.chain.take n)) =
      .ok checkpoint.tipMetadata ∧
    SuffixFollows activations .wallet st.store.buildPlan.rawBlobRetention checkpoint r.blocks
  lag_le : n + r.blocks.length - k ≤ st.store.window
  epoch_lt : st.store.readyEvidence.visibleEpoch + 1 < u64Bound
  bytes_lt : replayTotal st.chain < u64Bound
  newBytes_lt : replayTotal (st.chain.take n ++ r.chain) < u64Bound
  archived_lt : ∀ state : ArchiveState, st.store.db.lookup Key.displacedState = some state →
    state.blockCount + (st.chain.length - n) < u64Bound
  archivable : ∀ v ∈ st.chain.drop n, Archivable v
  displacedHashes : ((st.chain.drop n).map fun v => v.block.hash).Nodup
  unique : UniqueIds r.chain

/-- What a replacement that keeps the first `n` blocks brings itself: it names the current fence and
starts above the settled tip within the window, its blocks pass the replacement checks as soon as the
tree state at their parent is known, and the counters have room for it. -/
structure ReplacementAsked (st : LiveState E) (r : CanonicalLiveReplacement E)
    (activations : NetworkUpgradeActivations) (n : Nat) : Prop where
  network : activations.network = st.store.buildPlan.network
  fingerprint : activations.fingerprint =
    st.store.buildPlan.networkUpgradeActivationsFingerprint
  fence : r.expectedFence = st.store.eventFence
  settled_le : st.store.readyEvidence.sequenceCheckpoint.through.height ≤ st.start.height + n
  lt_length : n < st.chain.length
  displaced_le : st.chain.length - n ≤ st.store.window
  nonempty : r.blocks ≠ []
  validated : (∃ checkpoint,
      checkpointAt E st.store (tipId st.start (st.chain.take n)) activations = .ok checkpoint) →
    validateReplacementBlocks st.store r.blocks (tipId st.start (st.chain.take n))
      st.store.readyEvidence.sequenceCheckpoint.through activations = .ok ()
  rows : ∃ sizes rows,
    readPersistedTipMetadata st.store.db (tipId st.start (st.chain.take n)) = .ok sizes ∧
    prepareReplacementRows sizes r.blocks = .ok rows
  lag_le : st.start.height + n + r.blocks.length ≤
    st.store.readyEvidence.sequenceCheckpoint.through.height + st.store.window
  epoch_lt : st.store.readyEvidence.visibleEpoch + 1 < u64Bound
  newBytes_lt : replayTotal (st.chain.take n ++ r.chain) < u64Bound
  archived_lt : ∀ state : ArchiveState, st.store.db.lookup Key.displacedState = some state →
    state.blockCount + (st.chain.length - n) < u64Bound
  unique : UniqueIds r.chain

theorem validateReplacementBlocks_linked {blocks : List (CanonicalReplacementBlock E)}
    {parent settled : BlockId}
    (h : validateReplacementBlocks s blocks parent settled activations = .ok ()) :
    Linked parent (blocks.map CanonicalReplacementBlock.visible) := by
  simp only [validateReplacementBlocks, bind_eq_ok] at h
  obtain ⟨_, _, _, _, _, hloop, _⟩ := h
  exact (validateReplacementBlocks_loop hloop).1

theorem ReplacementEnabled.asked (inv : LiveInvariant st k) (ready : StoreReady st)
    (h : ReplacementEnabled st k r activations n) : ReplacementAsked st r activations n := by
  obtain ⟨checkpoint, hcheckpoint, hsizes, hfollows⟩ := h.follows
  have hthrough := inv.settled_height
  have hk := h.settled_le
  have hlag := h.lag_le
  have hid := checkpointAt_blockId hcheckpoint
  obtain ⟨accumulator, hseeded⟩ : ∃ accumulator,
      CommitmentTreeAccumulator.fromValidatedFrontiers E.trees checkpoint.blockId.height
        checkpoint.frontiers activations = .ok accumulator := by
    obtain ⟨first, blocks, hblocks⟩ := exists_cons_of_ne_nil h.nonempty
    rw [hblocks] at hfollows
    obtain ⟨_, hhead, _⟩ := hfollows
    obtain ⟨_, seeded, _, _, _, hseeded, _⟩ := hhead.trees
    exact ⟨seeded, hseeded⟩
  exact
    { network := h.network
      fingerprint := h.fingerprint
      fence := h.fence
      settled_le := by omega
      lt_length := h.lt_length
      displaced_le := h.displaced_le
      nonempty := h.nonempty
      validated := fun _ => by
        obtain ⟨final, hloop⟩ := hfollows.validate_loop ready.workload hseeded
        have hfinal := (validateReplacementBlocks_loop hloop).2.2
        have hlinked := hfollows.linked.tipId_height
        have hkept := inv.linked.tipId_take_height h.lt_length.le
        rw [hid] at hloop hseeded
        simp only [validateReplacementBlocks, bind_eq_ok, mapError_ok_iff, rejectIf_eq_ok, not_lt]
        refine ⟨checkpoint, hcheckpoint, accumulator, hseeded, final, hloop, ?_⟩
        rw [hfinal, hlinked, hid, hkept]
        omega
      rows := by
        obtain ⟨rows, hrows⟩ := hfollows.rows_ok
        exact ⟨_, rows, hsizes, hrows⟩
      lag_le := by omega
      epoch_lt := h.epoch_lt
      newBytes_lt := h.newBytes_lt
      archived_lt := h.archived_lt
      unique := h.unique }

/-- The preparation of a replacement that brings what it must succeeds when the tree state at its
parent can be rebuilt and the displaced blocks can be archived; the archive gets their rows under the
next event. -/
theorem prepareLiveReplacement_ok (inv : LiveInvariant st k)
    (ready : StoreReady st) (h : ReplacementAsked st r activations n)
    (hbytes : replayTotal st.chain < u64Bound)
    (hcheckpoint : ∃ checkpoint,
      checkpointAt E st.store (tipId st.start (st.chain.take n)) activations = .ok checkpoint)
    (harchivable : ∀ v ∈ st.chain.drop n, Archivable v) :
    ∃ p event context state, prepareLiveReplacement st.store r activations = .ok p ∧
      p.archive = ⟨.displacedEventContext event.eventSequence, context⟩ ::
        ((st.chain.drop n).flatMap (VisibleBlock.archivedRows event) ++
          [⟨.displacedState, state⟩]) := by
  obtain ⟨tipCheckpoint, _, _, hanchor⟩ := ready.appendAnchor_ok inv
  have hvalidate := h.validated hcheckpoint
  obtain ⟨sizes, rows, hsizes, hrows⟩ := h.rows
  have hkept := inv.linked.tipId_take_height h.lt_length.le
  have hstart : st.store.buildPlan.historyPredecessor.blockId = st.start := rfl
  have hpos := inv.settled_pos
  have hlt := h.lt_length
  have hdisplaced := h.displaced_le
  have hlag := h.lag_le
  have htip := inv.tip_height
  have hthrough := inv.settled_height
  have hk : k ≤ n := by
    have := h.settled_le
    omega
  have hwindow : st.store.window < u32Bound := st.store.buildPlan.reorgWindowBlocks_lt
  obtain ⟨first, blocks, hblocks⟩ := exists_cons_of_ne_nil h.nonempty
  have hlinked : Linked (tipId st.start (st.chain.take n)) r.chain :=
    validateReplacementBlocks_linked hvalidate
  have hfirst : first.block.height = st.start.height + n + 1 := by
    have := hlinked
    rw [CanonicalLiveReplacement.chain, hblocks] at this
    rw [← hkept]
    exact this.1
  obtain ⟨last, hlast⟩ : ∃ last, r.blocks.getLast? = some last :=
    ⟨_, getLast?_eq_getLast_of_ne_nil h.nonempty⟩
  have hlastHeight : last.block.height = st.start.height + n + r.blocks.length := by
    have := hlinked.tipId_height
    rw [CanonicalLiveReplacement.chain, tipId_map_visible_eq hlast, length_map, hkept] at this
    exact this
  -- the block kept below the suffix
  obtain ⟨v, hv, hvmem, hparent, hparentHeight⟩ :=
    inv.linked.exists_at (by omega : 0 < n) h.lt_length.le
  obtain ⟨facts, _, hfacts, _, _, hreads⟩ := inv.holds.readPersistedReplay_eq_ok hvmem
  have hread := (hreads _).mpr ⟨(replayBytes_le_total hvmem).trans_lt hbytes, rfl⟩
  rw [hparentHeight] at hread
  obtain rfl : v.block.tipMetadata = sizes := by
    rw [hparent, inv.holds.readPersistedTipMetadata_eq hvmem] at hsizes
    exact Except.ok.inj hsizes
  -- the old tip
  obtain ⟨w, hwlast, hwmem, hwtip⟩ := inv.exists_tip
  have hw : st.chain[st.chain.length - 1]? = some w := by
    rw [← getLast?_eq_getElem?]
    exact hwlast
  have hold : readPersistedTipMetadata st.store.db st.store.readyEvidence.visibleTip =
      .ok w.block.tipMetadata := by
    rw [hwtip]
    exact inv.holds.readPersistedTipMetadata_eq hwmem
  have hidentity : validateActivationIdentity st.store activations "live replacement" = .ok () :=
    rejectIf_of_not (by simp [h.network, h.fingerprint])
  have hcount : inclusiveCount ⟨st.start.height + n + 1, st.start.height + st.chain.length⟩ =
      .ok (st.chain.length - n) := by
    refine inclusiveCount_eq_ok.mpr ⟨?_, ?_, ?_⟩ <;> simp only <;> omega
  have hparentId : (⟨st.start.height + n, facts.blockHash⟩ : BlockId) =
      v.block.blockId := BlockId.ext_of hparentHeight.symm hfacts
  rw [hparent, ← hparentId] at hvalidate
  have hsequence : replacementVisibleSequence st.store
      st.store.readyEvidence.sequenceCheckpoint.through (st.start.height + n) r.blocks =
        .ok (sequenceSummary st.start (st.chain.take n ++ r.chain)) := by
    simp only [replacementVisibleSequence, bind_eq_ok, rejectIf_eq_ok, not_lt]
    refine ⟨sequenceSummary st.start (st.chain.take n), ?_, (), ?_, ?_⟩
    · rw [inv.settled]
      exact inv.holds.resume_ok hbytes hk hlt.le (by omega)
    · have : (sequenceSummary (D := D) st.start (st.chain.take n)).through.height =
          st.start.height + n := hkept
      omega
    · refine replacement_sequence_ok (linked_append.mpr ⟨inv.linked.take n, hlinked⟩) ?_
      exact h.newBytes_lt
  have hnext : nextLiveFence st.store.readyEvidence =
      .ok (st.store.readyEvidence.visibleEpoch + 1, st.store.readyEvidence.visibleEpoch + 1) :=
    nextLiveFence_eq_ok.mpr ⟨h.epoch_lt, inv.fence.symm, rfl, rfl⟩
  obtain ⟨dels, hdels⟩ := ready.deletions_ok inv hbytes harchivable (by omega) hlt hv hw
  obtain ⟨context, state, harchive⟩ := ready.archive_ok inv hlt h.displaced_le harchivable
    h.archived_lt ⟨st.store.readyEvidence.visibleEpoch + 1,
      st.store.readyEvidence.visibleEpoch + 1,
      ⟨st.start.height + n + 1, st.start.height + st.chain.length⟩, r.createdAt⟩ rfl rfl rfl
  have hparentRead : readPersistedTipMetadata st.store.db
      ⟨st.start.height + n, facts.blockHash⟩ =
        .ok v.block.tipMetadata := by
    rw [hparentId]
    exact inv.holds.readPersistedTipMetadata_eq hvmem
  have hcaptures := ready.captures_ok (n := n) inv hbytes
  rw [← hfirst, ← htip] at hcount hdels harchive hcaptures
  simp only [prepareLiveReplacement, bind_eq_ok, rejectIf_eq_ok, not_or, not_not, okOr_eq_ok,
    checkedSub_eq_some, not_lt, not_le]
  refine ⟨_, _, context, state, ⟨(), hidentity, (), h.fence, _, hanchor, first,
    by rw [hblocks]; rfl, (), ⟨?_, by omega⟩, _, hcount, (), hdisplaced, st.start.height + n,
    ⟨by omega, by omega⟩, _, hread, _, hparentRead, (), hvalidate, last, hlast, _, ⟨?_, rfl⟩, (), ?_,
    _, hnext, _, hcaptures, _, hold, dels, hdels, _, harchive, _, hsequence, rows, hrows, rfl⟩, rfl⟩
  · simp only
    omega
  · simp only [CanonicalBuildBlock.blockId_height]
    omega
  · simp only [CanonicalBuildBlock.blockId_height]
    omega

/-! ## Reading the replacement back -/

theorem prepareLiveReplacement_publication {first last : CanonicalReplacementBlock E}
    (hfirst : r.blocks.head? = some first) (hlast : r.blocks.getLast? = some last)
    (h : prepareLiveReplacement s r activations = .ok p) :
    p.previousEpochId = s.readyEvidence.visibleEpoch ∧
      s.readyEvidence.visibleEpoch + 1 < u64Bound ∧
      p.revertedRange = ⟨first.block.height, s.readyEvidence.visibleTip.height⟩ ∧
      p.committedRange = ⟨first.block.height, last.block.height⟩ ∧
      p.publication.epoch.tipMetadata = last.block.tipMetadata ∧
      p.publication.event = liveEvent s.readyEvidence.visibleEpoch (some p.revertedRange)
        p.committedRange p.publication.ready := by
  obtain ⟨steps⟩ := prepareLiveReplacement_steps h
  cases hfirst.symm.trans steps.head
  cases hlast.symm.trans steps.getLast
  exact ⟨steps.previousEpochId, steps.epoch_lt, steps.revertedRange, steps.committedRange,
    congrArg ChainEpochRecord.tipMetadata steps.epoch, steps.event⟩

omit [DecidableEq D] in
theorem archivedRows_nodup (hhashes : (chain.map fun v => v.block.hash).Nodup)
    (event : DisplacedArchiveEvent) :
    (chain.flatMap (VisibleBlock.archivedRows event)).keys.Nodup := by
  have hkeys : (chain.flatMap (VisibleBlock.archivedRows event)).keys =
      chain.flatMap fun v => [.displacedOrder ⟨event.eventSequence, v.block.height, v.block.hash⟩,
        .displacedHashPointer v.block.hash] := by
    simp [List.keys, map_flatMap, VisibleBlock.archivedRows]
  rw [hkeys, nodup_flatMap]
  refine ⟨fun v _ => by simp, ?_⟩
  refine (pairwise_map.mp hhashes).imp fun {v w} hne k hv hw => ?_
  simp only [mem_cons, not_mem_nil, or_false] at hv hw
  rcases hv with rfl | rfl
  · simp only [Key.displacedOrder.injEq, ArchivePosition.mk.injEq, reduceCtorEq, or_false] at hw
    exact hne hw.2.2
  · simp only [Key.displacedHashPointer.injEq, reduceCtorEq, false_or] at hw
    exact hne hw

omit [DecidableEq D] in
theorem count_archive_le_one {rows : List (Row (Val D))} {context : ArchiveEventContext}
    {state : ArchiveState} {event : DisplacedArchiveEvent}
    (hhashes : (chain.map fun v => v.block.hash).Nodup)
    (hrows : rows = ⟨.displacedEventContext event.eventSequence, context⟩ ::
      (chain.flatMap (VisibleBlock.archivedRows event) ++ [⟨.displacedState, state⟩]))
    (key : Key) : rows.keys.count key ≤ 1 := by
  refine nodup_iff_count_le_one.mp ?_ key
  have hblock : ∀ k ∈ (chain.flatMap (VisibleBlock.archivedRows event)).keys,
      (∀ n, k ≠ .displacedEventContext n) ∧ k ≠ .displacedState := by
    intro k hk
    obtain ⟨row, hrow, rfl⟩ := mem_map.mp hk
    obtain ⟨v, _, hrow⟩ := mem_flatMap.mp hrow
    simp only [VisibleBlock.archivedRows, mem_cons, not_mem_nil, or_false] at hrow
    rcases hrow with rfl | rfl <;> simp
  rw [hrows, keys_cons, keys_append, nodup_cons]
  refine ⟨fun hmem => ?_, ?_⟩
  · rcases mem_append.mp hmem with hmem | hmem
    · exact (hblock _ hmem).1 _ rfl
    · simp at hmem
  · refine nodup_append.mpr ⟨archivedRows_nodup hhashes event, by simp, ?_⟩
    intro k hk k' hk' heq
    simp only [keys_cons, keys_nil, mem_singleton] at hk'
    exact (hblock k hk).2 (heq.trans hk')

structure BatchApart (p : PreparedLiveReplacement D) (chain : Chain E) : Prop where
  deletions : ∀ k ∈ p.deletions, k.isBlockFamily = true
  rows : p.replacementRows.flatten = chain.flatMap VisibleBlock.rows
  rows_family : ∀ k ∈ p.replacementRows.flatten.keys, k.isBlockFamily = true
  archive : ∀ k ∈ p.archive.keys, k.isArchive = true

namespace BatchApart

variable {p : PreparedLiveReplacement D} {chain : Chain E} {k : Key} (h : BatchApart p chain)
include h

omit [DecidableEq D]

theorem lookup_other (hblock : k.isBlockFamily = false) (harchive : k.isArchive = false)
    (hpublication : k ∉ p.publication.rows.keys) (db : Db D) :
    (write p.batch db).lookup k = db.lookup k := by
  refine lookup_write_of_untouched (fun hmem => ?_) db
  simp only [PreparedLiveReplacement.batch, map_append, Op.map_key_ofRow,
    mem_append] at hmem
  rcases hmem with (hmem | hmem) | hmem | hmem
  · obtain ⟨op, hop, rfl⟩ := mem_map.mp hmem
    obtain ⟨key, hkey, rfl⟩ := mem_map.mp hop
    have := h.deletions key hkey
    simp only [Op.key] at hblock
    rw [hblock] at this
    cases this
  · rw [h.rows_family k hmem] at hblock
    cases hblock
  · rw [h.archive k hmem] at harchive
    cases harchive
  · exact hpublication hmem

theorem lookup_block (hblock : k.isBlockFamily = true) (db : Db D) : (write p.batch db).lookup k =
      (write (p.deletions.map Op.delete ++ p.replacementRows.flatten.map Op.ofRow) db).lookup k := by
  rw [PreparedLiveReplacement.batch, write_append]
  refine lookup_write_of_untouched (fun hmem => ?_) _
  rw [map_append, Op.map_key_ofRow, Op.map_key_ofRow, mem_append] at hmem
  rcases hmem with hmem | hmem
  · exact Key.not_isArchive hblock (h.archive k hmem)
  · rw [(p.publication.key_not_block hmem).1] at hblock
    cases hblock

theorem lookup_deleted (hk : k ∈ p.deletions) (hrow : k ∉ p.replacementRows.flatten.keys)
    (db : Db D) :
    (write p.batch db).lookup k = none := by
  rw [h.lookup_block (h.deletions k hk), write_append,
    lookup_write_of_untouched (by rwa [Op.map_key_ofRow]), lookup_write_deletes, if_pos hk]

theorem lookup_row (hcount : ∀ k, (chain.flatMap VisibleBlock.rows).keys.count k ≤ 1)
    {row : Row (Val D)} (hrow : row ∈ p.replacementRows.flatten) (db : Db D) :
    (write p.batch db).lookup row.1 = some row.2 := by
  have hkey := h.rows_family row.1 (mem_map_of_mem hrow)
  have honce : p.replacementRows.flatten.keys.count row.1 ≤ 1 := by
    rw [h.rows]
    exact hcount _
  rw [h.lookup_block hkey, write_append, lookup_write_puts honce, dlookup_of_mem hrow honce]
  rfl

theorem lookup_archived (hcount : ∀ k, p.archive.keys.count k ≤ 1) {row : Row (Val D)}
    (hrow : row ∈ p.archive) (db : Db D) :
    (write p.batch db).lookup row.1 = some row.2 := by
  rw [PreparedLiveReplacement.batch, ← append_assoc]
  refine lookup_put hrow (hcount _) _ (fun hmem => ?_) db
  rw [Op.map_key_ofRow] at hmem
  have := h.archive row.1 (mem_map_of_mem hrow)
  rw [(p.publication.key_not_block hmem).2] at this
  cases this

end BatchApart

theorem ReplacedSuffix.publication_ok (inv : LiveInvariant st k) (ready : StoreReady st)
    {first last : CanonicalReplacementBlock E} (hfirst : r.blocks.head? = some first)
    (hlast : r.blocks.getLast? = some last)
    (hp : prepareLiveReplacement st.store r activations = .ok p) (hbatch : BatchApart p r.chain)
    {sizes oldSizes : ChainTipMetadata} {facts : List CanonicalBlockFacts}
    {rest : List (Op (Val D))}
    (h : ReplacedSuffix st k r first (replacedStore st.store p) n sizes oldSizes facts rest) :
    validateLiveReplacementPublication (write p.batch st.store.db) p.publication.ready
      p.previousEpochId p.revertedRange p.committedRange = .ok () := by
  obtain ⟨hprevious, hlt, hreverted, hcommitted, hsizes, hevent⟩ :=
    prepareLiveReplacement_publication hfirst hlast hp
  have inv' := inv.replacement h
  have hevidence : p.publication.ready = replacedEvidence st.store.readyEvidence
      (sequenceSummary st.start (st.chain.take n ++ r.chain)) := h.evidence
  have hepoch : p.publication.ready.visibleEpoch = st.store.readyEvidence.visibleEpoch + 1 := by
    rw [hevidence]
    rfl
  have htip : p.publication.ready.visibleTip = last.block.blockId := by
    rw [hevidence]
    show tipId st.start (st.chain.take n ++ r.chain) = last.block.blockId
    rw [tipId_append]
    exact tipId_map_visible_eq hlast
  obtain ⟨old, hold, hvisible, hsettled⟩ := inv.epoch
  have hepochRow := p.lookup_epoch st.store.db
  obtain ⟨e, he, hevisible, hesettled⟩ := inv'.epoch
  obtain rfl : e = p.publication.epoch := Option.some.inj (he.symm.trans hepochRow)
  have holdRow : (write p.batch st.store.db).lookup
      (Key.chainEpoch st.store.readyEvidence.visibleEpoch) = some old := by
    rw [hbatch.lookup_other rfl rfl ?_ st.store.db, hold]
    simp [p.publication.rows_keys, hepoch]
  have heventRow : (write p.batch st.store.db).lookup
      (Key.chainEvent p.publication.ready.visibleEventSequence) = some p.publication.event := by
    rw [PreparedLiveReplacement.batch, ← append_assoc]
    have hmem : (⟨.chainEvent p.publication.ready.visibleEventSequence, p.publication.event⟩ :
        Row (Val D)) ∈ p.publication.rows := by simp [LivePublication.rows]
    exact p.publication.lookup_row _ _ hmem
  have hthrough : p.publication.ready.sequenceCheckpoint =
      st.store.readyEvidence.sequenceCheckpoint := by
    rw [hevidence]
    rfl
  rw [hprevious]
  simp only [validateLiveReplacementPublication, bind_eq_ok, rejectIf_eq_ok, not_or, not_not,
    readChainEpoch, readChainEvent, okOr_eq_ok]
  refine ⟨(), ⟨?_, ?_⟩, old, holdRow, p.publication.epoch, hepochRow, p.publication.event,
    heventRow, (), ?_, ?_⟩
  · rw [hevidence]
    rfl
  · rw [hepoch, Nat.min_eq_left (by omega)]
  · refine inv'.validateEpochRecord_ok ?_ hevisible hesettled ?_
    · rw [hevidence]
      simp only [LiveState.start, h.plan]
      exact ready.first
    · have hmem : last.visible ∈ st.chain.take n ++ r.chain :=
        mem_append_right _ (mem_map_of_mem (mem_of_getLast? hlast))
      have hread := inv'.holds.readPersistedTipMetadata_eq hmem
      rw [hsizes]
      simp only [replacedStore, htip]
      exact hread
  · have hesettled' : p.publication.epoch.settledTip = old.settledTip := by
      rw [hesettled, hsettled]
      exact congrArg CanonicalSequenceCheckpoint.through hthrough
    have hetip : p.publication.epoch.visibleTip = last.block.blockId := hevisible.trans htip
    have hfirstHeight := h.first_height hfirst inv
    have hsettledHeight := inv.settled_height
    have hle := h.settled_le
    rw [hevent, hreverted, hcommitted]
    refine ⟨hesettled'.symm, rfl, rfl, rfl, rfl, rfl, by rw [hvisible], ?_, rfl, by rw [hetip]; rfl⟩
    rw [hsettled]
    simp only
    omega

theorem prepareLiveReplacement_apart (h : prepareLiveReplacement s r activations = .ok p) :
    BatchApart p r.chain := by
  obtain ⟨_, _, _, _, spec, _, hrows, hkeys, _⟩ := prepareLiveReplacement_eq_ok h
  obtain ⟨_, _, _, _, hdels⟩ := spec.deleted
  exact
    { deletions := fun k hk => prepareCanonicalDeletions_isBlockFamily hdels hk
      rows := hrows
      rows_family := by
        intro k hk
        rw [hrows] at hk
        obtain ⟨v, _, hv⟩ := mem_flatMap.mp (mem_keys_flatMap spec.admitted hk)
        exact isBlockFamily_of_owned hv
      archive := hkeys }

/-- A replacement that brings what it must is committed when the tree state at its parent can be
rebuilt and the displaced blocks can be archived. -/
theorem ReplacementAsked.commit_ok (inv : LiveInvariant st k)
    (ready : StoreReady st) (h : ReplacementAsked st r activations n)
    (hbytes : replayTotal st.chain < u64Bound)
    (hcheckpoint : ∃ checkpoint,
      checkpointAt E st.store (tipId st.start (st.chain.take n)) activations = .ok checkpoint)
    (harchivable : ∀ v ∈ st.chain.drop n, Archivable v)
    (hhashes : ((st.chain.drop n).map fun v => v.block.hash).Nodup) :
    ∃ s' fence, commitLiveReplacement st.store r activations = .ok (s', fence) := by
  obtain ⟨p, event, context, state, hp, harchive⟩ :=
    prepareLiveReplacement_ok inv ready h hbytes hcheckpoint harchivable
  obtain ⟨first, blocks, hblocks⟩ := exists_cons_of_ne_nil h.nonempty
  have hfirst : r.blocks.head? = some first := by rw [hblocks]; rfl
  obtain ⟨last, hlast⟩ : ∃ last, r.blocks.getLast? = some last :=
    ⟨_, getLast?_eq_getLast_of_ne_nil h.nonempty⟩
  obtain ⟨n', sizes, oldSizes, facts, hreplaced⟩ := inv.preparedSuffix hfirst hp
  have inv' := inv.replacement hreplaced
  have hbatch : BatchApart p r.chain := prepareLiveReplacement_apart hp
  have hcount := h.unique.count_rows_le_one hreplaced.linked hreplaced.roots hreplaced.admitted
  have hn : n' = n := by
    have hkept := inv.linked.tipId_take_height h.lt_length.le
    have hheight := hreplaced.first_height hfirst inv
    have hlinked := validateReplacementBlocks_linked (h.validated hcheckpoint)
    rw [hblocks] at hlinked
    have hfirstHeight : first.block.height = (tipId st.start (st.chain.take n)).height + 1 :=
      hlinked.1
    omega
  refine ⟨replacedStore st.store p, eventFenceFromReady p.publication.ready, ?_⟩
  simp only [commitLiveReplacement, bind_eq_ok, mapError_ok_iff]
  refine ⟨p, hp, (), ?_, rfl⟩
  simp only [PreparedLiveReplacement.validateReadback, bind_eq_ok, validateRowsReadback_eq_ok]
  refine ⟨(), ?_, (), fun row hrow => hbatch.lookup_row hcount hrow _, (),
    fun row hrow => hbatch.lookup_archived
      (count_archive_le_one hhashes harchive) hrow _, (),
    fun row hrow => ?_, (), hreplaced.publication_ok inv ready hfirst hlast hp hbatch, ?_⟩
  · obtain ⟨us, hus⟩ := collect_unit_ok (f := fun k : Key =>
      let family := k.family
      rejectIf (k ∉ p.replacementRows.flatten.keys ∧
        ((write p.batch st.store.db).lookup k).isSome = true)
        (CanonicalStoreError.liveCommit
          s!"stale {family} row remains after canonical replacement")) fun k hk =>
      rejectIf_of_not fun hstale => by
        have hsome := hstale.2
        rw [hbatch.lookup_deleted hk hstale.1] at hsome
        cases hsome
    simp only [validateDeletionsReadback, bind_eq_ok]
    exact ⟨us, hus, trivial⟩
  · rw [PreparedLiveReplacement.batch, ← append_assoc]
    exact p.publication.lookup_row _ _ hrow
  · refine inv'.validateReadySequenceCheckpoint_ok ?_
    rw [hn]
    exact h.newBytes_lt

theorem commitLiveReplacement_ok (inv : LiveInvariant st k)
    (ready : StoreReady st) (h : ReplacementEnabled st k r activations n) :
    ∃ s' fence, commitLiveReplacement st.store r activations = .ok (s', fence) := by
  obtain ⟨checkpoint, hcheckpoint, _⟩ := h.follows
  exact (h.asked inv ready).commit_ok inv ready h.bytes_lt ⟨checkpoint, hcheckpoint⟩
    h.archivable h.displacedHashes

end Zinder.Canonical
