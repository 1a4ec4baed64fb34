import Zinder.Canonical.Baseline
import Zinder.Canonical.LiveRun

/-!
# Zinder.Canonical.BaselineSpec

What a published baseline establishes. `Published` is the live state a baseline starts; the loaded
roots are attached to the block that completes them, and the roots completed before retained
history are kept apart.

* `Staged` — the invariant of the block load: the summary, the tree sizes and the retained
  summaries of the blocks staged so far;
* `Published.invariant` — a published baseline satisfies the run invariant.
-/

namespace Zinder.Canonical

open KeyValue List

variable {D : Type} [DecidableEq D] {E : Env D}

/-! ## The state a baseline starts -/

def attachRoots (roots : List SubtreeRootArtifact) :
    ChainTipMetadata → List (CanonicalBuildBlock E) → Chain E
  | _, [] => []
  | sizes, block :: blocks =>
    ⟨block, roots.filter fun r => r.position ∈ completedBetween sizes block.tipMetadata⟩ ::
      attachRoots roots block.tipMetadata blocks

def rootsBefore (sizes : ChainTipMetadata) (roots : List SubtreeRootArtifact) :
    List SubtreeRootArtifact :=
  roots.filter fun r => r.subtreeIndex < sizes.completedSubtreeCount r.protocol

def CanonicalBaseline.loadedRoots (b : CanonicalBaseline E) :
    Except CanonicalStoreError (List SubtreeRootArtifact) := do
  let (db, sequence) ← bulkLoadBlocks b.workload b.plan b.blocks
  loadSubtreeRoots db b.plan sequence.tipMetadata b.roots

inductive Published : LiveState E → Prop where
  | intro {b : CanonicalBaseline E} {s : RocksDbCanonicalStore D}
      {roots : List SubtreeRootArtifact} (hroots : b.loadedRoots = .ok roots)
      (h : publishBaseline b = .ok s) :
      Published ⟨s, rootsBefore b.plan.historyPredecessor.tipMetadata roots,
        attachRoots roots b.plan.historyPredecessor.tipMetadata b.blocks⟩

variable {b : CanonicalBaseline E} {s : RocksDbCanonicalStore D} {w : CanonicalStoreWorkload}
  {chain : Chain E} {plan : CanonicalStoreBuildPlan} {db : Db D} {k : Key}
  {roots : List SubtreeRootArtifact}

omit [DecidableEq D] in
@[simp] theorem attachRoots_blocks (roots : List SubtreeRootArtifact) (sizes : ChainTipMetadata)
    (blocks : List (CanonicalBuildBlock E)) :
    (attachRoots roots sizes blocks).map VisibleBlock.block = blocks := by
  induction blocks generalizing sizes with
  | nil => rfl
  | cons block blocks ih => simp [attachRoots, ih]

/-- What a publication computed and checked before it left the store `s`. -/
structure BaselineSteps (b : CanonicalBaseline E) (s : RocksDbCanonicalStore D) (blockDb : Db D)
    (sequence : BlockSequence D) (roots : List SubtreeRootArtifact) (first : CanonicalBuildBlock E)
    (settled : CanonicalSequenceCheckpoint D) : Prop where
  loaded : bulkLoadBlocks b.workload b.plan b.blocks = .ok (blockDb, sequence)
  loadedRoots : loadSubtreeRoots blockDb b.plan sequence.tipMetadata b.roots = .ok roots
  workload : b.workload ≠ .explorer
  head : b.blocks.head? = some first
  prepared : prepareBaseline (write ((roots.map SubtreeRootArtifact.row).map Op.ofRow) blockDb)
    b.plan first.blockId sequence.checkpoint.through sequence.retained b.settledTip = .ok settled
  store : s =
    { db := write ((baselinePublication b first sequence settled).rows.map Op.ofRow)
        (write ((roots.map SubtreeRootArtifact.row).map Op.ofRow) blockDb)
      workload := b.workload
      buildPlan := b.plan
      readyEvidence := (baselinePublication b first sequence settled).ready }
  confirmed : validateReadySequenceCheckpoint E s.db s.buildPlan s.readyEvidence = .ok ()

theorem publishBaseline_steps (h : publishBaseline b = .ok s) :
    ∃ blockDb sequence roots first settled,
      BaselineSteps b s blockDb sequence roots first settled := by
  simp only [publishBaseline, bind_eq_ok, okOr_eq_ok, rejectIf_eq_ok, Unique.exists_iff] at h
  obtain ⟨⟨blockDb, sequence⟩, hload, roots, hroots, hworkload, _, first, hfirst, settled, hsettled,
    hready, _, h⟩ := h
  cases h
  exact ⟨blockDb, sequence, roots, first, settled, hload, hroots, hworkload, hfirst, hsettled, rfl,
    hready⟩

theorem exists_published (h : publishBaseline b = .ok s) : ∃ st : LiveState E,
      Published st ∧ st.store = s ∧ st.chain.map VisibleBlock.block = b.blocks ∧
      s.buildPlan = b.plan := by
  obtain ⟨db, sequence, roots, first, settled, steps⟩ := publishBaseline_steps h
  have hroots : b.loadedRoots = .ok roots := by
    simp only [CanonicalBaseline.loadedRoots, steps.loaded, ok_bind, steps.loadedRoots]
  exact ⟨_, .intro hroots h, rfl, attachRoots_blocks _ _ _, by rw [steps.store]⟩

/-! ## The block load -/

def SubtreesAdvance : ChainTipMetadata → Chain E → Prop
  | _, [] => True
  | sizes, v :: chain =>
    SubtreeMonotone sizes v.block.tipMetadata ∧ SubtreesAdvance v.block.tipMetadata chain

omit [DecidableEq D] in
theorem subtreesAdvance_append {sizes : ChainTipMetadata} {a b : Chain E} :
    SubtreesAdvance sizes (a ++ b) ↔
      SubtreesAdvance sizes a ∧ SubtreesAdvance (tipSizes sizes a) b := by
  induction a generalizing sizes with
  | nil => simp [SubtreesAdvance, tipSizes]
  | cons v a ih => simp [SubtreesAdvance, tipSizes, ih, and_assoc]

theorem treeSizesAdvance.subtreeMonotone {a b : ChainTipMetadata} (h : treeSizesAdvance a b) :
    SubtreeMonotone a b := by
  intro p
  obtain ⟨hs, ho, hi⟩ := h
  cases p with
  | sapling => exact Nat.div_le_div_right hs
  | orchard => exact Nat.div_le_div_right ho
  | ironwood => exact Nat.div_le_div_right hi

/-- The stager's state after the first block `v` and the blocks `done` above it. -/
structure Staged (start : BlockId) (v : VisibleBlock E) (done : Chain E)
    (sequence : BlockSequence D) : Prop where
  linked : Linked v.block.blockId done
  admitted : ∀ w ∈ v :: done, Admitted w.block
  checkpoint : sequence.checkpoint = sequenceSummary start (v :: done)
  sizes : sequence.tipMetadata = tipSizes v.block.tipMetadata done
  advance : SubtreesAdvance v.block.tipMetadata done
  retained : ∀ c ∈ sequence.retained, ∃ j, 0 < j ∧ j ≤ done.length + 1 ∧
    c = sequenceSummary start ((v :: done).take j)

omit [DecidableEq D] in
theorem mem_retainCheckpoint {count : Nat} {retained : List (CanonicalSequenceCheckpoint D)}
    {c d : CanonicalSequenceCheckpoint D} (h : c ∈ retainCheckpoint count retained d) :
    c ∈ retained ∨ c = d := by
  have hextended : c ∈ retained ++ [d] := by
    simp only [retainCheckpoint] at h
    split at h
    · exact mem_of_mem_drop h
    · exact h
  simpa using hextended

theorem Staged.stage {start : BlockId} {v x : VisibleBlock E} {done : Chain E}
    {sequence : BlockSequence D} (h : Staged start v done sequence)
    {next : Option (BlockSequence D)}
    (hstage : stageBlock w plan (some sequence) x.block = .ok next) :
    ∃ sequence', next = some sequence' ∧ Staged start v (done ++ [x]) sequence' := by
  simp only [stageBlock, bind_eq_ok] at hstage
  obtain ⟨_, hvalid, sequence', happend, _, _, _, _, hnext⟩ := hstage
  cases hnext
  refine ⟨sequence', rfl, ?_⟩
  simp only [BlockSequence.append, bind_eq_ok, rejectIf_eq_ok, okOr_eq_ok, not_not,
    nextHeight_eq_some, checkedAdd_eq_some, Unique.exists_iff,
    CanonicalBlockFactsSequenceDigest.tryAppend_eq_some] at happend
  obtain ⟨⟨_, hheight⟩, hparent, hadvance, _, ⟨_, rfl⟩, _, ⟨_, rfl⟩, _, ⟨_, rfl⟩, happend⟩ :=
    happend
  cases happend
  have hthrough : sequence.checkpoint.through = tipId v.block.blockId done := by
    rw [h.checkpoint]
    rfl
  rw [hthrough] at hheight hparent
  have hsummary : (⟨x.block.blockId, sequence.checkpoint.retainedBlockCount + 1,
      sequence.checkpoint.sequenceDigest.push E.hash x.block.digest,
      sequence.checkpoint.logicalReplayBytes + x.block.replayBytes⟩ :
        CanonicalSequenceCheckpoint D) = sequenceSummary start (v :: (done ++ [x])) := by
    rw [← cons_append, sequenceSummary_concat, h.checkpoint]
  exact
    { linked := linked_append.mpr ⟨h.linked, hheight.symm, hparent, trivial⟩
      admitted := by
        intro y hy
        rw [← cons_append, mem_append, mem_singleton] at hy
        rcases hy with hy | rfl
        · exact h.admitted y hy
        · exact validateBlock_admitted hvalid
      checkpoint := hsummary
      sizes := by simp [tipSizes]
      advance := subtreesAdvance_append.mpr
        ⟨h.advance, by rw [← h.sizes]; exact hadvance.subtreeMonotone, trivial⟩
      retained := by
        intro c hc
        rcases mem_retainCheckpoint hc with hc | rfl
        · obtain ⟨j, hpos, hle, rfl⟩ := h.retained c hc
          refine ⟨j, hpos, by simp; omega, ?_⟩
          rw [← cons_append, take_append_of_le_length (by simpa using hle)]
        · refine ⟨done.length + 2, by omega, by simp, ?_⟩
          rw [hsummary, take_of_length_le (by simp)] }

theorem Staged.first (start : BlockId) {v : VisibleBlock E} {next : Option (BlockSequence D)}
    (hstage : stageBlock w plan none v.block = .ok next) :
    ∃ sequence, next = some sequence ∧ Staged start v [] sequence := by
  simp only [stageBlock, bind_eq_ok, BlockSequence.new, okOr_eq_ok,
    CanonicalBlockFactsSequenceDigest.tryAppend_eq_some] at hstage
  obtain ⟨_, hvalid, sequence, ⟨_, ⟨_, rfl⟩, hsequence⟩, _, _, _, _, hnext⟩ := hstage
  cases hsequence
  cases hnext
  have hsummary : (⟨v.block.blockId, 1,
      (CanonicalBlockFactsSequenceDigest.start E.hash).push E.hash v.block.digest,
      v.block.replayBytes⟩ : CanonicalSequenceCheckpoint D) = sequenceSummary start [v] := by
    simp [sequenceSummary, tipId, CanonicalBlockFactsSequenceDigest.ofItems]
  refine ⟨_, rfl, trivial, ?_, hsummary, rfl, trivial, fun c hc => ?_⟩
  · simpa using validateBlock_admitted hvalid
  · simp only at hc
    rcases mem_retainCheckpoint hc with hc | rfl
    · simp at hc
    · exact ⟨1, by omega, by simp, hsummary⟩

theorem staged_of_loop (start : BlockId) {v : VisibleBlock E} {final : Option (BlockSequence D)}
    (h : loop (stageBlock w plan) none ((v :: chain).map VisibleBlock.block) = .ok final) :
    ∃ sequence, final = some sequence ∧ Staged start v chain sequence := by
  rw [loop_map, loop_cons_eq_ok] at h
  obtain ⟨next, hfirst, hrest⟩ := h
  obtain ⟨sequence, rfl, hstaged⟩ := Staged.first start hfirst
  exact loop_invariant
    (fun done (s : Option (BlockSequence D)) => ∃ q, s = some q ∧ Staged start v done q)
    (fun done x s s' hinv hstep => by
      obtain ⟨q, rfl, hq⟩ := hinv
      exact hq.stage hstep)
    ⟨sequence, rfl, hstaged⟩ hrest

theorem bulkLoadBlocks_eq_ok {sequence : BlockSequence D}
    (h : bulkLoadBlocks w plan (chain.map VisibleBlock.block) = .ok (db, sequence)) :
    (∃ v rest, chain = v :: rest ∧ Staged plan.historyPredecessor.blockId v rest sequence) ∧
      Linked plan.historyPredecessor.blockId chain ∧ UniqueIds chain ∧
      sequence.checkpoint.through = plan.buildTip ∧
      db = write ((predecessorRow plan ::
        (chain.map VisibleBlock.block).flatMap blockRows).map Op.ofRow) ∅ := by
  simp only [bulkLoadBlocks, bind_eq_ok, okOr_eq_ok, rejectIf_eq_ok, not_or, not_not] at h
  obtain ⟨staged, hloop, _, rfl, _, ⟨hhashes, hids⟩, first, hfirst, _, hheight, _, hparent, _,
    htip, h⟩ := h
  cases h
  cases chain with
  | nil => simp at hfirst
  | cons v chain =>
    obtain ⟨_, hsome, hstaged⟩ := staged_of_loop plan.historyPredecessor.blockId hloop
    cases hsome
    simp only [map_cons, head?_cons, Option.some.injEq] at hfirst
    subst hfirst
    refine ⟨⟨v, chain, rfl, hstaged⟩, ⟨hheight.trans plan.firstAvailable, hparent, hstaged.linked⟩,
      ⟨?_, ?_⟩, htip, rfl⟩
    · simpa [map_map, Function.comp_def] using hhashes
    · simpa [flatMap_map] using hids

theorem publishBaseline_position (h : publishBaseline b = .ok s) :
    s.readyEvidence.firstRetainedBlock.height = b.plan.historyPredecessor.blockId.height + 1 ∧
      s.readyEvidence.visibleTip = b.plan.buildTip := by
  obtain ⟨_, _, roots, first, _, steps⟩ := publishBaseline_steps h
  have hload := steps.loaded
  have hfirst := steps.head
  have hblocks := attachRoots_blocks roots b.plan.historyPredecessor.tipMetadata b.blocks
  rw [← hblocks] at hload hfirst
  obtain ⟨⟨v, rest, hchain, _⟩, hlinked, _, htip, _⟩ := bulkLoadBlocks_eq_ok hload
  rw [hchain] at hlinked hfirst
  cases hfirst
  rw [steps.store]
  exact ⟨hlinked.1, htip⟩

/-! ## The loaded roots -/

section Load

variable {R : Type} {label : String}
  {stage : ShieldedProtocol → Nat → Option Nat → R → Except CanonicalStoreError SubtreeRootArtifact}

omit [DecidableEq D] in
theorem stageRange_positions
    (hstage : ∀ p i previous r a, stage p i previous r = .ok a → a.position = (p, i))
    {expected : List (ShieldedProtocol × Nat)} {previous : Option Nat} {source remaining : List R}
    {artifacts : List SubtreeRootArtifact}
    (h : stageRange stage label expected previous source = .ok (artifacts, remaining)) :
    artifacts.map SubtreeRootArtifact.position = expected := by
  induction expected generalizing previous source artifacts with
  | nil =>
    cases h
    rfl
  | cons position expected ih =>
    obtain ⟨p, i⟩ := position
    cases source with
    | nil => simp [stageRange] at h
    | cons root source =>
      simp only [stageRange, bind_eq_ok] at h
      obtain ⟨a, ha, ⟨as, rest⟩, has, h⟩ := h
      cases h
      rw [map_cons, ih has, hstage p i previous root a ha]

omit [DecidableEq D] in
theorem stageRanges_positions {position : R → ShieldedProtocol × Nat}
    (hstage : ∀ p i previous r a, stage p i previous r = .ok a → a.position = (p, i))
    {ranges : List SubtreeRootRange} {source : List R} {artifacts : List SubtreeRootArtifact}
    (h : stageRanges stage position label ranges source = .ok artifacts) :
    artifacts.map SubtreeRootArtifact.position = ranges.flatMap SubtreeRootRange.indexes := by
  induction ranges generalizing source artifacts with
  | nil =>
    cases source with
    | nil =>
      cases h
      rfl
    | cons extra source => simp [stageRanges] at h
  | cons range ranges ih =>
    simp only [stageRanges, bind_eq_ok] at h
    obtain ⟨⟨first, remaining⟩, hfirst, rest, hrest, h⟩ := h
    cases h
    rw [map_append, stageRange_positions hstage hfirst, ih hrest, flatMap_cons]

end Load

omit [DecidableEq D] in
theorem stageRetainedRoot_position {p : ShieldedProtocol} {i : Nat} {previous : Option Nat}
    {root : CanonicalBuildSubtreeRoot} {a : SubtreeRootArtifact}
    (h : stageRetainedRoot db plan p i previous root = .ok a) :
    a.position = (p, i) := by
  simp only [stageRetainedRoot, bind_eq_ok, rejectIf_eq_ok, not_or, not_not] at h
  obtain ⟨_, ⟨hp, hi⟩, _, _, _, _, _, _, h⟩ := h
  cases h
  rw [SubtreeRootArtifact.position, hp, hi]

omit [DecidableEq D] in
theorem stagePrefixRoot_position {p : ShieldedProtocol} {i : Nat} {previous : Option Nat}
    {root a : SubtreeRootArtifact} (h : stagePrefixRoot db plan p i previous root = .ok a) :
    a.position = (p, i) := by
  simp only [stagePrefixRoot, bind_eq_ok, rejectIf_eq_ok, not_or, not_not] at h
  obtain ⟨_, ⟨hp, hi⟩, _, _, _, _, h⟩ := h
  have hroot : root = a := by
    split at h
    · simp only [bind_eq_ok] at h
      obtain ⟨_, _, _, _, h⟩ := h
      exact Except.ok.inj h
    · simp only [bind_eq_ok] at h
      obtain ⟨_, _, _, _, h⟩ := h
      exact Except.ok.inj h
  rw [← hroot, SubtreeRootArtifact.position, hp, hi]

omit [DecidableEq D] in
/-- The loaded roots are those completed up to the tip, from the history predecessor or from the
start of the chain. -/
theorem loadSubtreeRoots_positions {tip : ChainTipMetadata} {load : SubtreeRootLoad}
    (h : loadSubtreeRoots db plan tip load = .ok roots) :
    ∃ origin, SubtreeMonotone origin plan.historyPredecessor.tipMetadata ∧
      roots.map SubtreeRootArtifact.position = completedBetween origin tip := by
  cases load with
  | retainedRange source =>
    simp only [loadSubtreeRoots, bind_eq_ok] at h
    obtain ⟨ranges, hranges, hstage⟩ := h
    refine ⟨plan.historyPredecessor.tipMetadata, SubtreeMonotone.refl _, ?_⟩
    rw [stageRanges_positions (fun _ _ _ _ _ => stageRetainedRoot_position) hstage,
      (requiredSubtreeRootRanges_eq_ok hranges).2]
  | completePrefix source =>
    simp only [loadSubtreeRoots, bind_eq_ok] at h
    obtain ⟨ranges, hranges, hstage⟩ := h
    refine ⟨ChainTipMetadata.empty, fun p => ?_, ?_⟩
    · cases p <;> simp [ChainTipMetadata.completedSubtreeCount, ChainTipMetadata.empty,
        ChainTipMetadata.commitmentTreeSize]
    · rw [stageRanges_positions (fun _ _ _ _ _ => stagePrefixRoot_position) hstage,
        (requiredSubtreeRootRanges_eq_ok hranges).2]

/-! ## The rows of a baseline -/

def loadedRows (plan : CanonicalStoreBuildPlan) (chain : Chain E) : List (Row (Val D)) :=
  predecessorRow plan :: (chain.map VisibleBlock.block).flatMap blockRows

omit [DecidableEq D] in
theorem loadedRows_sublist (plan : CanonicalStoreBuildPlan) (earlier : List SubtreeRootArtifact)
    (chain : Chain E) : (loadedRows plan chain).Sublist (storedRows plan earlier chain) := by
  refine List.Sublist.cons_cons _ (List.Sublist.trans ?_ (sublist_append_right _ _))
  induction chain with
  | nil => exact List.Sublist.refl _
  | cons v chain ih =>
    rw [map_cons, flatMap_cons, flatMap_cons]
    exact (sublist_append_left _ _).append ih

omit [DecidableEq D] in
theorem dlookup_rootRows_of_ne (hk : ∀ p i, k ≠ .subtreeRoot p i)
    (roots : List SubtreeRootArtifact) :
    (roots.map SubtreeRootArtifact.row : List (Row (Val D))).dlookup k = none := by
  rw [dlookup_eq_none, rootRows_keys]
  intro hmem
  obtain ⟨position, _, rfl⟩ := mem_map.mp hmem
  exact hk _ _ rfl

omit [DecidableEq D] in
theorem dlookup_storedRows_of_ne (hk : ∀ p i, k ≠ .subtreeRoot p i) (plan : CanonicalStoreBuildPlan)
    (earlier : List SubtreeRootArtifact) (chain : Chain E) :
    (storedRows plan earlier chain : List (Row (Val D))).dlookup k =
      (loadedRows plan chain).dlookup k := by
  have hblocks : (chain.flatMap VisibleBlock.rows).dlookup k =
      ((chain.map VisibleBlock.block).flatMap blockRows).dlookup k := by
    induction chain with
    | nil => rfl
    | cons v chain ih =>
      rw [map_cons, flatMap_cons, flatMap_cons, dlookup_append,
        dlookup_append, ih, VisibleBlock.rows, dlookup_append,
        dlookup_rootRows_of_ne hk, Option.or_none]
  rw [storedRows, loadedRows, ← singleton_append, dlookup_append, dlookup_append,
    dlookup_rootRows_of_ne hk, Option.none_or, hblocks, ← dlookup_append,
    singleton_append]

def loadedDb (plan : CanonicalStoreBuildPlan) (chain : Chain E)
    (roots : List SubtreeRootArtifact) : Db D :=
  write ((roots.map SubtreeRootArtifact.row).map Op.ofRow)
    (write ((loadedRows plan chain).map Op.ofRow) ∅)

omit [DecidableEq D] in
theorem lookup_loadedDb_of_ne (hk : ∀ p i, k ≠ .subtreeRoot p i)
    (earlier : List SubtreeRootArtifact)
    (hcount : (storedRows plan earlier chain : List (Row (Val D))).keys.count k ≤ 1) :
    (loadedDb plan chain roots).lookup k = (storedRows plan earlier chain).dlookup k := by
  have huntouched : k ∉ ((roots.map SubtreeRootArtifact.row : List (Row (Val D))).map
      Op.ofRow).map Op.key := by
    rw [Op.map_key_ofRow]
    exact dlookup_eq_none.mp (dlookup_rootRows_of_ne hk roots)
  have hloaded : (loadedRows plan chain).keys.count k ≤ 1 :=
    (((loadedRows_sublist plan earlier chain).map Sigma.fst).count_le k).trans hcount
  rw [loadedDb, lookup_write_of_untouched huntouched, lookup_write_puts hloaded,
    dlookup_storedRows_of_ne hk]
  simp

/-! ## Publication -/

/-- What a successful publication establishes for the chain it loads. -/
structure PublicationSpec (b : CanonicalBaseline E) (s : RocksDbCanonicalStore D)
    (chain : Chain E) (roots : List SubtreeRootArtifact) (k : Nat) : Prop where
  plan : s.buildPlan = b.plan
  linked : Linked b.plan.historyPredecessor.blockId chain
  admitted : ∀ v ∈ chain, Admitted v.block
  unique : UniqueIds chain
  advance : SubtreesAdvance (chain.head?.elim b.plan.historyPredecessor.tipMetadata
    fun v => v.block.tipMetadata) chain.tail
  settled_pos : 0 < k
  settled_le : k ≤ chain.length
  visible : s.readyEvidence.visibleSummary =
    sequenceSummary b.plan.historyPredecessor.blockId chain
  settled : s.readyEvidence.sequenceCheckpoint =
    sequenceSummary b.plan.historyPredecessor.blockId (chain.take k)
  epoch : ∃ e, s.db.lookup (Key.chainEpoch s.readyEvidence.visibleEpoch) = some e ∧
    e.visibleTip = s.readyEvidence.visibleTip ∧
    e.settledTip = s.readyEvidence.sequenceCheckpoint.through
  fence : s.readyEvidence.visibleEpoch = s.readyEvidence.visibleEventSequence
  window : s.readyEvidence.visibleTip.height -
    s.readyEvidence.sequenceCheckpoint.through.height ≤ s.window
  rootPositions : ∃ origin, SubtreeMonotone origin b.plan.historyPredecessor.tipMetadata ∧
    roots.map SubtreeRootArtifact.position =
      completedBetween origin (tipSizes b.plan.historyPredecessor.tipMetadata chain)
  db : ∃ p : LivePublication D,
    s.db = write (p.rows.map Op.ofRow) (loadedDb b.plan chain roots)

theorem publishBaseline_eq_ok (hroots : b.loadedRoots = .ok roots) (h : publishBaseline b = .ok s)
    (hchain : chain.map VisibleBlock.block = b.blocks) :
    ∃ k, PublicationSpec b s chain roots k := by
  obtain ⟨blockDb, sequence, roots', first, settled, steps⟩ := publishBaseline_steps h
  have hload := steps.loaded
  have hroots' := steps.loadedRoots
  have hsettled := steps.prepared
  have hready := steps.confirmed
  simp only [CanonicalBaseline.loadedRoots, bind_eq_ok, hload, Except.ok.injEq,
    exists_eq_left', hroots'] at hroots
  subst hroots
  obtain rfl := steps.store
  rw [← hchain] at hload
  obtain ⟨⟨v, rest, rfl, hstaged⟩, hlinked, hunique, htip, rfl⟩ := bulkLoadBlocks_eq_ok hload
  simp only [prepareBaseline, bind_eq_ok, okOr_eq_ok, checkedSub_eq_some, rejectIf_eq_ok,
    not_lt] at hsettled
  obtain ⟨_, _, _, ⟨_, rfl⟩, _, hwindow, hfind⟩ := hsettled
  obtain ⟨k, hpos, hle, htake⟩ := hstaged.retained settled (mem_of_find?_eq_some hfind)
  have hthrough : settled.through = b.settledTip := by
    simpa using find?_some hfind
  simp only [validateReadySequenceCheckpoint, readChainEpoch, bind_eq_ok, okOr_eq_ok,
    rejectIf_eq_ok, not_or, not_not] at hready
  obtain ⟨epoch, hepoch, _, ⟨hvisibleTip, hsettledTip⟩, _⟩ := hready
  refine ⟨k, ?_⟩
  exact
    { plan := rfl
      linked := hlinked
      admitted := hstaged.admitted
      unique := hunique
      advance := hstaged.advance
      settled_pos := hpos
      settled_le := hle
      visible := by
        simp only [baselinePublication, CanonicalStoreReadyEvidence.visibleSummary,
          CanonicalStoreReadyEvidence.visibleDigest, hstaged.checkpoint]
        rw [← sequenceSummary_digest]
      settled := htake
      epoch := ⟨epoch, hepoch, hvisibleTip, hsettledTip⟩
      fence := rfl
      window := by
        simp only [baselinePublication, RocksDbCanonicalStore.window, hthrough]
        exact hwindow
      rootPositions := by
        rw [hstaged.sizes] at hroots'
        exact loadSubtreeRoots_positions hroots'
      db := ⟨_, rfl⟩ }

theorem Published.invariant {st : LiveState E} (h : Published st) : ∃ k, LiveInvariant st k := by
  obtain ⟨hroots, h⟩ := h
  obtain ⟨k, spec⟩ := publishBaseline_eq_ok hroots h (attachRoots_blocks _ _ _)
  obtain ⟨p, hdb⟩ := spec.db
  refine ⟨k, ?_⟩
  exact
    { holds := by
        simp only [spec.plan]
        refine ⟨spec.linked, spec.admitted, fun key hkey => ?_⟩
        have hne : ∀ q i, key ≠ .subtreeRoot q i := by
          rintro q i rfl
          simp [Key.IsHeightKey, Key.height?] at hkey
        rw [hdb, lookup_write_of_untouched (fun hmem => p.not_heightKey hmem hkey)]
        exact lookup_loadedDb_of_ne hne _
          (count_storedRows_of_heightKey spec.linked spec.admitted hkey)
      settled_pos := spec.settled_pos
      settled_le := spec.settled_le
      visible := by
        simp only [LiveState.start, spec.plan]
        exact spec.visible
      settled := by
        simp only [LiveState.start, spec.plan]
        exact spec.settled
      epoch := spec.epoch
      fence := spec.fence
      window := spec.window }

end Zinder.Canonical
