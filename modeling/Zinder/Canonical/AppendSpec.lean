import Zinder.Canonical.ChainReads
import Zinder.Canonical.LiveCommit

/-!
# Zinder.Canonical.AppendSpec

What a successful live append establishes (`AppendSpec`), read off the checks of the preparation
and of the readback once and used by every later proof.
-/

namespace Zinder.Canonical

open KeyValue

variable {D : Type} {E : Env D}

def CanonicalLiveAppend.visible (a : CanonicalLiveAppend E) : VisibleBlock E :=
  ⟨a.block, a.subtreeRoots.map (completedRoot a.block)⟩

def CanonicalStoreReadyEvidence.visibleSummary (e : CanonicalStoreReadyEvidence D) :
    CanonicalSequenceCheckpoint D :=
  { through := e.visibleTip
    retainedBlockCount := e.visibleBlockCount
    sequenceDigest := e.visibleDigest
    logicalReplayBytes := e.visibleLogicalReplayBytes }

/-! ## The anchor -/

structure AnchorSpec (s : RocksDbCanonicalStore D) (anchor : CanonicalAppendAnchor D) : Prop where
  fence : anchor.eventFence = s.eventFence
  epoch : ∃ e, s.db.lookup (Key.chainEpoch s.readyEvidence.visibleEpoch) = some e ∧
    e.visibleTip = s.readyEvidence.visibleTip ∧ e.settledTip = anchor.settledTip
  tip : anchor.tipCheckpoint.blockId = s.readyEvidence.visibleTip
  sizes : readPersistedTipMetadata s.db s.readyEvidence.visibleTip =
    .ok anchor.tipCheckpoint.tipMetadata

theorem appendAnchor_eq_ok {s : RocksDbCanonicalStore D} {anchor : CanonicalAppendAnchor D}
    (h : s.appendAnchor = .ok anchor) : AnchorSpec s anchor := by
  simp only [RocksDbCanonicalStore.appendAnchor, bind_eq_ok, readChainEpoch, okOr_eq_ok,
    rejectIf_eq_ok, not_not, readPersistedTipCheckpoint] at h
  obtain ⟨epoch, hepoch, _, htip, checkpoint, ⟨row, hrow, hcheckpoint⟩, sizes, hsizes, _, hmeta,
    h⟩ := h
  cases h
  cases hcheckpoint
  have htip : epoch.visibleTip = s.readyEvidence.visibleTip := htip
  refine ⟨rfl, ⟨epoch, hepoch, htip, rfl⟩, htip, ?_⟩
  rw [← htip, hsizes, hmeta]

/-! ## Settlement -/

structure SettlementSpec (db : Db D) (ready : CanonicalStoreReadyEvidence D)
    (t : LiveSettlementTransition) : Prop where
  through : ready.sequenceCheckpoint.through = t.previousSettledTip
  previous_le : t.previousSettledTip.height ≤ t.settledTip.height
  settled_le : t.settledTip.height ≤ t.visibleTip.height
  lag_le : t.visibleTip.height - t.settledTip.height ≤ t.reorgWindowBlocks
  advance_le : t.settledTip.height - t.previousSettledTip.height ≤ t.reorgWindowBlocks
  unchanged : t.settledTip.height = t.previousSettledTip.height →
    t.settledTip.hash = t.previousSettledTip.hash
  identity : t.settledTip = t.visibleTip ∨
    (t.settledTip.height < t.visibleTip.height ∧
      ready.firstRetainedBlock.height ≤ t.settledTip.height ∧
      retainedBlockHash db t.settledTip.height = .ok t.settledTip.hash)

theorem BlockId.ext_of {a b : BlockId} (hh : a.height = b.height) (hx : a.hash = b.hash) :
    a = b := by
  cases a; cases b; simp_all

theorem validateSettledTip_eq_ok {db : Db D} {first visible settled : BlockId} :
    validateSettledTip db first visible settled = .ok () ↔
      (first.height ≤ settled.height ∧ settled.height ≤ visible.height) ∧
        retainedBlockHash db settled.height = .ok settled.hash := by
  simp only [validateSettledTip, bind_eq_ok, rejectIf_eq_ok, not_or, not_lt, not_not]
  constructor
  · rintro ⟨_, hbounds, _, hread, rfl⟩
    exact ⟨hbounds, hread⟩
  · rintro ⟨hbounds, hread⟩
    exact ⟨(), hbounds, _, hread, rfl⟩

theorem validateLiveSettledTip_eq_ok {db : Db D} {ready : CanonicalStoreReadyEvidence D}
    {t : LiveSettlementTransition} :
    validateLiveSettledTip db ready t = .ok () ↔ SettlementSpec db ready t := by
  simp only [validateLiveSettledTip, bind_eq_ok, rejectIf_eq_ok, okOr_eq_ok, checkedSub_eq_some,
    not_or, not_lt, not_not, not_and]
  constructor
  · rintro ⟨_, hthrough, _, ⟨hprev, hle⟩, _, ⟨_, rfl⟩, _, hlag, _, ⟨_, rfl⟩, _, hadvance, _,
      hunchanged, hrest⟩
    refine ⟨hthrough, hprev, hle, hlag, hadvance, hunchanged, ?_⟩
    split at hrest
    · next heq =>
      rw [rejectIf_eq_ok, not_not] at hrest
      exact .inl (BlockId.ext_of heq hrest)
    · next hne =>
      obtain ⟨⟨hfirst, _⟩, hread⟩ := validateSettledTip_eq_ok.mp hrest
      exact .inr ⟨by omega, hfirst, hread⟩
  · intro h
    refine ⟨(), h.through, (), ⟨h.previous_le, h.settled_le⟩, _, ⟨h.settled_le, rfl⟩, (), h.lag_le,
      _, ⟨h.previous_le, rfl⟩, (), h.advance_le, (), h.unchanged, ?_⟩
    rcases h.identity with heq | ⟨hlt, hfirst, hread⟩
    · simp [heq]
    · rw [if_neg (by omega)]
      exact validateSettledTip_eq_ok.mpr ⟨⟨hfirst, h.settled_le⟩, hread⟩

/-! ## Sequence -/

theorem appendToSequence_eq_ok {c c' : CanonicalSequenceCheckpoint D} {b : CanonicalBuildBlock E}
    {countError bytesError : String} :
    appendToSequence c b countError bytesError = .ok c' ↔
      c.sequenceDigest.blockCount + 1 < u64Bound ∧ c.retainedBlockCount + 1 < u64Bound ∧
      c.logicalReplayBytes + b.replayBytes < u64Bound ∧
      c' = ⟨b.blockId, c.retainedBlockCount + 1, c.sequenceDigest.push E.hash b.digest,
        c.logicalReplayBytes + b.replayBytes⟩ := by
  simp only [appendToSequence, bind_eq_ok, okOr_eq_ok,
    CanonicalBlockFactsSequenceDigest.tryAppend_eq_some, checkedAdd_eq_some]
  constructor
  · rintro ⟨_, ⟨h1, rfl⟩, _, ⟨h2, rfl⟩, _, ⟨h3, rfl⟩, h⟩
    cases h
    exact ⟨h1, h2, h3, rfl⟩
  · rintro ⟨h1, h2, h3, rfl⟩
    exact ⟨_, ⟨h1, rfl⟩, _, ⟨h2, rfl⟩, _, ⟨h3, rfl⟩, rfl⟩

theorem appendToSequence_summary {start : BlockId} {chain : Chain E} {v : VisibleBlock E}
    {c : CanonicalSequenceCheckpoint D} {countError bytesError : String}
    (h : appendToSequence (sequenceSummary start chain) v.block countError bytesError = .ok c) :
    c = sequenceSummary start (chain ++ [v]) := by
  rw [appendToSequence_eq_ok] at h
  rw [h.2.2.2, sequenceSummary_concat]

theorem nextLiveFence_eq_ok {ready : CanonicalStoreReadyEvidence D} {epoch sequence : Nat} :
    nextLiveFence ready = .ok (epoch, sequence) ↔
      ready.visibleEpoch + 1 < u64Bound ∧ ready.visibleEventSequence = ready.visibleEpoch ∧
      epoch = ready.visibleEpoch + 1 ∧ sequence = ready.visibleEpoch + 1 := by
  simp only [nextLiveFence, bind_eq_ok, okOr_eq_ok, checkedAdd_eq_some, rejectIf_eq_ok, not_not]
  constructor
  · rintro ⟨_, ⟨hlt, rfl⟩, _, ⟨_, rfl⟩, _, hsame, h⟩
    cases h
    exact ⟨hlt, by omega, rfl, hsame⟩
  · rintro ⟨hlt, hsame, rfl, rfl⟩
    exact ⟨_, ⟨hlt, rfl⟩, _, ⟨by omega, rfl⟩, (), by omega, by rw [hsame]⟩

/-! ## Publication rows -/

theorem LivePublication.rows_keys (p : LivePublication D) :
    p.rows.keys =
      [.chainEpoch p.ready.visibleEpoch, .chainEvent p.ready.visibleEventSequence,
        .storeControl] := rfl

theorem LivePublication.key_not_block (p : LivePublication D) {k : Key}
    (hk : k ∈ p.rows.keys) : k.isBlockFamily = false ∧ k.isArchive = false := by
  rw [p.rows_keys] at hk
  simp only [List.mem_cons, List.not_mem_nil, or_false] at hk
  rcases hk with rfl | rfl | rfl <;> exact ⟨rfl, rfl⟩

section

variable [DecidableEq D]

theorem validateRowsReadback_eq_ok {db : Db D} {rows : List (Row (Val D))}
    {failure : Key → CanonicalStoreError} {u : Unit} :
    validateRowsReadback db rows failure = .ok u ↔ ∀ r ∈ rows, db.lookup r.1 = some r.2 := by
  simp only [validateRowsReadback, bind_eq_ok, collect_eq_ok]
  constructor
  · rintro ⟨us, hall, _⟩
    induction hall with
    | nil => simp
    | cons hr _ ih =>
      rw [rejectIf_eq_ok, not_not] at hr
      simpa using ⟨hr, ih⟩
  · intro h
    refine ⟨rows.map fun _ => (), ?_, trivial⟩
    induction rows with
    | nil => simp
    | cons r rows ih =>
      refine .cons ?_ (ih fun q hq => h q (List.mem_cons_of_mem _ hq))
      rw [rejectIf_eq_ok, not_not]
      exact h r List.mem_cons_self

/-! ## The append -/

def appendedEvidence (ready : CanonicalStoreReadyEvidence D) (b : CanonicalBuildBlock E)
    (checkpoint : CanonicalSequenceCheckpoint D) : CanonicalStoreReadyEvidence D :=
  { ready with
    visibleTip := b.blockId
    visibleEpoch := ready.visibleEpoch + 1
    visibleEventSequence := ready.visibleEpoch + 1
    visibleBlockCount := ready.visibleBlockCount + 1
    visibleSequenceDigest := (ready.visibleDigest.push E.hash b.digest).bytes
    visibleLogicalReplayBytes := ready.visibleLogicalReplayBytes + b.replayBytes
    sequenceCheckpoint := checkpoint }

/-- What a prepared append establishes about the store it was prepared against. `sizes` are the
tree sizes at the old tip, `checkpoint` the new settled summary. -/
structure AppendSpec (s : RocksDbCanonicalStore D) (a : CanonicalLiveAppend E)
    (sizes : ChainTipMetadata) (checkpoint : CanonicalSequenceCheckpoint D) : Prop where
  fence : a.expectedFence = s.eventFence
  valid : validateLiveBlock s.workload s.buildPlan.rawBlobRetention a.block = .ok ()
  height : a.block.height = s.readyEvidence.visibleTip.height + 1
  parent : a.block.parentHash = s.readyEvidence.visibleTip.hash
  sizes_eq : readPersistedTipMetadata s.db s.readyEvidence.visibleTip = .ok sizes
  monotone : SubtreeMonotone sizes a.block.tipMetadata
  roots : a.subtreeRoots.map CanonicalBuildSubtreeRoot.position =
    completedBetween sizes a.block.tipMetadata
  epoch : ∃ e, s.db.lookup (Key.chainEpoch s.readyEvidence.visibleEpoch) = some e ∧
    e.visibleTip = s.readyEvidence.visibleTip ∧
    e.settledTip = s.readyEvidence.sequenceCheckpoint.through
  settlement : SettlementSpec s.db s.readyEvidence
    ⟨s.window, s.readyEvidence.sequenceCheckpoint.through, a.settledTip, a.block.blockId⟩
  checkpoint_eq : advanceSettledSequenceCheckpoint s.db s.readyEvidence
    ⟨s.window, s.readyEvidence.sequenceCheckpoint.through, a.settledTip, a.block.blockId⟩
    a.block = .ok checkpoint
  epoch_lt : s.readyEvidence.visibleEpoch + 1 < u64Bound

theorem AppendSpec.admitted {s : RocksDbCanonicalStore D} {a : CanonicalLiveAppend E}
    {sizes : ChainTipMetadata} {checkpoint : CanonicalSequenceCheckpoint D}
    (h : AppendSpec s a sizes checkpoint) : Admitted a.block :=
  validateBlock_admitted h.valid

/-- What a prepared append is going to write. -/
structure AppendPrepared (s : RocksDbCanonicalStore D) (a : CanonicalLiveAppend E)
    (checkpoint : CanonicalSequenceCheckpoint D) (p : PreparedLiveAppendCommit D) : Prop where
  blockRows : p.blockRows = a.visible.rows
  ready : p.publication.ready = appendedEvidence s.readyEvidence a.block checkpoint
  epoch : p.publication.epoch = ⟨a.block.blockId, a.settledTip, a.block.tipMetadata, a.createdAt⟩
  event : p.publication.event = liveEvent s.readyEvidence.visibleEpoch none
    ⟨a.block.height, a.block.height⟩ p.publication.ready
  control : p.publication.control = ⟨s.workload, s.buildPlan, p.publication.ready⟩
  previousEpochId : p.previousEpochId = s.readyEvidence.visibleEpoch

theorem prepareLiveAppend_eq_ok {s : RocksDbCanonicalStore D} {a : CanonicalLiveAppend E}
    {activations : NetworkUpgradeActivations} {prepared : PreparedLiveAppendCommit D}
    (h : prepareLiveAppend s a activations = .ok prepared) :
    ∃ sizes checkpoint, AppendSpec s a sizes checkpoint ∧
      AppendPrepared s a checkpoint prepared := by
  simp only [prepareLiveAppend, bind_eq_ok, rejectIf_eq_ok, not_not] at h
  obtain ⟨_, _, anchor, hanchor, _, hfence, _, hvalid, tip, hextend, _, _, _, hsettled, checkpoint,
    hcheckpoint, ⟨epoch, sequence⟩, hnext, ⟨digest, bytes⟩, hvisible, rows, hrows, h⟩ := h
  have hspec := appendAnchor_eq_ok hanchor
  simp only [validateLiveBlockExtension, bind_eq_ok, okOr_eq_ok, nextHeight_eq_some,
    rejectIf_eq_ok, not_or, not_not] at hextend
  obtain ⟨_, ⟨_, rfl⟩, _, ⟨hheight, hparent⟩, htip⟩ := hextend
  obtain rfl : a.block.blockId = tip := by simpa using htip
  have hsettlement := validateLiveSettledTip_eq_ok.mp hsettled
  have hprevious : anchor.settledTip = s.readyEvidence.sequenceCheckpoint.through :=
    hsettlement.through.symm
  rw [hprevious] at hsettlement hcheckpoint
  obtain ⟨hlt, _, rfl, rfl⟩ := nextLiveFence_eq_ok.mp hnext
  simp only [advanceVisibleSequence, bind_eq_ok, okOr_eq_ok,
    CanonicalBlockFactsSequenceDigest.tryAppend_eq_some, checkedAdd_eq_some] at hvisible
  obtain ⟨_, ⟨_, rfl⟩, _, ⟨_, rfl⟩, hvisible⟩ := hvisible
  cases hvisible
  obtain ⟨hmono, hroots, hrows⟩ := fromBlock_eq_ok hrows
  obtain ⟨e, he, hetip, hesettled⟩ := hspec.epoch
  refine ⟨anchor.tipCheckpoint.tipMetadata, checkpoint, ?_, ?_⟩
  · exact
      { fence := by rw [hfence, hspec.fence]
        valid := hvalid
        height := hheight
        parent := hparent
        sizes_eq := hspec.sizes
        monotone := hmono
        roots := hroots
        epoch := ⟨e, he, hetip, hesettled.trans hprevious⟩
        settlement := hsettlement
        checkpoint_eq := hcheckpoint
        epoch_lt := hlt }
  · cases h
    exact ⟨hrows, rfl, rfl, rfl, rfl, rfl⟩

/-- A successful append writes one batch, reads every row back, and publishes the new evidence. -/
theorem commitLiveAppend_eq_ok {s s' : RocksDbCanonicalStore D} {a : CanonicalLiveAppend E}
    {activations : NetworkUpgradeActivations} {fence : CanonicalEventFence D}
    (h : commitLiveAppend s a activations = .ok (s', fence)) :
    ∃ sizes checkpoint, ∃ p : LivePublication D, AppendSpec s a sizes checkpoint ∧
      p.ready = appendedEvidence s.readyEvidence a.block checkpoint ∧
      p.epoch = ⟨a.block.blockId, a.settledTip, a.block.tipMetadata, a.createdAt⟩ ∧
      s' = { s with
        db := write (a.visible.rows.map Op.ofRow ++ p.rows.map Op.ofRow) s.db
        readyEvidence := p.ready } ∧
      (∀ r ∈ a.visible.rows, s'.db.lookup r.1 = some r.2) ∧
      ∀ r ∈ p.rows, s'.db.lookup r.1 = some r.2 := by
  simp only [commitLiveAppend, bind_eq_ok, mapError_ok_iff] at h
  obtain ⟨prepared, hprepared, _, hreadback, h⟩ := h
  obtain ⟨sizes, checkpoint, hspec, hprepared⟩ := prepareLiveAppend_eq_ok hprepared
  simp only [validateLiveCommitReadback, bind_eq_ok, validateRowsReadback_eq_ok] at hreadback
  obtain ⟨_, hrowsback, _, hpublished, _⟩ := hreadback
  rw [hprepared.blockRows] at hrowsback hpublished h
  cases h
  exact ⟨sizes, checkpoint, prepared.publication, hspec, hprepared.ready, hprepared.epoch, rfl,
    hrowsback, hpublished⟩

end

end Zinder.Canonical
