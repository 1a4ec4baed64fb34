import Zinder.Canonical.Finality

/-!
# Zinder.Canonical.StoreReady

What every reachable store has beyond `LiveInvariant`, so that the next transition can succeed:

* its archive can be read and holds nothing past the current event (`ArchiveReady`);
* every visible block passed the checks of a wallet store, the last one as a transition tip;
* no completed-subtree count falls from one visible block to the next.

`Published.ready` and `LiveStep.ready` establish and keep it.
-/

namespace Zinder.Canonical

open KeyValue Relation List

variable {D : Type} {E : Env D}

/-! ## The archive -/

/-- The archive at event `sequence`: its state can be read, and no event context lies ahead. -/
structure ArchiveReady (db : Db D) (window sequence : Nat) : Prop where
  readable : ∃ prior, readArchiveState db window = .ok prior ∧
    ∀ state ∈ prior, state.latestEventSequence ≤ sequence
  fresh : ∀ n, sequence < n → db.lookup (Key.displacedEventContext n) = none

variable {r : CanonicalLiveReplacement E} {window : Nat} {activations : NetworkUpgradeActivations}
  {fence : CanonicalEventFence D} {s s' : RocksDbCanonicalStore D} {v : VisibleBlock E}
  {chain : Chain E} {a : CanonicalLiveAppend E} {st : LiveState E} {db : Db D} {k : Key}

theorem mem_keys_iff : k ∈ db.keys ↔ (db.lookup k).isSome = true := by
  rw [Finmap.mem_keys, ← Finmap.lookup_isSome]

theorem readArchiveState_congr {db db' : Db D}
    (h : ∀ k : Key, k.isArchive = true → db'.lookup k = db.lookup k) :
    readArchiveState db' window = readArchiveState db window := by
  have hcontext : ∀ n, readEventContext db' n = readEventContext db n := by
    intro n
    rw [readEventContext, readEventContext, h _ rfl]
  have hkeys : (∃ k ∈ db'.keys, k.isArchive = true) ↔ ∃ k ∈ db.keys, k.isArchive = true := by
    refine exists_congr fun k => ?_
    constructor
    · rintro ⟨hmem, hk⟩
      exact ⟨mem_keys_iff.mpr (h k hk ▸ mem_keys_iff.mp hmem), hk⟩
    · rintro ⟨hmem, hk⟩
      exact ⟨mem_keys_iff.mpr ((h k hk).symm ▸ mem_keys_iff.mp hmem), hk⟩
  simp only [readArchiveState, h Key.displacedState rfl, hkeys, validateArchiveState, hcontext]

theorem ArchiveReady.of_untouched {db db' : Db D} {window sequence sequence' : Nat}
    (ready : ArchiveReady db window sequence)
    (h : ∀ k : Key, k.isArchive = true → db'.lookup k = db.lookup k)
    (hle : sequence ≤ sequence') : ArchiveReady db' window sequence' := by
  obtain ⟨prior, hread, hlatest⟩ := ready.readable
  refine ⟨⟨prior, ?_, fun state hstate => (hlatest state hstate).trans hle⟩, fun n hn => ?_⟩
  · rw [readArchiveState_congr h, hread]
  · rw [h _ rfl, ready.fresh n (by omega)]

theorem checkedReorgRangeCount_eq_ok {window count : Nat} {range : BlockHeightRange} :
    checkedReorgRangeCount window range = .ok count ↔
      range.start ≤ range.stop ∧ range.stop - range.start + 1 < u32Bound ∧
        range.stop - range.start + 1 ≤ window ∧ range.stop - range.start + 1 = count := by
  simp only [checkedReorgRangeCount, bind_eq_ok, okOr_eq_ok, checkedSub_eq_some,
    checkedAdd_eq_some, rejectIf_eq_ok, not_lt]
  constructor
  · rintro ⟨_, ⟨hle, rfl⟩, _, ⟨hlt, rfl⟩, _, hwindow, h⟩
    cases h
    exact ⟨hle, hlt, hwindow, rfl⟩
  · rintro ⟨hle, hlt, hwindow, rfl⟩
    exact ⟨_, ⟨hle, rfl⟩, _, ⟨hlt, rfl⟩, (), hwindow, rfl⟩

theorem validateEventContext_eq_ok {window count : Nat} {context : ArchiveEventContext} :
    validateEventContext window context = .ok count ↔
      context.eventSequence ≠ 0 ∧ context.displacementEpoch = context.eventSequence ∧
      context.rowCount ≠ 0 ∧ context.rowCount ≤ context.cumulativeBlockCount ∧
      checkedReorgRangeCount window context.revertedRange = .ok count ∧
      context.rowCount = count := by
  simp only [validateEventContext, bind_eq_ok, rejectIf_eq_ok, not_or, not_not, not_lt]
  constructor
  · rintro ⟨_, ⟨h1, h2, h3, h4⟩, _, h5, _, h6, h⟩
    cases h
    exact ⟨h1, h2, h3, h4, h5, h6⟩
  · rintro ⟨h1, h2, h3, h4, h5, h6⟩
    exact ⟨(), ⟨h1, h2, h3, h4⟩, count, h5, (), h6, rfl⟩

/-- What the archive state is checked against: the contexts of its first and its latest event. -/
structure ArchiveStateSpec (db : Db D) (window : Nat) (state : ArchiveState) : Prop where
  activation_ne : state.activationEventSequence ≠ 0
  activation_epoch : state.activationEpoch = state.activationEventSequence
  count_ne : state.blockCount ≠ 0
  activation_le : state.activationEventSequence ≤ state.latestEventSequence
  activation : ∃ context count,
    db.lookup (Key.displacedEventContext state.activationEventSequence) = some context ∧
    validateEventContext window context = .ok count ∧ count ≤ state.blockCount ∧
    state.activationEpoch = context.displacementEpoch ∧ state.activatedAt = context.displacedAt
  latest : ∃ context count,
    db.lookup (Key.displacedEventContext state.latestEventSequence) = some context ∧
    validateEventContext window context = .ok count ∧
    context.cumulativeBlockCount = state.blockCount

theorem validateArchiveState_eq_ok {state : ArchiveState} :
    validateArchiveState db window state = .ok () ↔ ArchiveStateSpec db window state := by
  simp only [validateArchiveState, bind_eq_ok, rejectIf_eq_ok, not_or, not_not, not_lt,
    readEventContext, okOr_eq_ok]
  constructor
  · rintro ⟨_, ⟨h1, h2, h3, h4⟩, context, hc, count, hcount, _, hle, _, ⟨h5, h6⟩, latest, hl,
      _, hvalid, hcumulative⟩
    exact ⟨h1, h2, h3, h4, ⟨context, count, hc, hcount, hle, h5, h6⟩,
      ⟨latest, _, hl, hvalid, hcumulative⟩⟩
  · rintro ⟨h1, h2, h3, h4, ⟨context, count, hc, hcount, hle, h5, h6⟩,
      ⟨latest, _, hl, hvalid, hcumulative⟩⟩
    exact ⟨(), ⟨h1, h2, h3, h4⟩, context, hc, count, hcount, (), hle, (), ⟨h5, h6⟩, latest, hl,
      _, hvalid, hcumulative⟩

theorem readArchiveState_eq_ok {prior : Option ArchiveState}
    (h : readArchiveState db window = .ok prior) :
    prior = db.lookup Key.displacedState ∧ ∀ p ∈ prior, ArchiveStateSpec db window p := by
  simp only [readArchiveState] at h
  split at h
  · next hnone =>
    simp only [bind_eq_ok] at h
    obtain ⟨_, _, h⟩ := h
    cases h
    exact ⟨hnone.symm, by simp⟩
  · next state hsome =>
    simp only [bind_eq_ok] at h
    obtain ⟨_, hvalid, h⟩ := h
    cases h
    refine ⟨hsome.symm, fun p hp => ?_⟩
    cases hp
    exact validateArchiveState_eq_ok.mp hvalid

/-- What an archive write puts: the event's context, order and pointer rows, and the state. -/
structure ArchiveWriteSpec (s : RocksDbCanonicalStore D) (event : DisplacedArchiveEvent)
    (rows : List (Row (Val D))) (state : ArchiveState) (count : Nat)
    (blockRows : List (Row (Val D))) : Prop where
  sequence_ne : event.eventSequence ≠ 0
  epoch_eq : event.displacementEpoch = event.eventSequence
  count_eq : checkedReorgRangeCount s.window event.revertedRange = .ok count
  prior : ∃ prior, readArchiveState s.db s.window = .ok prior ∧
    (∀ p ∈ prior, p.latestEventSequence < event.eventSequence) ∧
    nextArchiveState prior event count = .ok state
  blockRows_key : ∀ row ∈ blockRows, (∀ n, row.1 ≠ .displacedEventContext n) ∧
    row.1 ≠ .displacedState
  rows_eq : rows = ⟨.displacedEventContext event.eventSequence,
    ({ eventSequence := event.eventSequence
       revertedRange := event.revertedRange
       displacementEpoch := event.displacementEpoch
       displacedAt := event.displacedAt
       rowCount := count
       cumulativeBlockCount := state.blockCount } : ArchiveEventContext)⟩ ::
      (blockRows ++ [⟨.displacedState, state⟩])

variable {s : RocksDbCanonicalStore D}

theorem prepareDisplacedArchiveWrite_eq_ok [DecidableEq D] {event : DisplacedArchiveEvent}
    {displaced : List CanonicalDisplacedBlock} {rows : List (Row (Val D))}
    (h : prepareDisplacedArchiveWrite E s event displaced = .ok rows) :
    ∃ state count blockRows, ArchiveWriteSpec s event rows state count blockRows := by
  simp only [prepareDisplacedArchiveWrite, bind_eq_ok, rejectIf_eq_ok, not_or, not_not] at h
  obtain ⟨_, ⟨hne, hepoch⟩, count, hcount, _, _, _, _, prior, hprior, _, hlatest, state, hstate,
    blockRows, hblockRows, h⟩ := h
  cases h
  refine ⟨state, count, blockRows.flatten, hne, hepoch, hcount, ⟨prior, hprior, ?_, hstate⟩, ?_,
    rfl⟩
  · intro p hp
    by_contra hle
    exact hlatest ⟨p, hp, not_lt.mp hle⟩
  · intro row hrow
    obtain ⟨l, hl, hrow⟩ := mem_flatten.mp hrow
    obtain ⟨entry, _, hentry⟩ := exists_of_mem_collect hblockRows hl
    simp only [archiveBlockRows, bind_eq_ok] at hentry
    obtain ⟨_, _, _, _, _, _, _, _, hentry⟩ := hentry
    cases hentry
    simp only [mem_cons, not_mem_nil, or_false] at hrow
    rcases hrow with rfl | rfl <;> simp

namespace ArchiveWriteSpec

variable {s : RocksDbCanonicalStore D} {event : DisplacedArchiveEvent} {rows : List (Row (Val D))}
  {state : ArchiveState} {count : Nat} {blockRows : List (Row (Val D))}

section

variable (h : ArchiveWriteSpec s event rows state count blockRows)
include h

theorem count_le_one {k : Key} (hk : (∃ n, k = .displacedEventContext n) ∨ k = .displacedState) :
    rows.keys.count k ≤ 1 := by
  have hnone : blockRows.keys.count k = 0 := by
    refine count_eq_zero.mpr fun hmem => ?_
    obtain ⟨row, hrow, rfl⟩ := mem_map.mp hmem
    have hkey := h.blockRows_key row hrow
    rcases hk with ⟨n, hn⟩ | hn
    · exact hkey.1 n hn
    · exact hkey.2 hn
  rw [h.rows_eq, keys_cons, keys_append, count_cons, count_append, hnone]
  rcases hk with ⟨n, rfl⟩ | rfl
  · have : ([⟨.displacedState, state⟩] : List (Row (Val D))).keys.count
        (.displacedEventContext n) = 0 := count_eq_zero.mpr (by simp)
    rw [this]
    split <;> omega
  · simp

theorem lookup_context (db : Db D) (n : Nat) :
    (write (rows.map Op.ofRow) db).lookup (Key.displacedEventContext n) =
      if n = event.eventSequence then
        some ⟨event.eventSequence, event.revertedRange, event.displacementEpoch,
          event.displacedAt, count, state.blockCount⟩
      else db.lookup (Key.displacedEventContext n) := by
  rw [lookup_write_puts (h.count_le_one (.inl ⟨n, rfl⟩))]
  split
  · next heq =>
    subst heq
    rw [h.rows_eq, dlookup_cons_eq]
    rfl
  · next hne =>
    have hnone : rows.dlookup (Key.displacedEventContext n) = none := by
      rw [dlookup_eq_none, h.rows_eq]
      simp only [keys_cons, keys_append, mem_cons, mem_append, keys_nil,
        not_mem_nil, or_false, not_or, Key.displacedEventContext.injEq, reduceCtorEq]
      refine ⟨hne, fun hmem => ?_⟩
      obtain ⟨row, hrow, hkey⟩ := mem_map.mp hmem
      exact (h.blockRows_key row hrow).1 n hkey
    rw [hnone, Option.none_or]

theorem lookup_state (db : Db D) :
    (write (rows.map Op.ofRow) db).lookup Key.displacedState = some state := by
  have hcount := h.count_le_one (k := .displacedState) (.inr rfl)
  rw [lookup_write_puts hcount]
  have hmem : (⟨.displacedState, state⟩ : Row (Val D)) ∈ rows := by
    rw [h.rows_eq]
    simp
  rw [(dlookup_eq_some_iff hcount).mpr hmem]
  rfl

theorem ready (hready : ArchiveReady s.db s.window (event.eventSequence - 1)) {db db' : Db D}
    (hdb : ∀ k : Key, k.isArchive = true → db.lookup k = s.db.lookup k)
    (hdb' : ∀ k : Key, k.isArchive = true →
      db'.lookup k = (write (rows.map Op.ofRow) db).lookup k) :
    ArchiveReady db' s.window event.eventSequence := by
  have hstate : db'.lookup Key.displacedState = some state :=
    (hdb' _ rfl).trans (h.lookup_state db)
  have hcontext : ∀ n, db'.lookup (Key.displacedEventContext n) =
      if n = event.eventSequence then
        some ⟨event.eventSequence, event.revertedRange, event.displacementEpoch,
          event.displacedAt, count, state.blockCount⟩
      else s.db.lookup (Key.displacedEventContext n) := by
    intro n
    rw [hdb' _ rfl, h.lookup_context, hdb _ rfl]
  obtain ⟨prior, hprior, hlatest, hnext⟩ := h.prior
  have hcount := (checkedReorgRangeCount_eq_ok.mp h.count_eq).2.2.2
  have hvalid : count ≤ state.blockCount → validateEventContext s.window
      ⟨event.eventSequence, event.revertedRange, event.displacementEpoch, event.displacedAt,
        count, state.blockCount⟩ = .ok count := fun hle =>
    validateEventContext_eq_ok.mpr
      ⟨h.sequence_ne, h.epoch_eq, by simp only; omega, hle, h.count_eq, rfl⟩
  have hspec : ArchiveStateSpec db' s.window state ∧
      state.latestEventSequence = event.eventSequence := by
    cases prior with
    | none =>
      cases hnext
      refine ⟨⟨h.sequence_ne, h.epoch_eq, by simp only; omega, le_rfl, ?_, ?_⟩, rfl⟩
      · exact ⟨_, count, (hcontext _).trans (if_pos rfl), hvalid le_rfl, le_rfl, rfl, rfl⟩
      · exact ⟨_, count, (hcontext _).trans (if_pos rfl), hvalid le_rfl, rfl⟩
    | some p =>
      simp only [nextArchiveState, bind_eq_ok, okOr_eq_ok, checkedAdd_eq_some] at hnext
      obtain ⟨_, ⟨_, rfl⟩, hnext⟩ := hnext
      cases hnext
      have hp : ArchiveStateSpec s.db s.window p := (readArchiveState_eq_ok hprior).2 p rfl
      have hlt := hlatest p rfl
      have hle := hp.activation_le
      obtain ⟨context, n, hlookup, hcheck, hn, h5, h6⟩ := hp.activation
      refine ⟨⟨hp.activation_ne, hp.activation_epoch, by simp only; omega,
        by simp only; omega, ?_, ?_⟩, rfl⟩
      · refine ⟨context, n, ?_, hcheck, by simp only; omega, h5, h6⟩
        exact (hcontext p.activationEventSequence).trans ((if_neg (by omega)).trans hlookup)
      · exact ⟨_, count, (hcontext _).trans (if_pos rfl), hvalid (by simp only; omega), rfl⟩
  refine ⟨⟨some state, ?_, ?_⟩, fun n hn => ?_⟩
  · simp only [readArchiveState, hstate, bind_eq_ok]
    exact ⟨(), validateArchiveState_eq_ok.mpr hspec.1, trivial⟩
  · rintro _ ⟨⟩
    exact hspec.2.le
  · rw [hcontext, if_neg (by omega), hready.fresh n (by omega)]

end

end ArchiveWriteSpec

/-! ## Subtree counts along a chain -/

theorem SubtreesAdvance.isChain (h : SubtreesAdvance v.block.tipMetadata chain) :
    (v :: chain).IsChain fun v w => SubtreeMonotone v.block.tipMetadata w.block.tipMetadata := by
  induction chain generalizing v with
  | nil => exact .singleton _
  | cons w chain ih => exact .cons_cons h.1 (ih h.2)

theorem RootsLinked.isChain {sizes : ChainTipMetadata} (h : RootsLinked sizes chain) :
    (∀ w ∈ chain.head?, SubtreeMonotone sizes w.block.tipMetadata) ∧
      chain.IsChain fun v w => SubtreeMonotone v.block.tipMetadata w.block.tipMetadata := by
  induction chain generalizing sizes with
  | nil => exact ⟨by simp, .nil⟩
  | cons v chain ih =>
    obtain ⟨hhead, hchain⟩ := ih h.2.2
    refine ⟨by simpa using h.1, ?_⟩
    cases chain with
    | nil => exact .singleton _
    | cons w chain => exact .cons_cons (hhead w rfl) hchain

theorem LiveInvariant.tipMetadata_take {k n : Nat} (inv : LiveInvariant st k)
    {sizes : ChainTipMetadata}
    (h : readPersistedTipMetadata st.store.db (tipId st.start (st.chain.take n)) = .ok sizes)
    (hv : v ∈ (st.chain.take n).getLast?) : v.block.tipMetadata = sizes := by
  obtain ⟨init, hinit⟩ := getLast?_eq_some_iff.mp hv
  have hmem : v ∈ st.chain := mem_of_mem_take (hinit ▸ mem_append_right _ (by simp))
  rw [hinit, tipId_concat, inv.holds.readPersistedTipMetadata_eq hmem] at h
  exact Except.ok.inj h

/-! ## The store -/

variable [DecidableEq D]

/-- What a reachable store has besides its chain. -/
structure StoreReady (st : LiveState E) : Prop where
  workload : st.store.workload = .wallet
  valid : ∀ v ∈ st.chain, ∃ tip,
    validateBlock .wallet st.store.buildPlan.rawBlobRetention v.block tip = .ok ()
  tip_valid : ∀ v ∈ st.chain.getLast?,
    validateLiveBlock .wallet st.store.buildPlan.rawBlobRetention v.block = .ok ()
  advance : st.chain.IsChain fun v w => SubtreeMonotone v.block.tipMetadata w.block.tipMetadata
  first : st.store.readyEvidence.firstRetainedBlock.height = st.start.height + 1
  archive : ArchiveReady st.store.db st.store.window st.store.readyEvidence.visibleEventSequence

/-! ### Publication -/

theorem bulkLoadBlocks_valid {workload : CanonicalStoreWorkload} {plan : CanonicalStoreBuildPlan}
    {blocks : List (CanonicalBuildBlock E)} {loaded : Db D × BlockSequence D}
    (h : bulkLoadBlocks workload plan blocks = .ok loaded) :
    ∀ b ∈ blocks, validateBlock workload plan.rawBlobRetention b plan.buildTip.height = .ok () := by
  simp only [bulkLoadBlocks, bind_eq_ok] at h
  obtain ⟨staged, hstaged, _⟩ := h
  refine loop_forall (fun b _ _ hstep => ?_) hstaged
  simp only [stageBlock, bind_eq_ok] at hstep
  obtain ⟨_, hvalid, _⟩ := hstep
  exact hvalid

/-- What a publication fixes besides the chain: a wallet store of valid blocks, whose first block
is the first available one and whose tip is the build tip. -/
theorem publishBaseline_ready {b : CanonicalBaseline E} (h : publishBaseline b = .ok s) :
    s.workload = .wallet ∧
      (∀ block ∈ b.blocks, validateBlock .wallet b.plan.rawBlobRetention block
        b.plan.buildTip.height = .ok ()) ∧
      s.readyEvidence.firstRetainedBlock.height = b.plan.historyPredecessor.blockId.height + 1 ∧
      s.readyEvidence.visibleTip = b.plan.buildTip := by
  obtain ⟨hfirst, htip⟩ := publishBaseline_position h
  obtain ⟨_, _, _, _, _, steps⟩ := publishBaseline_steps h
  have hwallet : b.workload = .wallet := by
    cases hw : b.workload with
    | wallet => rfl
    | explorer => exact absurd hw steps.workload
  have hvalid := bulkLoadBlocks_valid steps.loaded
  rw [hwallet] at hvalid
  exact ⟨by rw [steps.store, hwallet], hvalid, hfirst, htip⟩

omit [DecidableEq D] in
theorem lookup_loadedDb_archive {plan : CanonicalStoreBuildPlan} {roots : List SubtreeRootArtifact}
    (h : ∀ v ∈ chain, Admitted v.block) (hk : k.isArchive = true) :
    (loadedDb plan chain roots : Db D).lookup k = none := by
  have hroots : k ∉ ((roots.map SubtreeRootArtifact.row : List (Row (Val D))).map
      Op.ofRow).map Op.key := by
    rw [Op.map_key_ofRow, rootRows_keys]
    intro hmem
    obtain ⟨_, _, rfl⟩ := mem_map.mp hmem
    cases hk
  have hblocks : k ∉ ((loadedRows plan chain : List (Row (Val D))).map Op.ofRow).map Op.key := by
    rw [Op.map_key_ofRow, loadedRows, keys_cons, mem_cons, not_or]
    refine ⟨fun heq => (by subst heq; cases hk), fun hmem => ?_⟩
    obtain ⟨row, hrow, rfl⟩ := mem_map.mp hmem
    obtain ⟨b, hb, hrow⟩ := mem_flatMap.mp hrow
    obtain ⟨v, hv, rfl⟩ := mem_map.mp hb
    have := (blockRows_keys_sublist v.block (h v hv).blobs_le).subset
      (mem_map_of_mem (f := Sigma.fst) hrow)
    rw [mem_blockKeys] at this
    cases hkey : row.1 <;> simp_all [Key.isArchive]
  rw [loadedDb, lookup_write_of_untouched hroots, lookup_write_of_untouched hblocks,
    Finmap.lookup_empty]

omit [DecidableEq D] in
theorem archiveReady_of_empty {window sequence : Nat}
    (h : ∀ k : Key, k.isArchive = true → db.lookup k = none) :
    ArchiveReady db window sequence := by
  refine ⟨⟨none, ?_, by simp⟩, fun n _ => h _ rfl⟩
  simp only [readArchiveState, h Key.displacedState rfl, bind_eq_ok, rejectIf_eq_ok]
  refine ⟨(), ?_, trivial⟩
  rintro ⟨k, hmem, hk⟩
  have := mem_keys_iff.mp hmem
  rw [h k hk] at this
  cases this

theorem Published.lookup_archive (h : Published st) (hk : k.isArchive = true) :
    st.store.db.lookup k = none := by
  obtain ⟨hroots, h⟩ := h
  rename_i b s roots
  obtain ⟨_, spec⟩ := publishBaseline_eq_ok hroots h
    (attachRoots_blocks roots b.plan.historyPredecessor.tipMetadata b.blocks)
  obtain ⟨p, hdb⟩ := spec.db
  rw [hdb, lookup_write_of_untouched, lookup_loadedDb_archive spec.admitted hk]
  intro hmem
  rw [Op.map_key_ofRow] at hmem
  simp [(p.key_not_block hmem).2] at hk

theorem Published.ready (h : Published st) : StoreReady st := by
  have harchive : ArchiveReady st.store.db st.store.window
      st.store.readyEvidence.visibleEventSequence :=
    archiveReady_of_empty fun _ hk => h.lookup_archive hk
  obtain ⟨hroots, h⟩ := h
  rename_i b s roots
  obtain ⟨k, spec⟩ := publishBaseline_eq_ok hroots h (attachRoots_blocks _ _ _)
  obtain ⟨hworkload, hvalid, hfirst, htip⟩ := publishBaseline_ready h
  obtain ⟨p, hdb⟩ := spec.db
  have hchain : ∀ v ∈ attachRoots roots b.plan.historyPredecessor.tipMetadata b.blocks,
      v.block ∈ b.blocks := by
    intro v hv
    rw [← attachRoots_blocks roots b.plan.historyPredecessor.tipMetadata b.blocks]
    exact mem_map_of_mem hv
  have hvisible : s.readyEvidence.visibleTip = tipId b.plan.historyPredecessor.blockId
      (attachRoots roots b.plan.historyPredecessor.tipMetadata b.blocks) :=
    congrArg CanonicalSequenceCheckpoint.through spec.visible
  exact
    { workload := hworkload
      valid := by
        intro v hv
        simp only [spec.plan]
        exact ⟨_, hvalid v.block (hchain v hv)⟩
      tip_valid := by
        intro v hv
        obtain ⟨init, hinit⟩ := getLast?_eq_some_iff.mp hv
        have hheight : v.block.height = b.plan.buildTip.height := by
          simp only at hinit
          rw [← htip, hvisible, hinit, tipId_concat]
          rfl
        simp only [spec.plan, validateLiveBlock, hheight]
        exact hvalid v.block (hchain v (mem_of_getLast? hv))
      advance := by
        have := spec.advance
        simp only
        cases hc : attachRoots roots b.plan.historyPredecessor.tipMetadata b.blocks with
        | nil => exact .nil
        | cons v rest =>
          rw [hc] at this
          exact this.isChain
      first := by
        rw [hfirst, LiveState.start, spec.plan]
      archive := harchive }

/-! ### Transitions -/

theorem commitLiveAppend_valid (h : commitLiveAppend s a activations = .ok (s', fence)) :
    validateLiveBlock s.workload s.buildPlan.rawBlobRetention a.block = .ok () := by
  obtain ⟨_, _, _, spec, _⟩ := commitLiveAppend_eq_ok h
  exact spec.valid

omit [DecidableEq D] in
theorem isBlockFamily_of_owned (h : k ∈ v.ownedKeys) : k.isBlockFamily = true := by
  rw [mem_ownedKeys] at h
  cases k <;> first | rfl | exact h.elim

theorem prepareCanonicalDeletions_isBlockFamily {range : BlockHeightRange}
    {sizes oldSizes : ChainTipMetadata} {displaced : List CanonicalDisplacedBlock} {dels : List Key}
    (h : prepareCanonicalDeletions E s range sizes oldSizes displaced = .ok dels) (hk : k ∈ dels) :
    k.isBlockFamily = true := by
  simp only [prepareCanonicalDeletions, bind_eq_ok] at h
  obtain ⟨blocks, hblocks, ranges, _, h⟩ := h
  cases h
  rcases mem_append.mp hk with hk | hk
  · obtain ⟨keys, hkeys, hk⟩ := mem_flatten.mp hk
    obtain ⟨entry, _, hentry⟩ := exists_of_mem_collect hblocks hkeys
    simp only [prepareBlockDeletions, bind_eq_ok] at hentry
    obtain ⟨_, _, _, _, _, _, hentry⟩ := hentry
    cases hentry
    rw [mem_blockDeletions, mem_blockKeys] at hk
    cases k <;> first | rfl | exact hk.elim
  · obtain ⟨_, _, rfl⟩ := mem_map.mp hk
    rfl

/-- Besides its suffix, a replacement captures the displaced blocks and archives them under its own
event. -/
theorem commitLiveReplacement_writes {first : CanonicalReplacementBlock E}
    (hfirst : r.blocks.head? = some first)
    (h : commitLiveReplacement s r activations = .ok (s', fence)) :
    s.readyEvidence.visibleEpoch + 1 < u64Bound ∧ ∃ displaced rows,
      captureDisplacedBlocks E s ⟨first.block.height, s.readyEvidence.visibleTip.height⟩ =
        .ok displaced ∧
      prepareDisplacedArchiveWrite E s
        ⟨s.readyEvidence.visibleEpoch + 1, s.readyEvidence.visibleEpoch + 1,
          ⟨first.block.height, s.readyEvidence.visibleTip.height⟩, r.createdAt⟩ displaced =
        .ok rows ∧
      ∀ k : Key, k.isArchive = true →
        s'.db.lookup k = (write (rows.map Op.ofRow) s.db).lookup k := by
  obtain ⟨p, hp, rfl⟩ := commitLiveReplacement_eq_ok h
  obtain ⟨parent, settled, sizes, visible, spec, _, hrows, _⟩ := prepareLiveReplacement_eq_ok hp
  obtain ⟨steps⟩ := prepareLiveReplacement_steps hp
  cases hfirst.symm.trans steps.head
  refine ⟨steps.epoch_lt, steps.displaced, p.archive, steps.captured, steps.archived, fun k hk => ?_⟩
  have huntouched : (write (p.deletions.map Op.delete ++
      p.replacementRows.flatten.map Op.ofRow) s.db).lookup k = s.db.lookup k := by
    rw [lookup_write_of_untouched]
    rw [map_append, Op.map_key_ofRow, mem_append, not_or]
    constructor
    · intro hmem
      obtain ⟨op, hop, rfl⟩ := mem_map.mp hmem
      obtain ⟨key, hkey, rfl⟩ := mem_map.mp hop
      exact Key.not_isArchive (prepareCanonicalDeletions_isBlockFamily steps.deleted hkey) hk
    · intro hmem
      rw [hrows] at hmem
      obtain ⟨v, _, hv⟩ := mem_flatMap.mp (mem_keys_flatMap spec.admitted hmem)
      exact Key.not_isArchive (isBlockFamily_of_owned hv) hk
  have hlast : ∀ (q : LivePublication D) db,
      (write (p.archive.map Op.ofRow ++ q.rows.map Op.ofRow) db).lookup k =
        (write (p.archive.map Op.ofRow) db).lookup k := by
    intro q db
    rw [write_append]
    refine lookup_write_of_untouched (fun hmem => ?_) _
    rw [Op.map_key_ofRow] at hmem
    simp [(LivePublication.key_not_block _ hmem).2] at hk
  simp only [PreparedLiveReplacement.batch]
  rw [write_append, hlast, lookup_write_rows, lookup_write_rows, huntouched]

theorem commitLiveReplacement_valid (h : commitLiveReplacement s r activations = .ok (s', fence)) :
    ∀ v ∈ r.chain,
      validateLiveBlock s.workload s.buildPlan.rawBlobRetention v.block = .ok () := by
  obtain ⟨p, hp, -⟩ := commitLiveReplacement_eq_ok h
  obtain ⟨steps⟩ := prepareLiveReplacement_steps hp
  have hblocks := steps.validated
  simp only [validateReplacementBlocks, bind_eq_ok] at hblocks
  obtain ⟨_, _, _, _, _, hloop, _⟩ := hblocks
  intro v hv
  obtain ⟨q, hq, rfl⟩ := mem_map.mp hv
  refine loop_forall (P := fun q => validateLiveBlock s.workload s.buildPlan.rawBlobRetention
    q.block = .ok ()) (fun q _ _ hstep => ?_) hloop q hq
  simp only [validateReplacementBlock, bind_eq_ok] at hstep
  obtain ⟨_, hvalid, _⟩ := hstep
  exact hvalid

theorem commitLiveAppend_lookup_archive (h : commitLiveAppend s a activations = .ok (s', fence))
    (hk : k.isArchive = true) :
    s'.db.lookup k = s.db.lookup k := by
  obtain ⟨_, _, p, spec, _, _, rfl, _⟩ := commitLiveAppend_eq_ok h
  refine lookup_write_of_untouched (fun hmem => ?_) _
  rw [map_append, Op.map_key_ofRow, Op.map_key_ofRow, mem_append] at hmem
  rcases hmem with hmem | hmem
  · have hblock := isBlockFamily_of_owned ((rows_keys_sublist spec.admitted).subset hmem)
    exact Key.not_isArchive hblock hk
  · simp [(p.key_not_block hmem).2] at hk

theorem StoreReady.append {k : Nat} (ready : StoreReady st) (inv : LiveInvariant st k)
    {s' : RocksDbCanonicalStore D} (h : commitLiveAppend st.store a activations = .ok (s', fence)) :
    StoreReady ⟨s', st.earlierRoots, st.chain ++ [a.visible]⟩ := by
  have hvalid := commitLiveAppend_valid h
  rw [ready.workload] at hvalid
  obtain ⟨sizes, checkpoint, p, spec, hready, hepoch, rfl, _⟩ := commitLiveAppend_eq_ok h
  exact
    { workload := ready.workload
      valid := by
        intro v hv
        rcases mem_append.mp hv with hv | hv
        · exact ready.valid v hv
        · rw [mem_singleton.mp hv]
          exact ⟨_, hvalid⟩
      tip_valid := by
        intro v hv
        simp only [getLast?_concat, Option.mem_def, Option.some.injEq] at hv
        rw [← hv]
        exact hvalid
      advance := by
        refine isChain_append.mpr ⟨ready.advance, .singleton _, fun v hv w hw => ?_⟩
        simp only [head?_cons, Option.mem_def, Option.some.injEq] at hw
        have hsizes : readPersistedTipMetadata st.store.db
            (tipId st.start (st.chain.take st.chain.length)) = .ok sizes := by
          rw [take_length, ← inv.tip_eq]
          exact spec.sizes_eq
        rw [← hw, inv.tipMetadata_take hsizes (by rwa [take_length])]
        exact spec.monotone
      first := by
        rw [hready]
        exact ready.first
      archive := by
        refine ready.archive.of_untouched (fun _ hkey => commitLiveAppend_lookup_archive h hkey) ?_
        rw [hready, ← inv.fence]
        simp [appendedEvidence] }

theorem StoreReady.replacement {k : Nat} (ready : StoreReady st) (inv : LiveInvariant st k)
    {first : CanonicalReplacementBlock E} {s' : RocksDbCanonicalStore D}
    (hfirst : r.blocks.head? = some first)
    (h : commitLiveReplacement st.store r activations = .ok (s', fence)) :
    StoreReady ⟨s', st.earlierRoots, below first.block.height st.chain ++ r.chain⟩ := by
  obtain ⟨n, sizes, oldSizes, facts, rest, hreplaced⟩ := inv.replacedSuffix hfirst h
  have hvalid := commitLiveReplacement_valid h
  obtain ⟨_, displaced, rows, _, harchive, hdb⟩ := commitLiveReplacement_writes hfirst h
  obtain ⟨state, count, blockRows, hwrite⟩ := prepareDisplacedArchiveWrite_eq_ok harchive
  obtain ⟨p, -, hstore⟩ := commitLiveReplacement_eq_ok h
  have hworkload : s'.workload = st.store.workload := by rw [hstore]
  rw [ready.workload] at hvalid
  rw [hreplaced.kept]
  exact
    { workload := hworkload.trans ready.workload
      valid := by
        intro v hv
        simp only [hreplaced.plan]
        rcases mem_append.mp hv with hv | hv
        · exact ready.valid v (mem_of_mem_take hv)
        · exact ⟨_, hvalid v hv⟩
      tip_valid := by
        intro v hv
        simp only [hreplaced.plan]
        have hlast : v ∈ r.chain.getLast? := by
          rwa [getLast?_append_of_ne_nil _ hreplaced.nonempty] at hv
        exact hvalid v (mem_of_getLast? hlast)
      advance := by
        obtain ⟨hhead, hchain⟩ := hreplaced.roots.isChain
        refine isChain_append.mpr ⟨ready.advance.take n, hchain, fun v hv w hw => ?_⟩
        rw [inv.tipMetadata_take hreplaced.sizes_eq hv]
        exact hhead w hw
      first := by
        simp only [hreplaced.evidence, LiveState.start, hreplaced.plan]
        exact ready.first
      archive := by
        have hnext : s'.readyEvidence.visibleEventSequence =
            st.store.readyEvidence.visibleEpoch + 1 := by
          rw [hreplaced.evidence]
          rfl
        simp only [RocksDbCanonicalStore.window, hreplaced.plan, hnext]
        refine hwrite.ready ?_ (fun _ _ => rfl) hdb
        rw [Nat.add_sub_cancel, inv.fence]
        exact ready.archive }

theorem LiveStep.ready {st st' : LiveState E} (step : LiveStep st st') {k : Nat}
    (inv : LiveInvariant st k) (ready : StoreReady st) : StoreReady st' := by
  cases step with
  | append h => exact ready.append inv h
  | replacement hfirst h => exact ready.replacement inv hfirst h

theorem Published.run_ready {st₀ st : LiveState E} (h : Published st₀)
    (run : ReflTransGen LiveStep st₀ st) : StoreReady st := by
  induction run with
  | refl => exact h.ready
  | tail hrun step ih =>
    obtain ⟨k, inv⟩ := h.run_invariant hrun
    exact step.ready inv ih

end Zinder.Canonical
