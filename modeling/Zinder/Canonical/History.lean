import Zinder.Canonical.ReplacementProgress

/-!
# Zinder.Canonical.History

The history a store has gone through, event by event, next to the rows that record it.

A `HistoryEntry` is the chain that was visible right after one event, how the event came about, and
how far it settled; entry `i` of a history belongs to event `i + 1`. `HistoryInvariant` says that
the epoch and event rows are the records of the history. Epoch rows are permanent; the event rows
from the retention floor on, and the baseline event, are.

* `Evolves` — one entry follows another by an append or a replacement.
* `LiveStep.history` — a live transition adds one entry.
* `HistoryInvariant.pruned` — deleting events below a floor keeps the rest.
-/

namespace Zinder.Canonical

open KeyValue List

variable {D : Type} {E : Env D}

/-! ## Entries and their records -/

/-- How an event came about; a replacement keeps the first `kept` blocks. -/
inductive TransitionKind where
  | baseline
  | append
  | replacement (kept : Nat)
deriving DecidableEq

/-- The chain visible after one event, with the number of its settled blocks. -/
structure HistoryEntry (E : Env D) where
  kind : TransitionKind
  chain : Chain E
  settled : Nat
  createdAt : Nat

namespace HistoryEntry

def epoch (plan : CanonicalStoreBuildPlan) (h : HistoryEntry E) : ChainEpochRecord where
  visibleTip := tipId plan.historyPredecessor.blockId h.chain
  settledTip := tipId plan.historyPredecessor.blockId (h.chain.take h.settled)
  tipMetadata := tipSizes plan.historyPredecessor.tipMetadata h.chain
  createdAt := h.createdAt

def revertedRange (start : BlockId) (previousLength : Nat) (h : HistoryEntry E) :
    Option BlockHeightRange :=
  match h.kind with
  | .replacement kept => some ⟨start.height + kept + 1, start.height + previousLength⟩
  | _ => none

def committedRange (start : BlockId) (h : HistoryEntry E) : BlockHeightRange :=
  match h.kind with
  | .baseline => ⟨start.height + 1, start.height + h.chain.length⟩
  | .append => ⟨start.height + h.chain.length, start.height + h.chain.length⟩
  | .replacement kept => ⟨start.height + kept + 1, start.height + h.chain.length⟩

def event (start : BlockId) (previous previousLength : Nat) (h : HistoryEntry E) :
    ChainEventRecord D where
  kind := if (h.revertedRange start previousLength).isSome then .reorg else .committed
  resultingEpochId := previous + 1
  previousEpochId := previous
  revertedRange := h.revertedRange start previousLength
  committedRange := h.committedRange start
  visibleTip := tipId start h.chain
  visibleBlockCount := h.chain.length
  visibleSequenceDigest := (sequenceSummary start h.chain).sequenceDigest.bytes

end HistoryEntry

/-- One entry follows another: an append, which may settle more blocks, or a replacement above the
settled blocks. -/
inductive Evolves (window : Nat) : HistoryEntry E → HistoryEntry E → Prop where
  | append {previous next : HistoryEntry E} (v : VisibleBlock E) (hkind : next.kind = .append)
      (hchain : next.chain = previous.chain ++ [v]) (hsettled : previous.settled ≤ next.settled) :
      Evolves window previous next
  | replacement {previous next : HistoryEntry E} {kept : Nat} {new : Chain E}
      (hkind : next.kind = .replacement kept) (hchain : next.chain = previous.chain.take kept ++ new)
      (hnew : new ≠ []) (hkept : previous.settled ≤ kept) (hlt : kept < previous.chain.length)
      (hdisplaced : previous.chain.length - kept ≤ window)
      (hsettled : next.settled = previous.settled) : Evolves window previous next

structure EntryValid (start : BlockId) (window : Nat) (h : HistoryEntry E) : Prop where
  linked : Linked start h.chain
  settled_pos : 0 < h.settled
  settled_le : h.settled ≤ h.chain.length
  lag_le : h.chain.length - h.settled ≤ window

def previousLength (past : List (HistoryEntry E)) : Nat → Nat
  | 0 => 0
  | i + 1 => (past[i]?.map fun h => h.chain.length).getD 0

/-- The rows record the history, its events from `floor` on. -/
structure HistoryInvariant (st : LiveState E) (floor : Nat) (past : List (HistoryEntry E)) :
    Prop where
  length : past.length = st.store.readyEvidence.visibleEventSequence
  current : ∃ h, past.getLast? = some h ∧ h.chain = st.chain ∧ LiveInvariant st h.settled
  baseline : ∀ h ∈ past.head?, h.kind = .baseline
  evolves : past.IsChain (Evolves st.store.window)
  valid : ∀ h ∈ past, EntryValid st.start st.store.window h
  epochs : ∀ i h, past[i]? = some h →
    st.store.db.lookup (Key.chainEpoch (i + 1)) = some (h.epoch st.store.buildPlan)
  events : ∀ i h, past[i]? = some h → (i = 0 ∨ floor ≤ i + 1) →
    st.store.db.lookup (Key.chainEvent (i + 1)) = some (h.event st.start i (previousLength past i))
  control : st.store.db.lookup Key.storeControl =
    some ⟨st.store.workload, st.store.buildPlan, st.store.readyEvidence⟩

variable {past : List (HistoryEntry E)} {h : HistoryEntry E} {st : LiveState E} {i : Nat}

theorem exists_previous {floor : Nat} (inv : HistoryInvariant st floor past)
    (hi : past[i + 1]? = some h) :
    ∃ previous, past[i]? = some previous ∧ Evolves st.store.window previous h := by
  obtain ⟨hlt, rfl⟩ := List.getElem?_eq_some_iff.mp hi
  exact ⟨_, getElem?_eq_getElem (Nat.lt_of_succ_lt hlt), isChain_iff_getElem.mp inv.evolves i hlt⟩

theorem previousLength_succ (hi : past[i]? = some h) :
    previousLength past (i + 1) = h.chain.length := by
  rw [previousLength, hi]
  rfl

/-! ## What a live transition publishes -/

structure Publishes (s s' : RocksDbCanonicalStore D) (p : LivePublication D) : Prop where
  ready : s'.readyEvidence = p.ready
  plan : s'.buildPlan = s.buildPlan
  workload : s'.workload = s.workload
  control : p.control = ⟨s.workload, s.buildPlan, p.ready⟩
  lookup : ∀ k : Key, k.isBlockFamily = false → k.isArchive = false →
    s'.db.lookup k = (p.rows.dlookup k).or (s.db.lookup k)

namespace Publishes

variable {s s' : RocksDbCanonicalStore D} {p : LivePublication D}

theorem lookup_epoch (h : Publishes s s' p) (i : Nat) :
    s'.db.lookup (Key.chainEpoch i) =
      if i = p.ready.visibleEpoch then some p.epoch else s.db.lookup (Key.chainEpoch i) := by
  rw [h.lookup _ rfl rfl]
  by_cases hi : i = p.ready.visibleEpoch
  · subst hi
    simp [LivePublication.rows]
  · have hout : Key.chainEpoch i ∉ p.rows.keys := by
      rw [p.rows_keys]
      simpa using hi
    rw [dlookup_eq_none.mpr hout, Option.none_or, if_neg hi]

theorem lookup_event (h : Publishes s s' p) (i : Nat) :
    s'.db.lookup (Key.chainEvent i) =
      if i = p.ready.visibleEventSequence then some p.event
      else s.db.lookup (Key.chainEvent i) := by
  rw [h.lookup _ rfl rfl]
  by_cases hi : i = p.ready.visibleEventSequence
  · subst hi
    simp [LivePublication.rows, dlookup_cons_ne]
  · have hout : Key.chainEvent i ∉ p.rows.keys := by
      rw [p.rows_keys]
      simpa using hi
    rw [dlookup_eq_none.mpr hout, Option.none_or, if_neg hi]

theorem lookup_control (h : Publishes s s' p) :
    s'.db.lookup Key.storeControl = some ⟨s'.workload, s'.buildPlan, s'.readyEvidence⟩ := by
  rw [h.lookup _ rfl rfl, h.ready, h.plan, h.workload, ← h.control]
  simp [LivePublication.rows, dlookup_cons_ne]

end Publishes

section Commits

variable [DecidableEq D]

theorem commitLiveAppend_publishes {s s' : RocksDbCanonicalStore D} {a : CanonicalLiveAppend E}
    {activations : NetworkUpgradeActivations} {fence : CanonicalEventFence D}
    (h : commitLiveAppend s a activations = .ok (s', fence)) :
    ∃ p, Publishes s s' p ∧ p.epoch.tipMetadata = a.block.tipMetadata ∧
      p.epoch.createdAt = a.createdAt ∧
        p.event = liveEvent s.readyEvidence.visibleEpoch none ⟨a.block.height, a.block.height⟩
        p.ready := by
  simp only [commitLiveAppend, bind_eq_ok, mapError_ok_iff] at h
  obtain ⟨prepared, hprepared, _, _, h⟩ := h
  obtain ⟨_, _, spec, hprepared⟩ := prepareLiveAppend_eq_ok hprepared
  have hepoch := hprepared.epoch
  cases h
  refine ⟨prepared.publication, ⟨rfl, rfl, rfl, hprepared.control, fun k hblock harchive => ?_⟩,
    congrArg ChainEpochRecord.tipMetadata hepoch, congrArg ChainEpochRecord.createdAt hepoch,
    hprepared.event⟩
  simp only
  rw [write_append, lookup_write_puts (prepared.publication.count_rows_le_one k),
    lookup_write_of_untouched]
  rw [Op.map_key_ofRow, hprepared.blockRows]
  intro hmem
  have := isBlockFamily_of_owned ((rows_keys_sublist spec.admitted).subset hmem)
  rw [hblock] at this
  cases this

theorem commitLiveReplacement_publishes {s s' : RocksDbCanonicalStore D}
    {r : CanonicalLiveReplacement E} {activations : NetworkUpgradeActivations}
    {fence : CanonicalEventFence D} {first last : CanonicalReplacementBlock E}
    (hfirst : r.blocks.head? = some first) (hlast : r.blocks.getLast? = some last)
    (h : commitLiveReplacement s r activations = .ok (s', fence)) :
    ∃ p, Publishes s s' p ∧ p.epoch.tipMetadata = last.block.tipMetadata ∧
      p.epoch.createdAt = r.createdAt ∧ p.event = liveEvent s.readyEvidence.visibleEpoch
        (some ⟨first.block.height, s.readyEvidence.visibleTip.height⟩)
        ⟨first.block.height, last.block.height⟩ p.ready := by
  obtain ⟨prepared, hprepared, rfl⟩ := commitLiveReplacement_eq_ok h
  have hapart := prepareLiveReplacement_apart hprepared
  obtain ⟨steps⟩ := prepareLiveReplacement_steps hprepared
  cases hfirst.symm.trans steps.head
  cases hlast.symm.trans steps.getLast
  have hepoch := steps.epoch
  have hevent := steps.event
  rw [steps.revertedRange, steps.committedRange] at hevent
  refine ⟨prepared.publication, ⟨rfl, rfl, rfl, steps.control, fun k hblock harchive => ?_⟩,
    congrArg ChainEpochRecord.tipMetadata hepoch, congrArg ChainEpochRecord.createdAt hepoch, hevent⟩
  by_cases hk : k ∈ prepared.publication.rows.keys
  · obtain ⟨v, hv⟩ := Option.isSome_iff_exists.mp (dlookup_isSome.mpr hk)
    have hrow := prepared.publication.lookup_row
      (prepared.deletions.map Op.delete ++ prepared.replacementRows.flatten.map Op.ofRow ++
        prepared.archive.map Op.ofRow) s.db (of_mem_dlookup hv)
    simp only [PreparedLiveReplacement.batch]
    rw [hv, Option.some_or, ← append_assoc, hrow]
  · rw [dlookup_eq_none.mpr hk, Option.none_or]
    exact hapart.lookup_other hblock harchive hk s.db

end Commits

/-! ## One more entry -/

theorem previousLength_append {next : HistoryEntry E} (hi : i ≤ past.length) :
    previousLength (past ++ [next]) i = previousLength past i := by
  cases i with
  | zero => rfl
  | succ i => rw [previousLength, previousLength, getElem?_append_left (by omega)]

theorem previousLength_length (hlast : past.getLast? = some h) :
    previousLength past past.length = h.chain.length := by
  obtain ⟨init, rfl⟩ := getLast?_eq_some_iff.mp hlast
  simp [previousLength]

section

variable (inv : LiveInvariant st h.settled) (hchain : h.chain = st.chain)
include inv hchain

theorem LiveInvariant.epoch_eq {e : ChainEpochRecord}
    (hrow : st.store.db.lookup (Key.chainEpoch st.store.readyEvidence.visibleEpoch) = some e)
    (hsizes : e.tipMetadata = tipSizes st.store.buildPlan.historyPredecessor.tipMetadata st.chain)
    (hcreated : e.createdAt = h.createdAt) : e = h.epoch st.store.buildPlan := by
  obtain ⟨e', hrow', htip, hsettled⟩ := inv.epoch
  cases hrow.symm.trans hrow'
  rw [inv.tip_eq] at htip
  rw [inv.settled] at hsettled
  cases e
  simp only [HistoryEntry.epoch, hchain, ChainEpochRecord.mk.injEq]
  exact ⟨htip, hsettled, hsizes, hcreated⟩

theorem LiveInvariant.entryValid : EntryValid st.start st.store.window h where
  linked := by
    rw [hchain]
    exact inv.linked
  settled_pos := inv.settled_pos
  settled_le := by
    rw [hchain]
    exact inv.settled_le
  lag_le := by
    have hlag := inv.window
    have htip := inv.tip_height
    rw [inv.settled] at hlag
    have hsettled : (sequenceSummary st.start (st.chain.take h.settled)).through.height =
        st.start.height + h.settled := inv.linked.tipId_take_height inv.settled_le
    rw [hchain]
    omega

theorem LiveInvariant.liveEvent_eq {previous : Nat} (length : Nat)
    (hprevious : st.store.readyEvidence.visibleEpoch = previous + 1) :
    liveEvent previous (h.revertedRange st.start length) (h.committedRange st.start)
      st.store.readyEvidence = h.event st.start previous length := by
  obtain ⟨htip, hcount, hdigest, _⟩ := inv.visible_eq
  simp only [liveEvent, HistoryEntry.event, hchain, ChainEventRecord.mk.injEq, true_and]
  exact ⟨hprevious, htip, hcount, congrArg CanonicalBlockFactsSequenceDigest.bytes hdigest⟩

end

theorem HistoryInvariant.extend {st st' : LiveState E} {floor : Nat} {last next : HistoryEntry E}
    {p : LivePublication D} (inv : HistoryInvariant st floor past)
    (hlast : past.getLast? = some last) (hp : Publishes st.store st'.store p)
    (hchain : next.chain = st'.chain) (hlive : LiveInvariant st' next.settled)
    (hevolves : Evolves st.store.window last next)
    (hnext : p.ready.visibleEpoch = st.store.readyEvidence.visibleEpoch + 1)
    (hsizes : p.epoch.tipMetadata =
      tipSizes st.store.buildPlan.historyPredecessor.tipMetadata next.chain)
    (hcreated : p.epoch.createdAt = next.createdAt)
    (hevent : p.event =
      liveEvent st.store.readyEvidence.visibleEpoch (next.revertedRange st.start last.chain.length)
        (next.committedRange st.start) p.ready) :
    HistoryInvariant st' floor (past ++ [next]) := by
  have hstart : st'.start = st.start := by simp only [LiveState.start, hp.plan]
  have hwindow : st'.store.window = st.store.window := by
    simp only [RocksDbCanonicalStore.window, hp.plan]
  obtain ⟨_, _, _, live⟩ := inv.current
  have hprevious : st.store.readyEvidence.visibleEpoch = past.length := by
    rw [inv.length, live.fence]
  rw [hprevious] at hnext hevent
  have hsequence : p.ready.visibleEventSequence = past.length + 1 := by
    rw [← hnext, ← hp.ready]
    exact hlive.fence.symm
  have hepoch : p.epoch = next.epoch st'.store.buildPlan := by
    refine hlive.epoch_eq hchain ?_ (by rw [hsizes, hp.plan, hchain]) hcreated
    rw [hp.lookup_epoch, hp.ready, if_pos rfl]
  have hrecord : p.event = next.event st.start past.length last.chain.length := by
    rw [hevent, ← hp.ready, ← hstart]
    exact hlive.liveEvent_eq hchain _ (by rw [hp.ready, hnext])
  exact
    { length := by rw [hp.ready, hsequence, length_append, length_singleton]
      current := ⟨next, getLast?_concat, hchain, hlive⟩
      baseline := by
        intro h hh
        obtain ⟨init, rfl⟩ := getLast?_eq_some_iff.mp hlast
        rw [head?_append_of_ne_nil _ (by simp)] at hh
        exact inv.baseline h hh
      evolves := by
        rw [hwindow]
        refine isChain_append.mpr ⟨inv.evolves, .singleton _, fun h hh h' hh' => ?_⟩
        cases hlast.symm.trans hh
        cases hh'
        exact hevolves
      valid := by
        rw [hwindow, hstart]
        intro h hh
        rcases mem_append.mp hh with hh | hh
        · exact inv.valid h hh
        · rw [mem_singleton.mp hh]
          rw [← hwindow, ← hstart]
          exact hlive.entryValid hchain
      epochs := by
        intro i h hi
        rw [hp.lookup_epoch, hnext]
        by_cases hlt : i < past.length
        · rw [getElem?_append_left hlt] at hi
          rw [if_neg (by omega), hp.plan]
          exact inv.epochs i h hi
        · rw [getElem?_append_right (by omega), getElem?_singleton] at hi
          split at hi
          · cases hi
            rw [if_pos (by omega), hepoch]
          · cases hi
      events := by
        intro i h hi hretained
        rw [hp.lookup_event, hsequence]
        by_cases hlt : i < past.length
        · rw [getElem?_append_left hlt] at hi
          rw [if_neg (by omega), previousLength_append hlt.le, hstart]
          exact inv.events i h hi hretained
        · rw [getElem?_append_right (by omega), getElem?_singleton] at hi
          split at hi
          · cases hi
            have : i = past.length := by omega
            subst this
            rw [if_pos rfl, hrecord, hstart, previousLength_append le_rfl, previousLength_length hlast]
          · cases hi
      control := hp.lookup_control }

section Steps

variable [DecidableEq D]

variable {s' : RocksDbCanonicalStore D} {floor : Nat}

omit [DecidableEq D] in
theorem ReplacedSuffix.exists_last {k n : Nat} {r : CanonicalLiveReplacement E}
    {first : CanonicalReplacementBlock E} {sizes oldSizes : ChainTipMetadata}
    {facts : List CanonicalBlockFacts} {rest : List (Op (Val D))}
    (h : ReplacedSuffix st k r first s' n sizes oldSizes facts rest) :
    ∃ last, r.blocks.getLast? = some last := by
  have hne : r.blocks ≠ [] := fun hnil => h.nonempty (by rw [CanonicalLiveReplacement.chain, hnil]; rfl)
  exact ⟨_, getLast?_eq_getLast_of_ne_nil hne⟩

theorem HistoryInvariant.append (inv : HistoryInvariant st floor past) {a : CanonicalLiveAppend E}
    {activations : NetworkUpgradeActivations} {fence : CanonicalEventFence D}
    (h : commitLiveAppend st.store a activations = .ok (s', fence)) :
    ∃ settled, HistoryInvariant ⟨s', st.earlierRoots, st.chain ++ [a.visible]⟩ floor
      (past ++ [⟨.append, st.chain ++ [a.visible], settled, a.createdAt⟩]) := by
  obtain ⟨last, hlast, hchain, live⟩ := inv.current
  obtain ⟨p, hp, hsizes, hcreated, hevent⟩ := commitLiveAppend_publishes h
  obtain ⟨k', hk, live'⟩ := live.append h
  obtain ⟨_, checkpoint, q, spec, hq, _, hstore, _⟩ := commitLiveAppend_eq_ok h
  have hready : p.ready = appendedEvidence st.store.readyEvidence a.block checkpoint := by
    rw [← hp.ready, ← hq, hstore]
  have hheight : st.start.height + (st.chain ++ [a.visible]).length = a.block.height := by
    have := spec.height
    rw [live.tip_height] at this
    rw [length_append, length_singleton]
    omega
  refine ⟨k', inv.extend hlast hp rfl live' ?_ (by rw [hready]; rfl) ?_ hcreated ?_⟩
  · exact .append a.visible rfl (by rw [hchain]) hk
  · rw [hsizes, tipSizes_append]
    rfl
  · simp only [hevent, HistoryEntry.revertedRange, HistoryEntry.committedRange, hheight]

theorem HistoryInvariant.replacement (inv : HistoryInvariant st floor past)
    {r : CanonicalLiveReplacement E} {first : CanonicalReplacementBlock E}
    {activations : NetworkUpgradeActivations} {fence : CanonicalEventFence D}
    (hfirst : r.blocks.head? = some first)
    (h : commitLiveReplacement st.store r activations = .ok (s', fence)) :
    ∃ n settled, first.block.height = st.start.height + n + 1 ∧
      HistoryInvariant ⟨s', st.earlierRoots, below first.block.height st.chain ++ r.chain⟩ floor
        (past ++ [⟨.replacement n, below first.block.height st.chain ++ r.chain, settled,
          r.createdAt⟩]) := by
  obtain ⟨last, hlast, hchain, live⟩ := inv.current
  obtain ⟨n, sizes, oldSizes, facts, rest, hreplaced⟩ := live.replacedSuffix hfirst h
  obtain ⟨tip, htip⟩ := hreplaced.exists_last
  obtain ⟨p, hp, hsizes, hcreated, hevent⟩ := commitLiveReplacement_publishes hfirst htip h
  have live' := live.replacement hreplaced
  have hstart : (⟨s', st.earlierRoots, st.chain.take n ++ r.chain⟩ : LiveState E).start =
      st.start := by simp only [LiveState.start, hp.plan]
  have htipId : tipId st.start (st.chain.take n ++ r.chain) = tip.block.blockId := by
    rw [tipId_append]
    exact tipId_map_visible_eq htip
  have hheight : st.start.height + (st.chain.take n ++ r.chain).length = tip.block.height := by
    have := live'.tip_height
    rw [live'.tip_eq, hstart, htipId] at this
    exact this.symm
  refine ⟨n, last.settled, hreplaced.first_height hfirst live, ?_⟩
  rw [hreplaced.kept]
  refine inv.extend hlast hp rfl live' ?_ ?_ ?_ hcreated ?_
  · exact .replacement rfl (by rw [hchain]) hreplaced.nonempty hreplaced.settled_le
      (by rw [hchain]; exact hreplaced.lt_length) (by rw [hchain]; exact hreplaced.displaced_le) rfl
  · rw [← hp.ready]
    simp only [hreplaced.evidence]
    rfl
  · rw [hsizes, CanonicalLiveReplacement.chain, tipSizes_append]
    obtain ⟨front, hfront⟩ := getLast?_eq_some_iff.mp htip
    rw [hfront, map_append, tipSizes_append]
    rfl
  · rw [hevent, live.tip_height, hreplaced.first_height hfirst live]
    simp only [HistoryEntry.revertedRange, HistoryEntry.committedRange, hheight, hchain]

theorem LiveStep.history {st st' : LiveState E} (step : LiveStep st st')
    (inv : HistoryInvariant st floor past) :
    ∃ next, HistoryInvariant st' floor (past ++ [next]) := by
  cases step with
  | append h =>
    obtain ⟨settled, inv'⟩ := inv.append h
    exact ⟨_, inv'⟩
  | replacement hfirst h =>
    obtain ⟨n, settled, _, inv'⟩ := inv.replacement hfirst h
    exact ⟨_, inv'⟩

/-! ## The baseline -/

theorem publishBaseline_records {b : CanonicalBaseline E} {s : RocksDbCanonicalStore D}
    {chain : Chain E} (h : publishBaseline b = .ok s)
    (hchain : chain.map VisibleBlock.block = b.blocks) :
    ∃ epoch, s.db.lookup (Key.chainEpoch 1) = some epoch ∧
      epoch.tipMetadata = tipSizes s.buildPlan.historyPredecessor.tipMetadata chain ∧
      s.db.lookup (Key.chainEvent 1) = some (liveEvent 0 none
        ⟨s.buildPlan.historyPredecessor.blockId.height + 1, s.readyEvidence.visibleTip.height⟩
        s.readyEvidence) ∧
      s.db.lookup Key.storeControl = some ⟨s.workload, s.buildPlan, s.readyEvidence⟩ ∧
      s.readyEvidence.visibleEventSequence = 1 := by
  obtain ⟨blockDb, sequence, roots', first, settled, steps⟩ := publishBaseline_steps h
  have hload := steps.loaded
  have hfirst := steps.head
  obtain rfl := steps.store
  rw [← hchain] at hload hfirst
  obtain ⟨⟨v, rest, rfl, hstaged⟩, hlinked, _⟩ := bulkLoadBlocks_eq_ok hload
  cases hfirst
  refine ⟨⟨sequence.checkpoint.through, b.settledTip, sequence.tipMetadata, b.createdAt⟩, ?_,
    hstaged.sizes, ?_, ?_, rfl⟩
  · exact LivePublication.lookup_epoch _ [] _
  · rw [← show v.block.height = b.plan.historyPredecessor.blockId.height + 1 from hlinked.1]
    exact LivePublication.lookup_row _ [] _ (mem_cons_of_mem _ mem_cons_self)
  · exact LivePublication.lookup_row _ [] _
      (mem_cons_of_mem _ (mem_cons_of_mem _ mem_cons_self))

omit [DecidableEq D] in
theorem LiveInvariant.history {k : Nat} (live : LiveInvariant st k) {epoch : ChainEpochRecord}
    (hepoch : st.store.db.lookup (Key.chainEpoch 1) = some epoch)
    (hsizes : epoch.tipMetadata =
      tipSizes st.store.buildPlan.historyPredecessor.tipMetadata st.chain)
    (hevent : st.store.db.lookup (Key.chainEvent 1) =
      some (liveEvent 0 none ⟨st.start.height + 1, st.store.readyEvidence.visibleTip.height⟩
        st.store.readyEvidence))
    (hcontrol : st.store.db.lookup Key.storeControl =
      some ⟨st.store.workload, st.store.buildPlan, st.store.readyEvidence⟩)
    (hsequence : st.store.readyEvidence.visibleEventSequence = 1) :
    HistoryInvariant st 1 [⟨.baseline, st.chain, k, epoch.createdAt⟩] := by
  have hvisible : st.store.readyEvidence.visibleEpoch = 1 := live.fence.trans hsequence
  have hentry : ∀ i (h : HistoryEntry E),
      [(⟨.baseline, st.chain, k, epoch.createdAt⟩ : HistoryEntry E)][i]? = some h →
        i = 0 ∧ h = ⟨.baseline, st.chain, k, epoch.createdAt⟩ := by
    intro i h hi
    cases i with
    | zero => exact ⟨rfl, (Option.some.inj hi).symm⟩
    | succ i => simp at hi
  exact
    { length := hsequence.symm
      current := ⟨_, rfl, rfl, live⟩
      baseline := by simp
      evolves := .singleton _
      valid := by
        intro h hh
        rw [mem_singleton.mp hh]
        exact live.entryValid (h := ⟨.baseline, st.chain, k, _⟩) rfl
      epochs := by
        intro i h hi
        obtain ⟨rfl, rfl⟩ := hentry i h hi
        rw [hepoch]
        exact congrArg some (live.epoch_eq (h := ⟨.baseline, st.chain, k, _⟩) rfl
          (by rw [hvisible, hepoch]) hsizes rfl)
      events := by
        intro i h hi _
        obtain ⟨rfl, rfl⟩ := hentry i h hi
        rw [hevent, live.tip_height]
        exact congrArg some (live.liveEvent_eq (h := ⟨.baseline, st.chain, k, _⟩) rfl 0 hvisible)
      control := hcontrol }

theorem Published.history (h : Published st) : ∃ entry, HistoryInvariant st 1 [entry] := by
  obtain ⟨k, live⟩ := h.invariant
  obtain ⟨_, h⟩ := h
  obtain ⟨epoch, hepoch, hsizes, hevent, hcontrol, hsequence⟩ :=
    publishBaseline_records h (attachRoots_blocks _ _ _)
  exact ⟨_, live.history hepoch hsizes hevent hcontrol hsequence⟩

end Steps

/-! ## Pruning -/

theorem LiveInvariant.of_lookup {k : Nat} (inv : LiveInvariant st k) {db : Db D}
    (h : ∀ key : Key, (∀ i, key ≠ .chainEvent i) → db.lookup key = st.store.db.lookup key) :
    LiveInvariant ⟨{ st.store with db }, st.earlierRoots, st.chain⟩ k where
  holds := ⟨inv.linked, inv.holds.admitted, fun key hkey => by
    rw [h key ?_]
    · exact inv.holds.rows key hkey
    · rintro i rfl
      simp [Key.IsHeightKey, Key.height?] at hkey⟩
  settled_pos := inv.settled_pos
  settled_le := inv.settled_le
  visible := inv.visible
  settled := inv.settled
  epoch := by
    simp only [h (.chainEpoch _) (by simp)]
    exact inv.epoch
  fence := inv.fence
  window := inv.window

/-- Deleting event rows below a higher floor, the baseline event apart, keeps the history. -/
theorem HistoryInvariant.pruned {floor floor' : Nat} (inv : HistoryInvariant st floor past)
    (hfloor : floor ≤ floor') {deleted : List Nat} (hdeleted : ∀ i ∈ deleted, i ≠ 1 ∧ i < floor') :
    HistoryInvariant ⟨{ st.store with
        db := write (deleted.map fun sequence => Op.delete (Key.chainEvent sequence)) st.store.db },
      st.earlierRoots, st.chain⟩ floor' past := by
  have hkeys : deleted.map (fun sequence => (Op.delete (Key.chainEvent sequence) : Op (Val D))) =
      (deleted.map Key.chainEvent).map Op.delete := by simp
  have hother : ∀ key : Key, (∀ i ∈ deleted, key ≠ .chainEvent i) →
      (write (deleted.map fun sequence => Op.delete (Key.chainEvent sequence))
        st.store.db).lookup key = st.store.db.lookup key := by
    intro key hkey
    rw [hkeys, lookup_write_deletes, if_neg]
    intro hmem
    obtain ⟨i, hi, rfl⟩ := mem_map.mp hmem
    exact hkey i hi rfl
  obtain ⟨last, hlast, hchain, live⟩ := inv.current
  exact
    { length := inv.length
      current := ⟨last, hlast, hchain, live.of_lookup fun key hkey => hother key fun i _ => hkey i⟩
      baseline := inv.baseline
      evolves := inv.evolves
      valid := inv.valid
      epochs := by
        intro i h hi
        simp only [hother (.chainEpoch (i + 1)) (by simp)]
        exact inv.epochs i h hi
      events := by
        intro i h hi hretained
        have hkept : ∀ j ∈ deleted, Key.chainEvent (i + 1) ≠ .chainEvent j := by
          intro j hj heq
          obtain ⟨hne, hlt⟩ := hdeleted j hj
          cases heq
          omega
        simp only [hother _ hkept]
        exact inv.events i h hi (hretained.imp_right fun hle => hfloor.trans hle)
      control := by
        simp only [hother .storeControl (by simp)]
        exact inv.control }

end Zinder.Canonical
