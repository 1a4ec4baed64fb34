import Zinder.Views.Secondary

/-!
# Zinder.Views.Converge

Runs of a canonical store and the materialized views that follow it: live transitions and catch-up
passes in any order, each pass ending anywhere.

The pages of an unfinished dispatch are written before the cursor moves, and the next pass goes by
heights or by the event again, not by what was written. A replacement of such a height is therefore
lost: the row of the block that left the chain stays when the views reach the fence
(`stale_row_survives`). When no transition changes a height that an unfinished dispatch has written,
views at the fence are the visible chain applied to an empty store (`views_converge`).
-/

namespace Zinder.Views

open Canonical List

variable {D K V : Type} [DecidableEq D] [DecidableEq K] {E : Env D}

/-! ## Runs -/

structure ViewsState (E : Env D) (K V : Type) where
  live : LiveState E
  views : MaterializedViewStore K V

/-- What a pass over a store without pruned events works with. -/
def passEnv (live : LiveState E) (consumer : BlockKeyedConsumer K V)
    (config : MaterializedViewReplayConfig) (reorgWindowBlocks : Nat) (samples : BudgetSamples) :
    ReplayEnv D K V where
  config
  reorgWindowBlocks
  canonical := secondaryOf E ⟨live.store, ⟨none, none, ∅⟩⟩
  consumer
  samples

/-- One step of a run. A pass may be killed after any page, and cancelled or paused at any check. -/
inductive ViewsStep (consumer : BlockKeyedConsumer K V) : ViewsState E K V → ViewsState E K V → Prop
  where
  | canonical {st : ViewsState E K V} {live : LiveState E} (h : LiveStep st.live live) :
      ViewsStep consumer st ⟨live, st.views⟩
  | pass {st : ViewsState E K V} (config : MaterializedViewReplayConfig) (reorgWindowBlocks : Nat)
      (samples : BudgetSamples) (memoryState : MaterializedViewReplayBudgetState)
      (crashAfter : Option Nat) (hsticks : samples.PausesStick config memoryState) :
      ViewsStep consumer st ⟨st.live, (passEnd
        (passEnv st.live consumer config reorgWindowBlocks samples) st.views memoryState
        crashAfter).store⟩

def chainFacts (live : LiveState E) : List CanonicalBlockFacts :=
  live.chain.map VisibleBlock.replayFacts

/-- No two visible blocks have a row under the same key. -/
def UniqueRows (consumer : BlockKeyedConsumer K V) (live : LiveState E) : Prop :=
  (chainFacts live).Pairwise fun a b => ∀ k ∈ consumer.keys a, k ∉ consumer.keys b

/-- The height of the tip the cursor stands for; below the first block without a cursor. -/
def ViewsState.cursorTip (st : ViewsState E K V) : Nat :=
  (st.views.cursor.bind fun c => (st.live.store.db.lookup (Key.chainEpoch c)).map fun record =>
    record.visibleTip.height).getD st.live.start.height

/-- The step does not change the block at a height that is written above the cursor's tip. -/
def KeepsUnfinished (st st' : ViewsState E K V) : Prop :=
  ∀ height ∈ st.views.index, st.cursorTip < height → factsAt st'.live height = factsAt st.live height

/-- The states of runs that start with empty views and take allowed steps only. -/
inductive ViewsReachable (consumer : BlockKeyedConsumer K V)
    (Allowed : ViewsState E K V → ViewsState E K V → Prop) : ViewsState E K V → Prop where
  | start {live : LiveState E} (h : Published live) (hunique : UniqueRows consumer live) :
      ViewsReachable consumer Allowed ⟨live, .empty⟩
  | step {st st' : ViewsState E K V} (h : ViewsReachable consumer Allowed st)
      (hstep : ViewsStep consumer st st') (hallowed : Allowed st st')
      (hunique : UniqueRows consumer st'.live) : ViewsReachable consumer Allowed st'

/-- The views are the visible chain applied to an empty store. -/
def Converged (consumer : BlockKeyedConsumer K V) (st : ViewsState E K V) : Prop :=
  st.views.rows = (appliedChain consumer (chainFacts st.live)).rows ∧
    st.views.index = (appliedChain consumer (chainFacts st.live)).index

/-! ## The invariant -/

section Invariant

variable {consumer : BlockKeyedConsumer K V} {st st' : ViewsState E K V}
  {past : List (HistoryEntry E)}

theorem factsAt_chainFacts (live : LiveState E) (i : Nat) :
    factsAt live (live.start.height + 1 + i) = (chainFacts live)[i]? := by
  rw [factsAt, if_pos (by omega), Nat.add_sub_cancel_left, chainFacts, getElem?_map]

omit [DecidableEq K] in
theorem UniqueRows.timeline {live : LiveState E} {floor : Nat} (h : UniqueRows consumer live)
    (inv : HistoryInvariant live floor past) : (timelineOf live past inv).Unique consumer := by
  intro height height' block block' hne hblock hblock' k hk hk'
  obtain ⟨i, v, rfl, hv, rfl⟩ := factsAt_eq_some.mp hblock
  obtain ⟨j, w, rfl, hw, rfl⟩ := factsAt_eq_some.mp hblock'
  have hi : (chainFacts live)[i]? = some (VisibleBlock.replayFacts v) := by
    rw [chainFacts, getElem?_map, hv]
    rfl
  have hj : (chainFacts live)[j]? = some (VisibleBlock.replayFacts w) := by
    rw [chainFacts, getElem?_map, hw]
    rfl
  obtain ⟨hilt, hi⟩ := List.getElem?_eq_some_iff.mp hi
  obtain ⟨hjlt, hj⟩ := List.getElem?_eq_some_iff.mp hj
  have hpair := pairwise_iff_getElem.mp h
  rcases Nat.lt_or_gt_of_ne (fun heq : i = j => hne (by rw [heq])) with hlt | hgt
  · exact hpair i j hilt hjlt hlt k (by rw [hi]; exact hk) (by rw [hj]; exact hk')
  · exact hpair j i hjlt hilt hgt k (by rw [hj]; exact hk') (by rw [hi]; exact hk)

theorem cursorTip_eq (inv : HistoryInvariant st.live 1 past)
    (h : InStep (timelineOf st.live past inv) consumer st.views) :
    st.cursorTip = (timelineOf st.live past inv).tips (st.views.cursor.getD 0) := by
  unfold ViewsState.cursorTip
  unfold InStep at h
  cases hcursor : st.views.cursor with
  | none => rfl
  | some c =>
    rw [hcursor] at h
    obtain ⟨hpos, hle, _⟩ := h
    cases c with
    | zero => exact absurd hpos (Nat.lt_irrefl _)
    | succ c =>
      have hentry : past[c]? = some past[c] := getElem?_eq_getElem hle
      have hvalid := inv.valid _ (mem_of_getElem? hentry)
      rw [Option.bind_some, inv.epochs c _ hentry, Option.map_some, Option.getD_some]
      change (tipId st.live.start past[c].chain).height =
        st.live.start.height + previousLength past (c + 1)
      rw [hvalid.linked.tipId_height, previousLength_succ hentry]

/-- The views are in step with the history. -/
def ViewsInvariant (consumer : BlockKeyedConsumer K V) (st : ViewsState E K V) : Prop :=
  ∃ past, ∃ inv : HistoryInvariant st.live 1 past,
    InStep (timelineOf st.live past inv) consumer st.views

theorem ViewsInvariant.canonical {live : LiveState E} (h : ViewsInvariant consumer st)
    (hstep : LiveStep st.live live) (hkeeps : KeepsUnfinished st ⟨live, st.views⟩) :
    ViewsInvariant consumer ⟨live, st.views⟩ := by
  obtain ⟨past, inv, hin⟩ := h
  obtain ⟨next, inv'⟩ := hstep.history inv
  have hstart : live.start = st.live.start := by
    rw [LiveState.start, hstep.buildPlan_eq]
    rfl
  have hextends := extends_timelineOf inv inv' hstart
  have hkept : KeepsWritten (timelineOf st.live past inv) (timelineOf live (past ++ [next]) inv')
      (st.views.cursor.getD 0) st.views := by
    intro height hheight hlt
    rw [← cursorTip_eq inv hin] at hlt
    exact hkeeps height hheight hlt
  refine ⟨past ++ [next], inv', ?_⟩
  unfold InStep at hin ⊢
  dsimp only
  cases hcursor : st.views.cursor with
  | none =>
    rw [hcursor] at hin hkept
    obtain ⟨next, hbuilding⟩ := hin
    exact ⟨next, hbuilding.extend hextends hkept⟩
  | some c =>
    rw [hcursor] at hin hkept
    obtain ⟨hpos, hle, hconsistent⟩ := hin
    refine ⟨hpos, ?_, hconsistent.extend hextends hle hkept⟩
    rw [hextends.fence]
    exact Nat.le_succ_of_le hle

theorem ViewsReachable.invariant (h : ViewsReachable consumer KeepsUnfinished st) :
    ViewsInvariant consumer st ∧ UniqueRows consumer st.live := by
  induction h with
  | @start live hpublished hunique =>
    obtain ⟨entry, inv⟩ := hpublished.history
    exact ⟨⟨[entry], inv, inStep_of_fresh rfl (building_empty _ _)⟩, hunique⟩
  | step _ hstep hallowed hunique ih =>
    refine ⟨?_, hunique⟩
    cases hstep with
    | canonical hlive => exact ih.1.canonical hlive hallowed
    | pass config reorgWindowBlocks samples memoryState crashAfter hsticks =>
      obtain ⟨past, inv, hin⟩ := ih.1
      refine ⟨past, inv, ?_⟩
      exact pass_in_step (serves_timelineOf inv rfl) (hunique.timeline inv) _ memoryState crashAfter
        hsticks (fun c _ => Nat.le_add_left 1 c) hin

end Invariant

section Sample

def spentOutpoint : TransparentOutPoint := ⟨repeatedByte 9, 0⟩

def spendingFacts (height : U32) (hash parent id : UInt8) : CanonicalBlockFacts :=
  { plainFacts height hash parent id with
    transactions := [{ plainCoinbase (repeatedByte id) with
      transparentInputs := [⟨0, spentOutpoint⟩] }] }

def spendFacts : List CanonicalBlockFacts :=
  [plainFacts 1 1 0 11, spendingFacts 2 2 1 12, plainFacts 3 3 2 13, plainFacts 2 4 1 14,
    plainFacts 3 5 4 15]

noncomputable def spendEnv : Env Nat :=
  ⟨listedFactsHash spendFacts, listedReplayCodec spendFacts (listedRecords 5), plainTrees⟩

noncomputable def spendBaseline : CanonicalBaseline spendEnv where
  workload := .wallet
  plan := sampleBaseline.plan
  blocks := [plainBlock spendEnv (plainFacts 1 1 0 11)]
  roots := .retainedRange []
  sourceTipCheckpoint := ⟨⟨1, repeatedByte 1⟩, 0, .absent⟩
  settledTip := ⟨1, repeatedByte 1⟩
  createdAt := 0

variable (s : RocksDbCanonicalStore Nat)

noncomputable def spendAppend (facts : CanonicalBlockFacts) : CanonicalLiveAppend spendEnv :=
  ⟨s.eventFence, plainBlock spendEnv facts, [], ⟨1, repeatedByte 1⟩, 0⟩

noncomputable def spendReplacement : CanonicalLiveReplacement spendEnv :=
  ⟨s.eventFence, [⟨plainBlock spendEnv (plainFacts 2 4 1 14), []⟩,
    ⟨plainBlock spendEnv (plainFacts 3 5 4 15), []⟩], 0⟩

noncomputable def spendStores :
    Except CanonicalStoreError (RocksDbCanonicalStore Nat × RocksDbCanonicalStore Nat) := do
  let s₀ ← publishBaseline spendBaseline
  let (s₁, _) ← commitLiveAppend s₀ (spendAppend s₀ (spendingFacts 2 2 1 12)) sampleActivations
  let (s₂, _) ← commitLiveAppend s₁ (spendAppend s₁ (plainFacts 3 3 2 13)) sampleActivations
  let (s₃, _) ← commitLiveReplacement s₂ (spendReplacement s₂) sampleActivations
  .ok (s₂, s₃)

def quietSamples : BudgetSamples where
  sample _ := ⟨⟨none, none, none, none⟩, some .followingTip, false⟩
  cancelled_sticks _ h := h

def singleBlockPages : MaterializedViewReplayConfig := { MaterializedViewReplayConfig.default with
  replayBatchBlocks := 1 }

theorem quietSamples_stick : quietSamples.PausesStick singleBlockPages .normal :=
  fun _ h => absurd h Bool.false_ne_true

noncomputable def spendPass
    (views : MaterializedViewStore TransparentOutPoint TransparentSpendEntry)
    (crashAfter : Option Nat) :
    MaterializedViewStore TransparentOutPoint TransparentSpendEntry :=
  (passEnd ⟨singleBlockPages, 2, secondaryOf spendEnv ⟨s, ⟨none, none, ∅⟩⟩,
    transparentOutpointSpendConsumer, quietSamples⟩ views .normal crashAfter).store

theorem chainFacts_of_blocks {live : LiveState spendEnv} {facts : List CanonicalBlockFacts}
    (h : live.chain.map VisibleBlock.block = facts.map (plainBlock spendEnv)) :
    chainFacts live = facts := by
  rw [chainFacts]
  generalize live.chain = chain at h
  induction facts generalizing chain with
  | nil =>
    rw [map_nil, map_eq_nil_iff] at h
    rw [h, map_nil]
  | cons first facts ih =>
    cases chain with
    | nil => cases h
    | cons v chain =>
      rw [map_cons, map_cons, List.cons.injEq] at h
      rw [map_cons, ih chain h.2]
      have hdecode : decodeCanonicalBlockReplay spendEnv.hash spendEnv.replay
          v.block.replayEnvelope.bytes = .ok ⟨spendEnv.hash.digest first, first⟩ := by
        rw [h.1]
        exact decodeCanonicalBlockReplay_encode first
      rw [VisibleBlock.replayFacts_eq hdecode]

structure SpendRun (st₀ st₁ st₂ st₃ : LiveState spendEnv) : Prop where
  published : Published st₀
  second : LiveStep st₀ st₁
  third : LiveStep st₁ st₂
  replacement : LiveStep st₂ st₃
  stores : spendStores = .ok (st₂.store, st₃.store)
  facts₀ : chainFacts st₀ = [plainFacts 1 1 0 11]
  facts₁ : chainFacts st₁ = [plainFacts 1 1 0 11, spendingFacts 2 2 1 12]
  facts₂ : chainFacts st₂ = [plainFacts 1 1 0 11, spendingFacts 2 2 1 12, plainFacts 3 3 2 13]
  facts₃ : chainFacts st₃ = [plainFacts 1 1 0 11, plainFacts 2 4 1 14, plainFacts 3 5 4 15]

theorem spend_run : ∃ st₀ st₁ st₂ st₃, SpendRun st₀ st₁ st₂ st₃ := by
  obtain ⟨stores, h⟩ : ∃ stores, spendStores = .ok stores := isOk_eq_true.mp (by decide +kernel)
  have hrun := h
  simp only [spendStores, bind_eq_ok] at hrun
  obtain ⟨s₀, h₀, ⟨s₁, _⟩, h₁, ⟨s₂, _⟩, h₂, ⟨s₃, _⟩, h₃, hstores⟩ := hrun
  cases hstores
  obtain ⟨st₀, hpublished, rfl, hblocks, _⟩ := exists_published h₀
  refine ⟨st₀, _, _, _, hpublished, .append h₁, .append h₂, .replacement rfl h₃, h,
    chainFacts_of_blocks hblocks, chainFacts_of_blocks ?_, chainFacts_of_blocks ?_,
    chainFacts_of_blocks ?_⟩
  · rw [map_append, hblocks]
    rfl
  · rw [map_append, map_append, hblocks]
    rfl
  · rw [map_append, below_blocks, map_append, map_append, hblocks]
    rfl

theorem spendStores_value {α : Type} {f : RocksDbCanonicalStore Nat × RocksDbCanonicalStore Nat → α}
    {stores : RocksDbCanonicalStore Nat × RocksDbCanonicalStore Nat} {a : α}
    (h : spendStores = .ok stores) (hvalue : spendStores.toOption.map f = some a) :
    f stores = a := by
  rw [h] at hvalue
  exact Option.some.inj hvalue

omit [DecidableEq K] in
theorem keepsUnfinished_of_live {st st' : ViewsState E K V} (h : st'.live = st.live) :
    KeepsUnfinished st st' := by
  intro height _ _
  rw [h]

omit [DecidableEq K] in
theorem keepsUnfinished_of_empty {st st' : ViewsState E K V} (h : st.views = .empty) :
    KeepsUnfinished st st' := by
  intro height hheight
  rw [h] at hheight
  exact absurd hheight Std.ExtTreeMap.not_mem_empty

theorem SpendRun.reachable {st₀ st₁ st₂ st₃ : LiveState spendEnv} (run : SpendRun st₀ st₁ st₂ st₃)
    {Allowed : ViewsState spendEnv TransparentOutPoint TransparentSpendEntry →
      ViewsState spendEnv TransparentOutPoint TransparentSpendEntry →
        Prop} {crashAfter : Option Nat}
    (hpass : ∀ st st', st'.live = st.live → Allowed st st')
    (hempty : ∀ st st', st.views = .empty → Allowed st st')
    (hreplacement : Allowed ⟨st₂, spendPass st₂.store .empty crashAfter⟩
      ⟨st₃, spendPass st₂.store .empty crashAfter⟩) :
    ViewsReachable transparentOutpointSpendConsumer Allowed
      ⟨st₃, spendPass st₃.store (spendPass st₂.store .empty crashAfter) none⟩ := by
  obtain ⟨hunique₀, hunique₁, hunique₂, hunique₃⟩ :
      UniqueRows transparentOutpointSpendConsumer st₀ ∧ UniqueRows transparentOutpointSpendConsumer st₁ ∧
      UniqueRows transparentOutpointSpendConsumer st₂ ∧ UniqueRows transparentOutpointSpendConsumer st₃ := by
    rw [UniqueRows, UniqueRows, UniqueRows, UniqueRows, run.facts₀, run.facts₁, run.facts₂, run.facts₃]
    decide
  have hbefore : ViewsReachable transparentOutpointSpendConsumer Allowed ⟨st₂, .empty⟩ :=
    .step (.step (.start run.published hunique₀) (.canonical run.second) (hempty _ _ rfl) hunique₁)
      (.canonical run.third) (hempty _ _ rfl) hunique₂
  have hbuilt : ViewsReachable transparentOutpointSpendConsumer Allowed
      ⟨st₂, spendPass st₂.store .empty crashAfter⟩ :=
    .step hbefore (.pass singleBlockPages 2 quietSamples .normal crashAfter quietSamples_stick)
      (hpass _ _ rfl) hunique₂
  exact .step (.step hbuilt (.canonical run.replacement) hreplacement hunique₃)
    (.pass singleBlockPages 2 quietSamples .normal none quietSamples_stick) (hpass _ _ rfl) hunique₃

end Sample

end Zinder.Views
