import Zinder.Views.Timeline

/-!
# Zinder.Views.PassConverges

A catch-up pass keeps the views in step with the timeline its secondary serves, wherever it ends.

`InStep` reads the cursor: without one the views are a first build, with one they are consistent at it.
An event is reverted and its blocks written one by one; the cursor moves with the last page, when the
event is finished (`events_in_step`). The height rebuild continues a first build, or rewrites at the
fence what is already there (`rebuild_in_step`).
-/

namespace Zinder.Views

open Stateful

variable {D K V : Type}

/-- The reads of a secondary are those of a timeline whose events are retained from `floor` on. -/
structure Serves (canonical : CanonicalSecondary D) (T : Timeline) (floor : Nat) : Prop where
  first : canonical.firstAvailableHeight = T.first
  fence : canonical.eventFenceSequence = T.fence
  retained : canonical.retentionFloor = .ok floor
  committed : ∀ n event, floor ≤ n + 1 → n < T.fence →
    canonical.retainedEvent (n + 1) = .ok event →
    event.committedRange = ⟨T.commitStart n, T.tips (n + 1)⟩
  reverted : ∀ n event, floor ≤ n + 1 → n < T.fence →
    canonical.retainedEvent (n + 1) = .ok event →
    eventReverted event = (T.reverts n).map fun a => ⟨a, T.tips n⟩
  epoch : ∀ epoch, canonical.chainEpoch = .ok epoch → epoch.visibleTip.height = T.tips T.fence
  blocks : ∀ range blocks height block, canonical.blockFacts range = .ok blocks →
    height ∈ range.heights → (contextsOf blocks)[height]? = some block →
    T.blocks height = some block

variable [DecidableEq K]

def InStep (T : Timeline) (consumer : BlockKeyedConsumer K V) (store : MaterializedViewStore K V) :
    Prop :=
  match store.cursor with
  | none => ∃ next, Building T consumer next store
  | some c => 0 < c ∧ c ≤ T.fence ∧ Consistent T consumer c store

section Step

variable {T : Timeline} {consumer : BlockKeyedConsumer K V} {store : MaterializedViewStore K V}

theorem inStep_of_cursor {c : Nat} (hcursor : store.cursor = some c) (hpos : 0 < c)
    (hc : c ≤ T.fence) (h : Consistent T consumer c store) : InStep T consumer store := by
  rw [InStep, hcursor]
  exact ⟨hpos, hc, h⟩

theorem inStep_of_fresh {next : Nat} (hcursor : store.cursor = none)
    (h : Building T consumer next store) : InStep T consumer store := by
  rw [InStep, hcursor]
  exact ⟨next, h⟩

end Step

/-! ## Events -/

section Events

variable {T : Timeline} {env : ReplayEnv D K V} {m₀ : MaterializedViewReplayBudgetState}
  {floor : Nat}

def AtCursor (T : Timeline) (consumer : BlockKeyedConsumer K V) (n : Nat) : Progress K V :=
  fun store _ => store.cursor = some n ∧ 0 < n ∧ n ≤ T.fence ∧ Consistent T consumer n store

def EventPages (T : Timeline) (consumer : BlockKeyedConsumer K V) (n : Nat) : PageProgress K V
  | next, true, store, _ => next = T.commitStart n ∧ AtCursor T consumer n store []
  | next, false, store, _ => T.commitStart n ≤ next ∧
      if next ≤ T.tips (n + 1) then
        store.cursor = some n ∧ 0 < n ∧ Dispatching T consumer n next store
      else AtCursor T consumer (n + 1) store []

variable {store : MaterializedViewStore K V} {firstPage : Bool}

theorem EventPages.inStep {n next : Nat} {written : List PageWrite} (hn : n < T.fence)
    (h : EventPages T env.consumer n next firstPage store written) :
    InStep T env.consumer store := by
  cases firstPage with
  | true =>
    obtain ⟨_, hcursor, hpos, hle, hconsistent⟩ := h
    exact inStep_of_cursor hcursor hpos hle hconsistent
  | false =>
    obtain ⟨_, h⟩ := h
    split at h
    · obtain ⟨hcursor, hpos, hdispatching⟩ := h
      exact inStep_of_cursor hcursor hpos (Nat.le_of_lt hn) hdispatching.toConsistent
    · obtain ⟨hcursor, hpos, hle, hconsistent⟩ := h
      exact inStep_of_cursor hcursor hpos hle hconsistent

theorem EventPages.reverted {n next : Nat} {written : List PageWrite} (hn : n < T.fence)
    (hnext : next ≤ T.tips (n + 1)) (h : EventPages T env.consumer n next firstPage store written)
    {t : DispatchedTransition} (ht : t.revertedHeights = T.revertedHeights n) :
    T.commitStart n ≤ next ∧ store.cursor = some n ∧ 0 < n ∧
      ∀ reverted, Reverted (t.forPage firstPage).revertedHeights store reverted →
        Dispatching T env.consumer n next reverted := by
  cases firstPage with
  | true =>
    obtain ⟨rfl, hcursor, hpos, _, hconsistent⟩ := h
    refine ⟨Nat.le_refl _, hcursor, hpos, fun reverted hreverted => ?_⟩
    refine hconsistent.revert hn ?_
    rw [← ht]
    exact hreverted
  | false =>
    obtain ⟨hge, h⟩ := h
    rw [if_pos hnext] at h
    obtain ⟨hcursor, hpos, hdispatching⟩ := h
    refine ⟨hge, hcursor, hpos, fun reverted hreverted => ?_⟩
    obtain ⟨hrows, hindex⟩ := Reverted.eq_of_nil hreverted
    exact hdispatching.congr hrows hindex

section

variable (hserves : Serves env.canonical T floor) (hunique : T.Unique env.consumer)
include hserves hunique

theorem EventPages.page {n : Nat} {written written' : List PageWrite} (hn : n < T.fence)
    {page : BlockHeightRange} {t : DispatchedTransition} {blocks : List CanonicalBlockFacts}
    (hpage : page.start ≤ page.stop) (hstop : page.stop ≤ T.tips (n + 1))
    (hblocks : env.canonical.blockFacts page = .ok blocks)
    (hcontexts : ∀ height ∈ page.heights, (contextsOf blocks).contains height)
    (ht : t.revertedHeights = T.revertedHeights n) (hcursor : t.cursor = n + 1) {last : Bool}
    (hlast : last = true ↔ T.tips (n + 1) ≤ page.stop)
    (h : EventPages T env.consumer n page.start firstPage store written) :
    EventPages T env.consumer n (page.stop + 1) false
      (pageStore env store (t.forPage firstPage) page (contextsOf blocks) last) written' := by
  obtain ⟨hge, hstored, hpos, hreverted⟩ := h.reverted hn (Nat.le_trans hpage hstop) ht
  have hstep : ∀ height block store, page.start ≤ height → height ≤ page.stop →
      (contextsOf blocks)[height]? = some block →
      T.commitStart n ≤ height ∧ Dispatching T env.consumer n height store →
      T.commitStart n ≤ height + 1 ∧ Dispatching T env.consumer n (height + 1)
        (store.writeBatch (MaterializedViewStore.applyBlock env.consumer block)) := by
    rintro height block store hstart hle hblock ⟨hcommit, hdispatching⟩
    have hmem : height ∈ page.heights := BlockHeightRange.mem_heights.mpr ⟨hstart, hle⟩
    exact ⟨Nat.le_succ_of_le hcommit, hdispatching.apply hunique hn hcommit
      (Nat.le_trans hle hstop) (hserves.blocks page blocks height block hblocks hmem hblock)⟩
  obtain ⟨pages, ⟨_, hpages⟩, hstore⟩ := pageStore_rule (t.forPage firstPage) last hpage
    hcontexts hstep store fun reverted hrevert => ⟨hge, hreverted reverted hrevert⟩
  refine ⟨Nat.le_trans hge (Nat.le_succ_of_le hpage), ?_⟩
  rw [hstore]
  cases last with
  | true =>
    have heq : page.stop = T.tips (n + 1) := Nat.le_antisymm hstop (hlast.mp rfl)
    rw [heq] at hpages ⊢
    rw [if_neg (Nat.not_succ_le_self _)]
    exact ⟨congrArg some hcursor, Nat.succ_pos n, hn, (hpages.finish hunique hn).congr rfl rfl⟩
  | false =>
    have hlt : page.stop + 1 ≤ T.tips (n + 1) :=
      Nat.lt_of_not_le fun hle => Bool.false_ne_true (hlast.mpr hle)
    rw [if_pos hlt]
    exact ⟨hstored, hpos, hpages.congr rfl rfl⟩

theorem events_in_step :
    EventsKeep env m₀ floor (AtCursor T env.consumer) fun store _ => InStep T env.consumer store where
  safe n store _ h := inStep_of_cursor h.1 h.2.1 h.2.2.1 h.2.2.2
  event n event hfloor hfence hevent := by
    rw [hserves.fence] at hfence
    have hcommitted := hserves.committed n event hfloor hfence hevent
    have hsequence := env.canonical.eventSequence_retainedEvent _ _ hevent
    have hsafe : ∀ s, Somewhere env m₀ (EventPages T env.consumer n) s →
        PassHolds env m₀ (fun store _ => InStep T env.consumer store) s := by
      rintro s ⟨next, firstPage, hs⟩
      exact hs.mono fun _ _ h => h.inStep hfence
    refine Triple.consequence (replayRetainedEvent_rule (I := EventPages T env.consumer n) ?_ ?_)
      ?_ ?_ fun _ => hsafe
    · intro epoch page firstPage blocks store written hpage hstop hblocks hcontexts h
      have hstop' : page.stop ≤ T.tips (n + 1) := by
        rw [eventTransition, hcommitted] at hstop
        exact hstop
      refine h.page hserves hunique hfence hpage hstop' hblocks hcontexts ?_ hsequence ?_
      · rw [DispatchedTransition.revertedHeights, eventTransition,
          hserves.reverted n event hfloor hfence hevent, Timeline.revertedHeights]
        cases T.reverts n <;> rfl
      · rw [decide_eq_true_iff, eventTransition, hcommitted]
    · intro epoch store written hempty _
      rw [hcommitted] at hempty
      exact absurd (T.commits n hfence) (Nat.not_le.mpr hempty)
    · intro s hs
      refine ⟨hs.tracks, ?_, hs.progress⟩
      rw [hcommitted]
    · rintro _ s (⟨next, hpast, hs⟩ | ⟨hs, hstopped⟩)
      · refine .inl (hs.mono ?_)
        rintro store written ⟨_, h⟩
        rw [hcommitted] at hpast
        rw [if_neg (Nat.not_le.mpr hpast)] at h
        exact h
      · exact .inr ⟨hsafe s hs, hstopped⟩

end

end Events

/-! ## The height rebuild -/

section Rebuild

variable {T : Timeline} {env : ReplayEnv D K V} {floor : Nat}

/-- The views are a first build below `next`, without a cursor or with the one at the fence. -/
def Rebuilding (T : Timeline) (consumer : BlockKeyedConsumer K V) (next : Nat)
    (store : MaterializedViewStore K V) : Prop :=
  Building T consumer next store ∧
    (store.cursor = none ∨ store.cursor = some T.fence ∧ next = T.tips T.fence + 1)

variable {store : MaterializedViewStore K V}

theorem Rebuilding.inStep {consumer : BlockKeyedConsumer K V} {next : Nat}
    (h : Rebuilding T consumer next store) (hunique : T.Unique consumer) :
    InStep T consumer store := by
  obtain ⟨hbuilding, hcursor | ⟨hcursor, rfl⟩⟩ := h
  · exact inStep_of_fresh hcursor hbuilding
  · exact inStep_of_cursor hcursor T.fence_pos (Nat.le_refl _) (hbuilding.finish hunique)

def RebuildPages (T : Timeline) (consumer : BlockKeyedConsumer K V) : PageProgress K V :=
  fun height _ store _ => T.first ≤ height ∧ ∃ next, height ≤ next ∧ Rebuilding T consumer next store

theorem rebuildStart_le (hserves : Serves env.canonical T floor) {next : Nat}
    (h : Building T env.consumer next store) :
    T.first ≤ rebuildStart env store ∧ rebuildStart env store ≤ next := by
  unfold rebuildStart
  rw [hserves.first]
  cases hhead : store.materializedHeight with
  | none => exact ⟨Nat.le_refl _, h.first_le⟩
  | some head =>
    have hmem : head ∈ store.index :=
      Std.ExtTreeMap.mem_keys.mp (List.mem_of_getLast? hhead)
    obtain ⟨keys, hkeys⟩ := Option.isSome_iff_exists.mp
      (Std.ExtTreeMap.mem_iff_isSome_getElem?.mp hmem)
    have hlt := (h.within head keys hkeys).2
    have hnext : (nextHeight head).getD head ≤ next := by
      cases hn : nextHeight head with
      | none => exact Nat.le_of_lt hlt
      | some n =>
        obtain ⟨_, rfl⟩ := nextHeight_eq_some.mp hn
        exact hlt
    exact ⟨Nat.le_max_right _ _, Nat.max_le.mpr ⟨hnext, h.first_le⟩⟩

theorem RebuildPages.page {page : BlockHeightRange} {firstPage : Bool}
    {written written' : List PageWrite} (hserves : Serves env.canonical T floor)
    (hunique : T.Unique env.consumer) {t : DispatchedTransition} {blocks : List CanonicalBlockFacts}
    (hpage : page.start ≤ page.stop) (hblocks : env.canonical.blockFacts page = .ok blocks)
    (hcontexts : ∀ height ∈ page.heights, (contextsOf blocks).contains height)
    (ht : t.reverted = none) (hcursor : t.cursor = T.fence) {last : Bool}
    (hlast : last = true → T.tips T.fence ≤ page.stop)
    (h : RebuildPages T env.consumer page.start firstPage store written) :
    RebuildPages T env.consumer (page.stop + 1) false
      (pageStore env store (t.forPage firstPage) page (contextsOf blocks) last) written' := by
  obtain ⟨hfirst, next, hnext, hbuilding, hstored⟩ := h
  have hnone : (t.forPage firstPage).revertedHeights = [] := by
    rw [DispatchedTransition.revertedHeights, DispatchedTransition.forPage, ht, ite_self]
  have hstep : ∀ height block store, page.start ≤ height → height ≤ page.stop →
      (contextsOf blocks)[height]? = some block →
      (∃ next', next ≤ next' ∧ height ≤ next' ∧ Building T env.consumer next' store) →
      ∃ next', next ≤ next' ∧ height + 1 ≤ next' ∧ Building T env.consumer next'
        (store.writeBatch (MaterializedViewStore.applyBlock env.consumer block)) := by
    rintro height block store hstart hle hblock ⟨next', hmore, hheight, hbuilt⟩
    have hmem : height ∈ page.heights := BlockHeightRange.mem_heights.mpr ⟨hstart, hle⟩
    have hvisible := hserves.blocks page blocks height block hblocks hmem hblock
    exact ⟨max next' (height + 1), Nat.le_trans hmore (Nat.le_max_left _ _), Nat.le_max_right _ _,
      hbuilt.apply hunique (Nat.le_trans hfirst hstart) hheight hvisible⟩
  have hstart : ∀ reverted, Reverted (t.forPage firstPage).revertedHeights store reverted →
      ∃ next', next ≤ next' ∧ page.start ≤ next' ∧ Building T env.consumer next' reverted := by
    intro reverted hreverted
    rw [hnone] at hreverted
    obtain ⟨hrows, hindex⟩ := Reverted.eq_of_nil hreverted
    exact ⟨next, Nat.le_refl _, hnext, hbuilding.congr hrows hindex⟩
  obtain ⟨pages, ⟨next', hmore, hnext', hpages⟩, hstore⟩ := pageStore_rule (t.forPage firstPage) last
    hpage hcontexts hstep store hstart
  rw [hstore]
  have hmost := hpages.le_tip
  refine ⟨Nat.le_trans hfirst (Nat.le_succ_of_le hpage), next', hnext', hpages.congr rfl rfl, ?_⟩
  cases last with
  | true =>
    have htip := hlast rfl
    exact .inr ⟨congrArg some hcursor, by omega⟩
  | false =>
    rcases hstored with hstored | ⟨hstored, rfl⟩
    · exact .inl hstored
    · exact .inr ⟨hstored, by omega⟩

theorem rebuild_in_step (m₀ : MaterializedViewReplayBudgetState)
    (hserves : Serves env.canonical T floor) (hunique : T.Unique env.consumer) :
    Triple (PassHolds env m₀ fun store _ => ∃ next, Rebuilding T env.consumer next store)
      (rebuildUnmaterializedHeights env)
      (fun _ s => PassHolds env m₀ (fun store _ => InStep T env.consumer store) s)
      (fun _ s => PassHolds env m₀ (fun store _ => InStep T env.consumer store) s) := by
  refine rebuild_rule (fun store _ h => h.elim fun next h => h.inStep hunique) ?_
  rintro epoch store written hepoch ⟨next, hrebuilding⟩ hle
  have htip := hserves.epoch epoch hepoch
  obtain ⟨hfirst, hstart⟩ := rebuildStart_le hserves hrebuilding.1
  have hsafe : ∀ s, Somewhere env m₀ (RebuildPages T env.consumer) s →
      PassHolds env m₀ (fun store _ => InStep T env.consumer store) s := by
    rintro s ⟨height, firstPage, hs⟩
    exact hs.mono fun _ _ ⟨_, next, _, h⟩ => h.inStep hunique
  refine Triple.consequence (dispatchCommittedRange_rule (I := RebuildPages T env.consumer) ?_ ?_)
    ?_ ?_ fun _ => hsafe
  · intro page firstPage blocks store written hpage _ hblocks hcontexts h
    refine h.page hserves hunique hpage hblocks hcontexts rfl hserves.fence fun hlast => ?_
    rw [decide_eq_true_iff, rebuildTransition, htip] at hlast
    exact hlast
  · intro store' written' hempty
    exact absurd hle (Nat.not_le.mpr hempty)
  · rintro s ⟨htracks, hstore, _⟩
    refine ⟨htracks, hfirst, next, hstart, ?_⟩
    rw [hstore]
    exact hrebuilding
  · exact fun _ s hs => hsafe s hs.somewhere

end Rebuild

/-! ## The pass -/

/-- A pass whose pauses stick leaves the views in step, wherever it ends. -/
theorem pass_in_step {T : Timeline} {env : ReplayEnv D K V} {floor : Nat}
    (hserves : Serves env.canonical T floor) (hunique : T.Unique env.consumer)
    (store : MaterializedViewStore K V) (memoryState : MaterializedViewReplayBudgetState)
    (crashAfter : Option Nat) (hsticks : env.samples.PausesStick env.config memoryState)
    (hretained : ∀ c, store.cursor = some c → floor ≤ c + 1) (h : InStep T env.consumer store) :
    InStep T env.consumer (passEnd env store memoryState crashAfter).store := by
  have hrebuild := rebuild_in_step memoryState hserves hunique
  rw [InStep] at h
  cases hcursor : store.cursor with
  | none =>
    rw [hcursor] at h
    obtain ⟨next, h⟩ := h
    exact fresh_pass_rule (fun store _ => InStep T env.consumer store) crashAfter
      (fun store _ h => h.elim fun next h => h.inStep hunique) hrebuild hcursor
      ⟨next, h, .inl hcursor⟩
  | some c =>
    rw [hcursor] at h
    refine pass_rule (fun store _ => InStep T env.consumer store) crashAfter hsticks
      hserves.retained (hretained c hcursor) (events_in_step hserves hunique) ?_ hcursor
      ⟨hcursor, h.1, h.2.1, h.2.2⟩
    refine Triple.pre hrebuild ?_
    intro s hs
    refine hs.mono fun store written hat => ?_
    obtain ⟨hcursor, _, _, hconsistent⟩ := hat
    rw [hserves.fence] at hcursor hconsistent
    exact ⟨_, hconsistent.building, .inr ⟨hcursor, rfl⟩⟩

end Zinder.Views
