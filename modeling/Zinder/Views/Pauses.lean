import Zinder.Canonical.Finality
import Zinder.Views.PassRules

/-!
# Zinder.Views.Pauses

What a pass may skip. The budget is asked before each event, before each page, and again by the
height rebuild, and a pause at any of them ends only the innermost call.

`NeverSkips` reads the written pages: the cursor passes an event only when the pages of that event and
of all earlier ones are written, and the height rebuild writes only when the cursor is at the fence. A
pause that ends within the pass breaks it (`pause_skips_event`). In a pass whose pauses stick it holds
at every page (`sticking_pauses_never_skip`).
-/

namespace Zinder.Views

open Canonical Stateful List

variable {D K V : Type}

def cursorAfter (start : Nat) (written : List PageWrite) : Nat :=
  written.foldl (fun cursor w => if w.advanceCursor then w.cursor else cursor) start

@[simp] theorem cursorAfter_concat (start : Nat) (written : List PageWrite) (w : PageWrite) :
    cursorAfter start (written ++ [w]) =
      if w.advanceCursor then w.cursor else cursorAfter start written := by
  rw [cursorAfter, foldl_append]
  rfl

/-- Every height of the event's committed range is on one of its pages. -/
def Dispatched (written : List PageWrite) (event : CanonicalRetainedEvent D) : Prop :=
  ∀ height ∈ event.committedRange.heights, ∃ w ∈ written,
    w.origin = .event event.eventSequence ∧ height ∈ w.page.heights

variable {event : CanonicalRetainedEvent D}

theorem Dispatched.append {written : List PageWrite}
    (h : Dispatched written event) (more : List PageWrite) :
    Dispatched (written ++ more) event := by
  intro height hheight
  obtain ⟨w, hw, horigin, hpage⟩ := h height hheight
  exact ⟨w, mem_append_left more hw, horigin, hpage⟩

def DispatchedThrough (canonical : CanonicalSecondary D) (start through : Nat)
    (written : List PageWrite) : Prop :=
  ∀ sequence event, start < sequence → sequence ≤ through →
    canonical.retainedEvent sequence = .ok event → Dispatched written event

variable {canonical : CanonicalSecondary D}

theorem DispatchedThrough.append {start through : Nat}
    {written : List PageWrite} (h : DispatchedThrough canonical start through written)
    (more : List PageWrite) : DispatchedThrough canonical start through (written ++ more) :=
  fun sequence event hlt hle hevent => (h sequence event hlt hle hevent).append more

/-- When the page may be written: the cursor moves past dispatched events only, and the height
rebuild leaves no event between the cursor and the fence. -/
structure PageAllowed (canonical : CanonicalSecondary D) (start : Nat) (before : List PageWrite)
    (w : PageWrite) : Prop where
  advances : w.advanceCursor = true →
    DispatchedThrough canonical start w.cursor (before ++ [w])
  rebuilds : w.origin = .rebuild → cursorAfter start before = canonical.eventFenceSequence

def NeverSkips (canonical : CanonicalSecondary D) (start : Nat) (written : List PageWrite) : Prop :=
  ∀ before w after, written = before ++ w :: after → PageAllowed canonical start before w

theorem neverSkips_nil (canonical : CanonicalSecondary D) (start : Nat) :
    NeverSkips canonical start [] := by
  intro before w after h
  cases before <;> cases h

theorem NeverSkips.concat {start : Nat}
    {written : List PageWrite} (h : NeverSkips canonical start written) {w : PageWrite}
    (hw : PageAllowed canonical start written w) :
    NeverSkips canonical start (written ++ [w]) := by
  intro before w' after heq
  rcases eq_nil_or_concat after with rfl | ⟨front, last, rfl⟩
  · obtain ⟨rfl, hlast⟩ := append_inj' heq rfl
    cases hlast
    exact hw
  · rw [concat_eq_append, ← cons_append, ← append_assoc] at heq
    obtain ⟨rfl, _⟩ := append_inj' heq rfl
    exact h before w' front rfl

/-! ## Events -/

section Events

variable {start : Nat}

/-- All events through `n` are dispatched and the cursor is there. -/
structure ReplayedTo (canonical : CanonicalSecondary D) (start n : Nat) (written : List PageWrite) :
    Prop where
  skips : NeverSkips canonical start written
  dispatched : DispatchedThrough canonical start n written
  cursor : cursorAfter start written = n

/-- Within the pages of the event after `n`: the heights below `next` are dispatched, and the cursor
moves with the last page. -/
structure ReplayingNext (canonical : CanonicalSecondary D) (start n : Nat)
    (event : CanonicalRetainedEvent D) (next : Nat) (written : List PageWrite) : Prop where
  skips : NeverSkips canonical start written
  dispatched : DispatchedThrough canonical start n written
  heights : ∀ height, event.committedRange.start ≤ height → height < next →
    ∃ w ∈ written, w.origin = .event event.eventSequence ∧ height ∈ w.page.heights
  cursor : event.committedRange.stop < next → cursorAfter start written = n + 1

theorem ReplayingNext.done {n next : Nat}
    {written : List PageWrite}
    (h : ReplayingNext canonical start n event next written)
    (hevent : canonical.retainedEvent (n + 1) = .ok event)
    (hpast : event.committedRange.stop < next) : ReplayedTo canonical start (n + 1) written := by
  refine ⟨h.skips, ?_, h.cursor hpast⟩
  intro sequence other hlt hle hother
  by_cases heq : sequence = n + 1
  · rw [heq, hevent] at hother
    cases hother
    intro height hheight
    rw [BlockHeightRange.mem_heights] at hheight
    exact h.heights height hheight.1 (by omega)
  · exact h.dispatched sequence other hlt (by omega) hother

theorem ReplayingNext.written {n : Nat}
    (hevent : canonical.retainedEvent (n + 1) = .ok event)
    {page : BlockHeightRange} {written : List PageWrite} {last : Bool}
    (hskips : NeverSkips canonical start written)
    (hdispatched : DispatchedThrough canonical start n written)
    (hbelow : ∀ height, event.committedRange.start ≤ height → height < page.start →
      ∃ w ∈ written, w.origin = .event event.eventSequence ∧ height ∈ w.page.heights)
    (hlast : last = true ↔ event.committedRange.stop ≤ page.stop) :
    ReplayingNext canonical start n event (page.stop + 1) (written ++
      [⟨.event event.eventSequence, page, event.eventSequence, last⟩]) := by
  have hsequence := canonical.eventSequence_retainedEvent _ _ hevent
  have hheights : ∀ height, event.committedRange.start ≤ height → height < page.stop + 1 →
      ∃ w ∈ written ++ [⟨.event event.eventSequence, page, event.eventSequence, last⟩],
        w.origin = .event event.eventSequence ∧ height ∈ w.page.heights := by
    intro height hge hlt
    by_cases hearlier : height < page.start
    · obtain ⟨w, hw, hrest⟩ := hbelow height hge hearlier
      exact ⟨w, mem_append_left _ hw, hrest⟩
    · refine ⟨_, mem_append_right _ (mem_singleton.mpr rfl), rfl, ?_⟩
      rw [BlockHeightRange.mem_heights]
      exact ⟨Nat.le_of_not_lt hearlier, Nat.le_of_lt_succ hlt⟩
  refine ⟨hskips.concat ⟨fun hadvance => ?_, fun horigin => ?_⟩, hdispatched.append _, hheights, ?_⟩
  · intro sequence other hlt hle hother
    change sequence ≤ event.eventSequence at hle
    by_cases heq : sequence = n + 1
    · rw [heq, hevent] at hother
      cases hother
      intro height hheight
      rw [BlockHeightRange.mem_heights] at hheight
      have hpast := hlast.mp hadvance
      exact hheights height hheight.1 (by omega)
    · exact (hdispatched sequence other hlt (by omega) hother).append _
  · cases horigin
  · intro hpast
    rw [cursorAfter_concat, if_pos (hlast.mpr (Nat.le_of_lt_succ hpast)), hsequence]

def ReplayingPages (canonical : CanonicalSecondary D) (start n : Nat)
    (event : CanonicalRetainedEvent D) (next : Nat) : Bool → List PageWrite → Prop
  | true, written => ReplayedTo canonical start n written ∧ next = event.committedRange.start
  | false, written => ReplayingNext canonical start n event next written

theorem ReplayingPages.skips {n next : Nat} {firstPage : Bool} {written : List PageWrite}
    (h : ReplayingPages canonical start n event next firstPage written) :
    NeverSkips canonical start written := by
  cases firstPage with
  | true => exact h.1.skips
  | false => exact ReplayingNext.skips h

theorem ReplayingPages.page {n : Nat} (hevent : canonical.retainedEvent (n + 1) = .ok event)
    {page : BlockHeightRange} {firstPage : Bool} {written : List PageWrite} {last : Bool}
    (h : ReplayingPages canonical start n event page.start firstPage written)
    (hlast : last = true ↔ event.committedRange.stop ≤ page.stop) :
    ReplayingPages canonical start n event (page.stop + 1) false (written ++
      [⟨.event event.eventSequence, page, event.eventSequence, last⟩]) := by
  cases firstPage with
  | true =>
    obtain ⟨h, hstart⟩ := h
    refine ReplayingNext.written hevent h.skips h.dispatched (fun height hge hbelow => ?_) hlast
    omega
  | false =>
    have hnext : ReplayingNext canonical start n event page.start written := h
    exact ReplayingNext.written hevent hnext.skips hnext.dispatched hnext.heights hlast

theorem ReplayedTo.rebuildPage {written : List PageWrite}
    (h : ReplayedTo canonical start canonical.eventFenceSequence written) (page : BlockHeightRange)
    (last : Bool) :
    ReplayedTo canonical start canonical.eventFenceSequence
      (written ++ [⟨.rebuild, page, canonical.eventFenceSequence, last⟩]) := by
  refine ⟨h.skips.concat ⟨fun _ => h.dispatched.append _, fun _ => h.cursor⟩,
    h.dispatched.append _, ?_⟩
  rw [cursorAfter_concat, h.cursor]
  exact ite_self _

/-- The stored cursor is the one of the written pages, of which `I` holds. -/
def Recorded (start : Nat) (I : List PageWrite → Prop) : Progress K V :=
  fun store written => store.cursor = some (cursorAfter start written) ∧ I written

theorem Recorded.mono {I J : List PageWrite → Prop} (hIJ : ∀ written, I written → J written)
    {store : MaterializedViewStore K V} {written : List PageWrite}
    (h : Recorded start I store written) : Recorded start J store written :=
  ⟨h.1, hIJ written h.2⟩

end Events

/-! ## The pass -/

section Pass

variable [DecidableEq K] {env : ReplayEnv D K V} {m₀ : MaterializedViewReplayBudgetState}
  {start : Nat}

theorem Recorded.page {I J : List PageWrite → Prop} {store : MaterializedViewStore K V}
    {written : List PageWrite} (h : Recorded start I store written) (origin : DispatchOrigin)
    {t : DispatchedTransition} {page : BlockHeightRange}
    {contexts : Std.ExtTreeMap Nat CanonicalBlockFacts} {last : Bool}
    (hIJ : I written → J (written ++ [⟨origin, page, t.cursor, last⟩])) :
    Recorded start J (pageStore env store t page contexts last)
      (written ++ [⟨origin, page, t.cursor, last⟩]) := by
  refine ⟨?_, hIJ h.2⟩
  rw [cursorAfter_concat, pageStore, h.1]
  cases last <;> rfl

theorem events_never_skip (floor : Nat) :
    EventsKeep env m₀ floor (fun n => Recorded start (ReplayedTo env.canonical start n))
      (Recorded start (NeverSkips env.canonical start)) where
  safe n store written := Recorded.mono fun _ h => h.skips
  event n event _ _ hevent := by
    have hskips : ∀ s, Somewhere env m₀ (fun next firstPage => Recorded start
        (ReplayingPages env.canonical start n event next firstPage)) s →
        PassHolds env m₀ (Recorded start (NeverSkips env.canonical start)) s := by
      rintro s ⟨next, firstPage, hs⟩
      exact hs.mono fun _ _ => Recorded.mono fun _ h => h.skips
    refine Triple.consequence (replayRetainedEvent_rule (I := fun next firstPage => Recorded start
      (ReplayingPages env.canonical start n event next firstPage)) ?_ ?_) ?_ ?_ fun _ => hskips
    · intro epoch page firstPage blocks store written _ _ _ _ h
      exact h.page (.event event.eventSequence) fun hpages => hpages.page hevent decide_eq_true_iff
    · intro epoch store written _ h
      refine h.page (.event event.eventSequence) fun hpages => hpages.page hevent ?_
      exact iff_of_true rfl (Nat.le_refl _)
    · exact fun s hs => hs.mono fun _ _ => Recorded.mono fun _ h => ⟨h, rfl⟩
    · rintro _ s (⟨next, hpast, hs⟩ | ⟨hs, hstopped⟩)
      · exact .inl (hs.mono fun _ _ => Recorded.mono fun _ h => ReplayingNext.done h hevent hpast)
      · exact .inr ⟨hskips s hs, hstopped⟩

theorem rebuild_never_skips :
    Triple (PassHolds env m₀ (Recorded start
        (ReplayedTo env.canonical start env.canonical.eventFenceSequence)))
      (rebuildUnmaterializedHeights env)
      (fun _ s => PassHolds env m₀ (Recorded start (NeverSkips env.canonical start)) s)
      (fun _ s => PassHolds env m₀ (Recorded start (NeverSkips env.canonical start)) s) := by
  refine rebuild_rule (fun _ _ => Recorded.mono fun _ h => h.skips) ?_
  intro epoch store written _ hreplayed _
  have hskips : ∀ s, Somewhere env m₀ (fun _ _ => Recorded start
      (ReplayedTo env.canonical start env.canonical.eventFenceSequence)) s →
      PassHolds env m₀ (Recorded start (NeverSkips env.canonical start)) s := by
    rintro s ⟨_, _, hs⟩
    exact hs.mono fun _ _ => Recorded.mono fun _ h => h.skips
  refine Triple.consequence (dispatchCommittedRange_rule (I := fun _ _ => Recorded start
    (ReplayedTo env.canonical start env.canonical.eventFenceSequence)) ?_ ?_) ?_ ?_ fun _ => hskips
  · intro page firstPage blocks store written _ _ _ _ h
    exact h.page .rebuild fun hat => hat.rebuildPage page _
  · intro store written _ h
    exact h.page .rebuild fun hat => hat.rebuildPage _ true
  · rintro s ⟨htracks, hstore, hwritten⟩
    refine ⟨htracks, ?_⟩
    rw [hstore, hwritten]
    exact hreplayed
  · exact fun _ s hs => hskips s hs.somewhere

end Pass

/-- In a pass whose pauses stick, the cursor passes an event only when that event and all earlier ones
are dispatched, and heights are rebuilt without their events only when the cursor is at the fence.
This holds of the pages written so far wherever the pass ends: done, paused, failed or killed. -/
theorem sticking_pauses_never_skip [DecidableEq K] (env : ReplayEnv D K V) {start floor : Nat}
    (store : MaterializedViewStore K V) (memoryState : MaterializedViewReplayBudgetState)
    (crashAfter : Option Nat) (hcursor : store.cursor = some start)
    (hfloor : env.canonical.retentionFloor = .ok floor) (hretained : floor ≤ start + 1)
    (hsticks : env.samples.PausesStick env.config memoryState) :
    NeverSkips env.canonical start (passEnd env store memoryState crashAfter).written ∧
      (passEnd env store memoryState crashAfter).store.cursor =
        some (cursorAfter start (passEnd env store memoryState crashAfter).written) := by
  have hdispatched : DispatchedThrough env.canonical start start [] := by
    intro sequence event hlt hle
    omega
  obtain ⟨hend, hskips⟩ := pass_rule (Recorded start (NeverSkips env.canonical start))
    crashAfter hsticks hfloor hretained (events_never_skip floor) rebuild_never_skips hcursor
      ⟨hcursor, neverSkips_nil _ _, hdispatched, rfl⟩
  exact ⟨hskips, hend⟩

/-! ## Pauses that end -/

section Samples

def tipEpoch (height : Nat) : ChainEpoch :=
  ⟨height, ⟨height, repeatedByte 0⟩, ⟨0, repeatedByte 0⟩, ⟨0, 0, 0⟩, 0⟩

def appendedSecondary (blocks : List CanonicalBlockFacts) : CanonicalSecondary Unit where
  firstAvailableHeight := 1
  eventFenceSequence := blocks.length
  chainEpoch := .ok (tipEpoch blocks.length)
  chainEpochAt id := .ok (tipEpoch id)
  retentionFloor := .ok 1
  retainedEvent sequence :=
    match sequence, blocks[sequence - 1]? with
    | previous + 1, some block => .ok
      { eventSequence := previous + 1
        resultingEpochId := previous + 1
        previousEpochId := if previous = 0 then none else some previous
        kind := .committed
        revertedRange := none
        committedRange := ⟨previous + 1, previous + 1⟩
        resultingFence := ⟨previous + 1, previous + 1, block.blockId, ⟨previous + 1, ()⟩⟩ }
    | _, _ => .error (.canonicalEventRecordMalformed sequence "retained event row is absent")
  blockFacts range := .ok (blocks.filter fun block => block.height ∈ range.heights)
  eventSequence_retainedEvent := by
    intro sequence event h
    split at h <;> cases h
    rfl
  retainedEvent_ne_expired := by
    intro sequence cursor oldest h
    split at h <;> cases h

variable (phases : List IngestPhase) (last : IngestPhase)

def phaseSamples : BudgetSamples where
  sample i := ⟨⟨none, none, none, none⟩, some (phases[i]?.getD last), false⟩
  cancelled_sticks := fun _ h => h

theorem stops_of_gate {samples : BudgetSamples} {config : MaterializedViewReplayConfig}
    {memoryState : MaterializedViewReplayBudgetState} {i : Nat}
    (h : phaseEngagesReplayGate (samples.sample i).phase = true) :
    samples.stops config memoryState i = true := by
  rw [BudgetSamples.stops, Bool.or_eq_true]
  refine .inr ?_
  simp only [effectiveLimits, h, composeReplayState]
  cases samples.memoryStateAt config memoryState (i + 1) <;> split <;> rfl

def sampleBlocks : List CanonicalBlockFacts :=
  [plainFacts 1 1 0 11, plainFacts 2 2 1 12, plainFacts 3 3 2 13]

def samplePass : ReplayEnv Unit TransparentOutPoint TransparentSpendEntry where
  config := .default
  reorgWindowBlocks := 2
  canonical := appendedSecondary sampleBlocks
  consumer := transparentOutpointSpendConsumer
  samples := phaseSamples phases last

def sampleViews : MaterializedViewStore TransparentOutPoint TransparentSpendEntry :=
  ⟨fun _ => none, (∅ : Std.ExtTreeMap Nat (List TransparentOutPoint)).insert 1 [], some 1⟩

def samplePassEnd : ReplayState TransparentOutPoint TransparentSpendEntry :=
  passEnd (samplePass phases last) sampleViews .normal none

/-- Replay is paused when the page of the second event is due, and runs again at the next check. The
third event moves the cursor past the second one, whose height is on no page. -/
theorem pause_skips_event :
    (samplePassEnd [.followingTip, .followingTip, .bulkCatchup] .followingTip).store.cursor =
      some 3 ∧
      (∀ w ∈ (samplePassEnd [.followingTip, .followingTip, .bulkCatchup] .followingTip).written,
        2 ∉ w.page.heights) ∧
      ¬ NeverSkips (appendedSecondary sampleBlocks) 1
        (samplePassEnd [.followingTip, .followingTip, .bulkCatchup] .followingTip).written := by
  have hwritten : (samplePassEnd [.followingTip, .followingTip, .bulkCatchup] .followingTip).written =
      [⟨.event 3, ⟨3, 3⟩, 3, true⟩] := by decide +kernel
  refine ⟨by decide +kernel, ?_, ?_⟩
  · rw [hwritten]
    decide
  · rw [hwritten]
    intro h
    have hevent := (h [] _ [] rfl).advances rfl 2 _ (by decide) (by decide) rfl 2 (by decide)
    revert hevent
    decide

/-- A pause that lasts: the second event is replayed, the third is not. -/
theorem sticking_pauses_never_skip_sample :
    (samplePassEnd [.followingTip, .followingTip, .followingTip] .bulkCatchup).written =
        [⟨.event 2, ⟨2, 2⟩, 2, true⟩] ∧
      NeverSkips (appendedSecondary sampleBlocks) 1
        (samplePassEnd [.followingTip, .followingTip, .followingTip] .bulkCatchup).written ∧
      (samplePassEnd [.followingTip, .followingTip, .followingTip] .bulkCatchup).store.cursor =
        some (cursorAfter 1
          (samplePassEnd [.followingTip, .followingTip, .followingTip] .bulkCatchup).written) := by
  have hsticks : (phaseSamples [.followingTip, .followingTip, .followingTip]
      .bulkCatchup).PausesStick .default .normal := by
    intro i
    match i with
    | 0 => exact fun h => absurd h (by decide)
    | 1 => exact fun h => absurd h (by decide)
    | i + 2 => exact fun _ => stops_of_gate rfl
  refine ⟨by decide +kernel, ?_⟩
  exact sticking_pauses_never_skip
    (samplePass [.followingTip, .followingTip, .followingTip] .bulkCatchup) sampleViews .normal none
    rfl rfl (Nat.le_succ 1) hsticks

end Samples

end Zinder.Views
