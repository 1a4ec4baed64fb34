import Zinder.Views.Replay

/-!
# Zinder.Views.PassRules

Rules for a catch-up pass. They are about a `Progress`, a property of the views and of the pages
written so far, and ask what one page does to it.

* `dispatchPages_rule`, `dispatchCommittedRange_rule`, `replayRetainedEvent_rule` — a page loop ends
  past its range or at a check that said stop.
* `replayRetainedEvents_rule` — the loop over event pages ends at the fence or halted.
* `pass_rule`, `fresh_pass_rule` — a whole pass, from a cursor and without one.

A pass is *halted* once a check has said stop. When pauses stick, a halted pass writes no more, which
is what makes the rules compose.
-/

namespace Zinder.Views

open Canonical Stateful

variable {D K V : Type}

/-- What is said about the views and the pages written so far. -/
abbrev Progress (K V : Type) := MaterializedViewStore K V → List PageWrite → Prop

/-! ## Checks -/

section Checks

variable (env : ReplayEnv D K V) (m₀ : MaterializedViewReplayBudgetState)

/-- The state's memory state is the one of its check, unless a check found the process cancelled. -/
def Tracks (s : ReplayState K V) : Prop :=
  (∃ i < s.checks, (env.samples.sample i).cancelled = true) ∨
    s.memoryState = env.samples.memoryStateAt env.config m₀ s.checks

/-- A check of the pass has said stop. -/
def Stopped (s : ReplayState K V) : Prop :=
  ∃ i < s.checks, env.samples.stops env.config m₀ i = true

def Checked (s t : ReplayState K V) : Prop :=
  t.checks = s.checks + 1 ∧ Tracks env m₀ t ∧ t.store = s.store ∧ t.written = s.written

variable {env m₀} {s : ReplayState K V}

theorem Tracks.memoryState_eq (h : Tracks env m₀ s)
    (hrunning : (env.samples.sample s.checks).cancelled = false) :
    s.memoryState = env.samples.memoryStateAt env.config m₀ s.checks := by
  refine h.resolve_left ?_
  rintro ⟨i, hi, hcancelled⟩
  rw [env.samples.cancelled_of_le (Nat.le_of_lt hi) hcancelled] at hrunning
  cases hrunning

theorem Stopped.checked {s t : ReplayState K V} (h : Stopped env m₀ s)
    (hcheck : Checked env m₀ s t) : Stopped env m₀ t := by
  obtain ⟨i, hi, hstop⟩ := h
  refine ⟨i, ?_, hstop⟩
  rw [hcheck.1]
  exact Nat.lt_succ_of_lt hi

theorem stopped_of_check {s t : ReplayState K V} (hcheck : Checked env m₀ s t)
    (hstop : true = env.samples.stops env.config m₀ s.checks) : Stopped env m₀ t := by
  refine ⟨s.checks, ?_, hstop.symm⟩
  rw [hcheck.1]
  exact Nat.lt_succ_self _

theorem Stopped.stops (hsticks : env.samples.PausesStick env.config m₀) (h : Stopped env m₀ s) :
    env.samples.stops env.config m₀ s.checks = true := by
  obtain ⟨i, hi, hstop⟩ := h
  exact hsticks.of_le (Nat.le_of_lt hi) hstop

theorem yields_spec (h : Tracks env m₀ s) :
    Triple (fun t => t = s) (yields env)
      (fun b t => b = env.samples.stops env.config m₀ s.checks ∧ Checked env m₀ s t)
      (fun _ _ => False) := by
  rintro t rfl
  unfold yields
  rw [exec_ofExec]
  dsimp only
  cases hcancelled : (env.samples.sample t.checks).cancelled with
  | true =>
    rw [if_pos rfl]
    refine ⟨?_, rfl, .inl ⟨t.checks, Nat.lt_succ_self _, hcancelled⟩, rfl, rfl⟩
    rw [BudgetSamples.stops, hcancelled]
    rfl
  | false =>
    rw [if_neg Bool.false_ne_true]
    have hmemory := h.memoryState_eq hcancelled
    refine ⟨?_, rfl, .inr ?_, rfl, rfl⟩
    · rw [BudgetSamples.stops, hcancelled, Bool.false_or, BudgetSamples.memoryStateAt, hmemory]
    · rw [BudgetSamples.memoryStateAt, hmemory]

theorem evaluate_spec (h : Tracks env m₀ s) :
    Triple (fun t => t = s) (evaluate env)
      (fun r t => r.2 = env.samples.stops env.config m₀ s.checks ∧ Checked env m₀ s t)
      (fun _ _ => False) := by
  rintro t rfl
  unfold evaluate
  rw [exec_ofExec]
  dsimp only
  cases hcancelled : (env.samples.sample t.checks).cancelled with
  | true =>
    refine ⟨?_, rfl, .inl ⟨t.checks, Nat.lt_succ_self _, hcancelled⟩, rfl, rfl⟩
    rw [BudgetSamples.stops, hcancelled]
    rfl
  | false =>
    have hmemory := h.memoryState_eq hcancelled
    refine ⟨?_, rfl, .inr ?_, rfl, rfl⟩
    · rw [BudgetSamples.stops, hcancelled, BudgetSamples.memoryStateAt, hmemory]
    · rw [BudgetSamples.memoryStateAt, hmemory]

end Checks

/-! ## Pages -/

section Reads

theorem fromExcept_spec {α : Type} {P : ReplayState K V → Prop} (r : Except IngestError α) :
    Triple P (fromExcept r) (fun a s => r = .ok a ∧ P s) (fun _ s => P s) := by
  cases r with
  | ok a => exact Triple.ret fun _ hs => ⟨rfl, hs⟩
  | error e => exact Triple.fail fun _ hs => hs

theorem readCanonical_spec {α : Type} {P : ReplayState K V → Prop}
    (r : Except CanonicalEventError α) :
    Triple P (readCanonical r) (fun a s => r = .ok a ∧ P s) (fun _ s => P s) := by
  cases r with
  | ok a => exact Triple.ret fun _ hs => ⟨rfl, hs⟩
  | error e => exact Triple.fail fun _ hs => hs

theorem replayPage_eq_ok {start stop batchBlocks : Nat} {page : BlockHeightRange}
    (h : replayPage start stop batchBlocks = .ok page) :
    page.start = start ∧ start ≤ page.stop ∧ page.stop ≤ stop := by
  simp only [replayPage, bind_eq_ok, rejectIf_eq_ok] at h
  obtain ⟨_, hle, h⟩ := h
  cases h
  exact ⟨rfl, Nat.le_of_not_lt hle, Nat.min_le_right _ _⟩

end Reads

section Holds

variable (env : ReplayEnv D K V) (m₀ : MaterializedViewReplayBudgetState)

/-- The budget is the one of the checks made, and the progress is as said. -/
structure PassHolds (I : Progress K V) (s : ReplayState K V) : Prop where
  tracks : Tracks env m₀ s
  progress : I s.store s.written

/-- A check of the pass has said stop, so that it writes no more. -/
def Halted (I : Progress K V) (s : ReplayState K V) : Prop :=
  PassHolds env m₀ I s ∧ Stopped env m₀ s

/-- The page loop up to the next height: `firstPage` holds until a page is written. -/
abbrev PageProgress (K V : Type) := (nextHeight : Nat) → (firstPage : Bool) → Progress K V

def Somewhere (I : PageProgress K V) (s : ReplayState K V) : Prop :=
  ∃ next firstPage, PassHolds env m₀ (I next firstPage) s

def AfterPages (stop : Nat) (I : PageProgress K V) (s : ReplayState K V) : Prop :=
  (∃ next, stop < next ∧ PassHolds env m₀ (I next false) s) ∨
    Somewhere env m₀ I s ∧ Stopped env m₀ s

variable {env m₀} {I J : Progress K V}

theorem PassHolds.mono {s : ReplayState K V} (h : PassHolds env m₀ I s)
    (hIJ : ∀ store written, I store written → J store written) : PassHolds env m₀ J s :=
  ⟨h.tracks, hIJ _ _ h.progress⟩

theorem PassHolds.checked {s t : ReplayState K V} (h : PassHolds env m₀ I s)
    (hcheck : Checked env m₀ s t) : PassHolds env m₀ I t := by
  obtain ⟨_, htracks, hstore, hwritten⟩ := hcheck
  refine ⟨htracks, ?_⟩
  rw [hstore, hwritten]
  exact h.progress

theorem AfterPages.somewhere {stop : Nat} {I : PageProgress K V} {s : ReplayState K V}
    (h : AfterPages env m₀ stop I s) : Somewhere env m₀ I s := by
  rcases h with ⟨next, _, hs⟩ | ⟨hs, _⟩
  · exact ⟨next, false, hs⟩
  · exact hs

end Holds

section Pages

variable [DecidableEq K] {env : ReplayEnv D K V} {m₀ : MaterializedViewReplayBudgetState}

def pageStore (env : ReplayEnv D K V) (store : MaterializedViewStore K V) (t : DispatchedTransition)
    (page : BlockHeightRange) (contexts : Std.ExtTreeMap Nat CanonicalBlockFacts)
    (advanceCursor : Bool) : MaterializedViewStore K V :=
  { store.writeBatch (pageBatch env store t page contexts) with
    cursor := if advanceCursor then some t.cursor else store.cursor }

theorem MaterializedViewStore.cursor_writeBatch (store : MaterializedViewStore K V)
    (batch : List (RowOp K V)) : (store.writeBatch batch).cursor = store.cursor := by
  induction batch generalizing store with
  | nil => rfl
  | cons op batch ih =>
    refine (ih (store.write op)).trans ?_
    cases op <;> rfl

variable {t : DispatchedTransition} {origin : DispatchOrigin}

theorem dispatchPage_rule {I J : Progress K V} {page : BlockHeightRange}
    {contexts : Std.ExtTreeMap Nat CanonicalBlockFacts} {advanceCursor : Bool}
    (hpage : ∀ store written, (∀ height ∈ page.heights, contexts.contains height) →
      I store written →
      J (pageStore env store t page contexts advanceCursor)
        (written ++ [⟨origin, page, t.cursor, advanceCursor⟩])) :
    Triple (PassHolds env m₀ I) (dispatchPage env origin t page contexts advanceCursor)
      (fun _ => PassHolds env m₀ J) (fun _ => PassHolds env m₀ I) := by
  intro s hs
  unfold dispatchPage
  rw [exec_ofExec]
  by_cases hcrash : s.crashAfter = some 0
  · rw [if_pos hcrash]
    exact hs
  rw [if_neg hcrash]
  by_cases hcontexts : ∀ height ∈ page.heights, contexts.contains height
  · rw [if_pos hcontexts]
    refine ⟨hs.tracks, ?_⟩
    have hJ := hpage s.store s.written hcontexts hs.progress
    rw [pageStore, ← MaterializedViewStore.cursor_writeBatch s.store
      (pageBatch env s.store t page contexts)] at hJ
    exact hJ
  · rw [if_neg hcontexts]
    exact hs

/-- What is asked of a page loop: every page of the range takes the progress to its end. -/
def PageKeeps (env : ReplayEnv D K V) (origin : DispatchOrigin) (t : DispatchedTransition)
    (I : PageProgress K V) : Prop :=
  ∀ (page : BlockHeightRange) (firstPage : Bool) blocks store written, page.start ≤ page.stop →
    page.stop ≤ t.committedRange.stop → env.canonical.blockFacts page = .ok blocks →
    (∀ height ∈ page.heights, (contextsOf blocks).contains height) →
    I page.start firstPage store written →
    I (page.stop + 1) false
      (pageStore env store (t.forPage firstPage) page (contextsOf blocks)
        (t.committedRange.stop ≤ page.stop))
      (written ++ [⟨origin, page, t.cursor, t.committedRange.stop ≤ page.stop⟩])

theorem dispatchPages_rule {I : PageProgress K V} (hpage : PageKeeps env origin t I)
    (turns next : Nat) (firstPage : Bool) (hturns : t.committedRange.stop + 1 - next ≤ turns)
    (hfirst : firstPage = true → next ≤ t.committedRange.stop) :
    Triple (PassHolds env m₀ (I next firstPage)) (dispatchPages env origin t turns next firstPage)
      (fun _ => AfterPages env m₀ t.committedRange.stop I)
      (fun _ => Somewhere env m₀ I) := by
  have hpast : t.committedRange.stop < next → ∀ s, PassHolds env m₀ (I next firstPage) s →
      AfterPages env m₀ t.committedRange.stop I s := by
    intro hlt s hs
    cases firstPage with
    | true => exact absurd (hfirst rfl) (Nat.not_le.mpr hlt)
    | false => exact .inl ⟨next, hlt, hs⟩
  induction turns generalizing next firstPage with
  | zero => exact Triple.ret (hpast (by omega))
  | succ turns ih =>
    unfold dispatchPages
    by_cases hlt : t.committedRange.stop < next
    · rw [if_pos hlt]
      exact Triple.ret (hpast hlt)
    rw [if_neg hlt]
    refine Triple.of_states fun s hs => Triple.bind (Triple.noFail (evaluate_spec hs.tracks)) fun r => ?_
    rcases r with ⟨limits, stop⟩
    cases stop with
    | true =>
      refine Triple.ret fun u hu => .inr ⟨⟨next, firstPage, hs.checked hu.2⟩, ?_⟩
      exact stopped_of_check hu.2 hu.1
    | false =>
      refine Triple.bind (Triple.consequence (fromExcept_spec (P := fun u =>
        PassHolds env m₀ (I next firstPage) u) _) (fun u hu => hs.checked hu.2) (fun _ _ h => h)
        fun _ u hu => ⟨next, firstPage, hu⟩) fun page => ?_
      refine Triple.bind (Triple.handle (readCanonical_spec _)
        fun _ u hu => ⟨next, firstPage, hu.2⟩) fun blocks => ?_
      refine Triple.of_states ?_
      rintro u ⟨hblocks, hrange, hu⟩
      obtain ⟨hstart, hle, hstop⟩ := replayPage_eq_ok hrange
      refine Triple.bind (((dispatchPage_rule (I := I next firstPage)
        (J := I (page.stop + 1) false) ?_).start hu).handle fun _ v hv => ⟨next, firstPage, hv⟩)
        fun _ => ?_
      · intro store written hcontexts hI
        rw [← hstart] at hI hle
        exact hpage page firstPage blocks store written hle hstop hblocks hcontexts hI
      · refine Triple.bind (Triple.handle (fromExcept_spec _)
          fun _ v hv => ⟨page.stop + 1, false, hv⟩) fun next' => ?_
        refine Triple.of_states ?_
        rintro v ⟨hnext, hv⟩
        simp only [okOr_eq_ok, nextHeight_eq_some] at hnext
        obtain ⟨_, rfl⟩ := hnext
        exact (ih (page.stop + 1) false (by omega) (fun h => (by cases h))
          fun hlt w hw => .inl ⟨_, hlt, hw⟩).start hv

/-- A whole committed range. An empty range is one page without blocks. -/
theorem dispatchCommittedRange_rule {I : PageProgress K V} (hpage : PageKeeps env origin t I)
    (hempty : ∀ store written, t.committedRange.stop < t.committedRange.start →
      I t.committedRange.start true store written →
      I (t.committedRange.stop + 1) false (pageStore env store t t.committedRange ∅ true)
        (written ++ [⟨origin, t.committedRange, t.cursor, true⟩])) :
    Triple (PassHolds env m₀ (I t.committedRange.start true)) (dispatchCommittedRange env origin t)
      (fun _ => AfterPages env m₀ t.committedRange.stop I)
      (fun _ => Somewhere env m₀ I) := by
  unfold dispatchCommittedRange
  split
  · next hlt =>
    refine Triple.consequence (dispatchPage_rule (J := I (t.committedRange.stop + 1) false)
      fun store written _ hI => hempty store written hlt hI) (fun _ h => h) ?_ ?_
    · exact fun _ s hs => .inl ⟨_, Nat.lt_succ_self _, hs⟩
    · exact fun _ s hs => ⟨_, _, hs⟩
  · next hle =>
    exact dispatchPages_rule hpage _ _ true (Nat.le_refl _) fun _ => Nat.le_of_not_lt hle

theorem halted_dispatchPages (hsticks : env.samples.PausesStick env.config m₀) {I : Progress K V}
    (origin : DispatchOrigin) (t : DispatchedTransition) (turns next : Nat) (firstPage : Bool) :
    Triple (Halted env m₀ I) (dispatchPages env origin t turns next firstPage)
      (fun _ => Halted env m₀ I) (fun _ _ => False) := by
  cases turns with
  | zero => exact Triple.ret fun _ hs => hs
  | succ turns =>
    unfold dispatchPages
    split
    · exact Triple.ret fun _ hs => hs
    · refine Triple.of_states fun s hs => Triple.bind (evaluate_spec hs.1.tracks) fun r => ?_
      rcases r with ⟨limits, stop⟩
      refine Triple.of_states ?_
      rintro u ⟨hstop, hcheck⟩
      rw [hs.2.stops hsticks] at hstop
      cases hstop
      refine Triple.ret ?_
      rintro _ rfl
      exact ⟨hs.1.checked hcheck, hs.2.checked hcheck⟩

end Pages

/-! ## Events -/

def eventReverted (event : CanonicalRetainedEvent D) : Option BlockHeightRange :=
  match event.kind with
  | .committed => none
  | .reorg => event.revertedRange

def eventTransition (event : CanonicalRetainedEvent D) (epoch : ChainEpoch) :
    DispatchedTransition :=
  ⟨epoch, event.eventSequence, event.committedRange, eventReverted event⟩

theorem revertedRangeOf_eq_ok {event : CanonicalRetainedEvent D} {epoch : ChainEpoch}
    {reverted : Option ChainEpoch} {range : Option BlockHeightRange}
    (h : revertedRangeOf event epoch reverted = .ok range) : range = eventReverted event := by
  simp only [revertedRangeOf, bind_eq_ok] at h
  obtain ⟨_, _, h⟩ := h
  rw [eventReverted]
  cases hkind : event.kind with
  | committed =>
    rw [hkind] at h
    cases h
    rfl
  | reorg =>
    rw [hkind] at h
    simp only [bind_eq_ok, okOr_eq_ok] at h
    obtain ⟨range', hrange, _, _, _, _, h⟩ := h
    cases h
    exact hrange.symm

theorem replayRetainedEvent_rule [DecidableEq K] {env : ReplayEnv D K V}
    {m₀ : MaterializedViewReplayBudgetState} {event : CanonicalRetainedEvent D}
    {I : PageProgress K V}
    (hpage : ∀ epoch, PageKeeps env (.event event.eventSequence) (eventTransition event epoch) I)
    (hempty : ∀ epoch store written, event.committedRange.stop < event.committedRange.start →
      I event.committedRange.start true store written →
      I (event.committedRange.stop + 1) false
        (pageStore env store (eventTransition event epoch) event.committedRange ∅ true)
        (written ++ [⟨.event event.eventSequence, event.committedRange, event.eventSequence, true⟩])) :
    Triple (PassHolds env m₀ (I event.committedRange.start true)) (replayRetainedEvent env event)
      (fun _ => AfterPages env m₀ event.committedRange.stop I)
      (fun _ => Somewhere env m₀ I) := by
  unfold replayRetainedEvent
  refine Triple.bind ((readCanonical_spec _).handle fun _ s hs => ⟨_, _, hs⟩) fun epoch => ?_
  refine Triple.bind ((readCanonical_spec _).handle fun _ s hs => ⟨_, _, hs.2⟩) fun reverted => ?_
  refine Triple.bind ((readCanonical_spec _).handle fun _ s hs => ⟨_, _, hs.2.2⟩) fun range => ?_
  refine Triple.of_states ?_
  rintro s ⟨hrange, _, _, hs⟩
  cases revertedRangeOf_eq_ok hrange
  exact (dispatchCommittedRange_rule (hpage epoch) (hempty epoch)).start hs

/-- The events of a page follow the cursor one by one. -/
def Consecutive (canonical : CanonicalSecondary D) : Nat → List (CanonicalRetainedEvent D) → Prop
  | _, [] => True
  | n, event :: rest => canonical.retainedEvent (n + 1) = .ok event ∧ Consecutive canonical (n + 1) rest

variable {canonical : CanonicalSecondary D}

theorem CanonicalSecondary.eventsFrom_eq_ok {maxEvents n : Nat}
    {page : List (CanonicalRetainedEvent D)} (h : canonical.eventsFrom maxEvents (n + 1) = .ok page)
    (hn : n ≤ canonical.eventFenceSequence) :
    Consecutive canonical n page ∧ n + page.length ≤ canonical.eventFenceSequence := by
  induction maxEvents generalizing n page with
  | zero =>
    cases h
    exact ⟨trivial, hn⟩
  | succ maxEvents ih =>
    unfold eventsFrom at h
    split at h
    · next hle =>
      simp only [bind_eq_ok] at h
      obtain ⟨event, hevent, rest, hrest, hpage⟩ := h
      cases hpage
      obtain ⟨hconsecutive, hlength⟩ := ih hrest hle
      refine ⟨⟨hevent, hconsecutive⟩, ?_⟩
      rw [List.length_cons]
      omega
    · cases h
      exact ⟨trivial, hn⟩

theorem CanonicalSecondary.eventsFrom_eq_nil {maxEvents n : Nat}
    (h : canonical.eventsFrom (maxEvents + 1) n = .ok []) : canonical.eventFenceSequence < n := by
  by_contra hle
  rw [eventsFrom, if_pos (Nat.le_of_not_lt hle)] at h
  simp only [bind_eq_ok] at h
  obtain ⟨_, _, _, _, hpage⟩ := h
  cases hpage

theorem CanonicalSecondary.eventsFrom_ne_expired {maxEvents n cursor oldest : Nat} :
    canonical.eventsFrom maxEvents n ≠ .error (.canonicalEventCursorExpired cursor oldest) := by
  induction maxEvents generalizing n with
  | zero => exact fun h => (by cases h)
  | succ maxEvents ih =>
    unfold eventsFrom
    split
    · intro h
      cases hevent : canonical.retainedEvent n with
      | error e =>
        rw [hevent, error_bind] at h
        cases h
        exact canonical.retainedEvent_ne_expired _ _ _ hevent
      | ok event =>
        rw [hevent, ok_bind] at h
        cases hrest : canonical.eventsFrom maxEvents (n + 1) with
        | error e =>
          rw [hrest, error_bind] at h
          cases h
          exact ih hrest
        | ok rest =>
          rw [hrest, ok_bind] at h
          cases h
    · exact fun h => (by cases h)

theorem CanonicalSecondary.history_spec {floor cursor : Nat}
    (hfloor : canonical.retentionFloor = .ok floor) (hretained : floor ≤ cursor + 1)
    (maxEvents : Nat) :
    (∀ a b, canonical.canonicalEventHistory cursor maxEvents ≠
      .error (.canonicalEventCursorExpired a b)) ∧
    ∀ page, canonical.canonicalEventHistory cursor maxEvents = .ok page →
      cursor ≤ canonical.eventFenceSequence ∧
        canonical.eventsFrom maxEvents (cursor + 1) = .ok page := by
  unfold canonicalEventHistory
  rw [hfloor, ok_bind]
  by_cases hahead : canonical.eventFenceSequence < cursor
  · rw [rejectIf, if_pos hahead, error_bind]
    exact ⟨fun a b h => (by cases h), fun page h => (by cases h)⟩
  rw [rejectIf_of_not hahead, ok_bind]
  cases hnext : checkedAdd u64Bound cursor 1 with
  | none =>
    rw [okOr, error_bind]
    exact ⟨fun a b h => (by cases h), fun page h => (by cases h)⟩
  | some next =>
    obtain ⟨_, rfl⟩ := checkedAdd_eq_some.mp hnext
    rw [okOr_some, ok_bind, rejectIf_of_not (Nat.not_lt.mpr hretained), ok_bind]
    exact ⟨fun a b => eventsFrom_ne_expired, fun page h => ⟨Nat.le_of_not_lt hahead, h⟩⟩

/-! ## The loop over event pages -/

section Loop

variable {env : ReplayEnv D K V} {m₀ : MaterializedViewReplayBudgetState} {At : Nat → Progress K V}
  {Safe : Progress K V}

/-- The pass has replayed all events through `n`, or it is halted. -/
def Going (env : ReplayEnv D K V) (m₀ : MaterializedViewReplayBudgetState) (At : Nat → Progress K V)
    (Safe : Progress K V) (n : Nat) (s : ReplayState K V) : Prop :=
  PassHolds env m₀ (At n) s ∨ Halted env m₀ Safe s

/-- What is asked of the replay of one event, from the retention floor on. -/
structure EventsKeep [DecidableEq K] (env : ReplayEnv D K V)
    (m₀ : MaterializedViewReplayBudgetState) (floor : Nat) (At : Nat → Progress K V)
    (Safe : Progress K V) : Prop where
  safe : ∀ n store written, At n store written → Safe store written
  event : ∀ n event, floor ≤ n + 1 → n < env.canonical.eventFenceSequence →
    env.canonical.retainedEvent (n + 1) = .ok event →
    Triple (PassHolds env m₀ (At n)) (replayRetainedEvent env event)
      (fun _ s => Going env m₀ At Safe (n + 1) s) (fun _ s => PassHolds env m₀ Safe s)

variable {n : Nat}

theorem Going.tracks {s : ReplayState K V} (h : Going env m₀ At Safe n s) : Tracks env m₀ s := by
  rcases h with h | h
  · exact h.tracks
  · exact h.1.tracks

theorem Going.safe {s : ReplayState K V} (h : Going env m₀ At Safe n s)
    (hsafe : ∀ n store written, At n store written → Safe store written) :
    PassHolds env m₀ Safe s := by
  rcases h with h | h
  · exact h.mono (hsafe n)
  · exact h.1

/-- A check halts the pass or lets it go on, and a halted pass does not go on. -/
theorem yields_rule (hsticks : env.samples.PausesStick env.config m₀)
    (hsafe : ∀ n store written, At n store written → Safe store written) (n : Nat) :
    Triple (Going env m₀ At Safe n) (yields env)
      (fun b s => if b then Halted env m₀ Safe s else PassHolds env m₀ (At n) s)
      (fun _ _ => False) := by
  refine Triple.of_states fun s hs => Triple.post (yields_spec hs.tracks) ?_
  rintro b t ⟨hb, hcheck⟩
  cases b with
  | true => exact ⟨(hs.safe hsafe).checked hcheck, stopped_of_check hcheck hb⟩
  | false =>
    rcases hs with hs | hs
    · exact hs.checked hcheck
    · rw [hs.2.stops hsticks] at hb
      cases hb

def AfterEvents (env : ReplayEnv D K V) (m₀ : MaterializedViewReplayBudgetState)
    (At : Nat → Progress K V) (Safe : Progress K V) (n : Nat) : Turn Nat → ReplayState K V → Prop
  | .leave _, s => Halted env m₀ Safe s
  | .again b, s => b = n ∧ Going env m₀ At Safe n s

variable [DecidableEq K]

theorem replayEvents_rule (hsticks : env.samples.PausesStick env.config m₀) {floor : Nat}
    (hkeep : EventsKeep env m₀ floor At Safe) (page : List (CanonicalRetainedEvent D))
    (hretained : floor ≤ n + 1) (hpage : Consecutive env.canonical n page)
    (hfence : n + page.length ≤ env.canonical.eventFenceSequence) :
    Triple (Going env m₀ At Safe n) (replayEvents env page n)
      (AfterEvents env m₀ At Safe (n + page.length)) (fun _ => PassHolds env m₀ Safe) := by
  induction page generalizing n with
  | nil => exact Triple.ret fun s hs => ⟨rfl, hs⟩
  | cons event rest ih =>
    obtain ⟨hevent, hrest⟩ := hpage
    rw [List.length_cons] at hfence ⊢
    unfold replayEvents
    refine Triple.bind (Triple.noFail (yields_rule hsticks hkeep.safe n)) fun stop => ?_
    cases stop with
    | true => exact Triple.ret fun s hs => hs
    | false =>
      refine Triple.bind (hkeep.event n event hretained (by omega) hevent) fun _ => ?_
      rw [env.canonical.eventSequence_retainedEvent _ _ hevent, ← Nat.add_assoc,
        Nat.add_right_comm]
      exact ih (Nat.le_succ_of_le hretained) hrest (by omega)

section

variable (hsticks : env.samples.PausesStick env.config m₀) {start floor : Nat}
  (hkeep : EventsKeep env m₀ floor At Safe) (hfloor : env.canonical.retentionFloor = .ok floor)
  (hretained : floor ≤ start + 1)
include hsticks hkeep hfloor hretained

theorem replayTurn_rule (cursor n : Nat) :
    Triple (fun s => (start ≤ cursor ∧ Going env m₀ At Safe cursor s) ∧
        env.canonical.eventFenceSequence - cursor = n) (replayTurn env cursor)
      (AfterTurn (fun b s => start ≤ b ∧ Going env m₀ At Safe b s)
        (fun b _ => env.canonical.eventFenceSequence - b) n
        (Going env m₀ At Safe env.canonical.eventFenceSequence))
      (fun _ => PassHolds env m₀ Safe) := by
  refine Triple.of_states fun s₀ hs₀ => ?_
  obtain ⟨⟨hstart, hs⟩, rfl⟩ := hs₀
  unfold replayTurn
  refine Triple.bind ((yields_rule hsticks hkeep.safe cursor).noFail.start hs) fun stop => ?_
  cases stop with
  | true => exact Triple.ret fun s hs => .inr hs
  | false =>
    have hcursor : floor ≤ cursor + 1 := Nat.le_trans hretained (Nat.succ_le_succ hstart)
    obtain ⟨hunexpired, hok⟩ := CanonicalSecondary.history_spec hfloor hcursor
      materializedViewReplayEventPage
    rw [if_neg Bool.false_ne_true]
    cases hhistory : env.canonical.canonicalEventHistory cursor materializedViewReplayEventPage with
    | error e =>
      cases e with
      | canonicalEventCursorExpired a b => exact absurd hhistory (hunexpired a b)
      | _ => exact Triple.fail fun s hs => hs.mono (hkeep.safe cursor)
    | ok page =>
      obtain ⟨hle, hevents⟩ := hok page hhistory
      obtain ⟨hconsecutive, hlength⟩ := CanonicalSecondary.eventsFrom_eq_ok hevents hle
      cases page with
      | nil =>
        have hfence : cursor = env.canonical.eventFenceSequence :=
          Nat.le_antisymm hle (Nat.le_of_lt_succ (CanonicalSecondary.eventsFrom_eq_nil hevents))
        refine Triple.ret fun s hs => .inl ?_
        rw [← hfence]
        exact hs
      | cons event rest =>
        refine Triple.consequence (replayEvents_rule hsticks hkeep (event :: rest) hcursor
          hconsecutive hlength) (fun s hs => .inl hs) ?_ fun _ _ h => h
        intro turn s hs
        cases turn with
        | leave b => exact .inr hs
        | again b =>
          obtain ⟨rfl, hs⟩ := hs
          rw [List.length_cons] at hlength hs ⊢
          refine ⟨⟨by omega, hs⟩, ?_⟩
          change env.canonical.eventFenceSequence - _ < env.canonical.eventFenceSequence - cursor
          omega

theorem replayRetainedEvents_rule :
    Triple (PassHolds env m₀ (At start)) (replayRetainedEvents env start)
      (fun _ => Going env m₀ At Safe env.canonical.eventFenceSequence)
      (fun _ => PassHolds env m₀ Safe) := by
  refine Triple.bind (Triple.pre (Triple.repeatTurns
    (fun b s => start ≤ b ∧ Going env m₀ At Safe b s)
    (fun b _ => env.canonical.eventFenceSequence - b)
    (replayTurn_rule hsticks hkeep hfloor hretained) _ start) ?_) fun _ =>
      Triple.ret fun _ => AfterLoop.goal
  exact fun s hs => ⟨⟨Nat.le_refl _, .inl hs⟩, Nat.lt_succ_self _⟩

end

/-! ## The height rebuild and the whole pass -/

def rebuildTransition (env : ReplayEnv D K V) (store : MaterializedViewStore K V)
    (epoch : ChainEpoch) : DispatchedTransition :=
  ⟨epoch, env.canonical.eventFenceSequence,
    ⟨rebuildStart env store, epoch.visibleTip.height⟩, none⟩

theorem rebuild_rule {P : Progress K V}
    (hsafe : ∀ store written, P store written → Safe store written)
    (hrebuild : ∀ epoch store written, env.canonical.chainEpoch = .ok epoch → P store written →
      rebuildStart env store ≤ epoch.visibleTip.height →
      Triple (PassHolds env m₀ fun store' written' => store' = store ∧ written' = written)
        (dispatchCommittedRange env .rebuild (rebuildTransition env store epoch))
        (fun _ => PassHolds env m₀ Safe) (fun _ => PassHolds env m₀ Safe)) :
    Triple (PassHolds env m₀ P) (rebuildUnmaterializedHeights env)
      (fun _ => PassHolds env m₀ Safe) (fun _ => PassHolds env m₀ Safe) := by
  unfold rebuildUnmaterializedHeights
  refine Triple.bind (Triple.handle (readCanonical_spec _) fun _ s hs => hs.mono hsafe) fun epoch => ?_
  refine Triple.get_bind ?_
  rintro s ⟨hepoch, hs⟩
  split
  · refine Triple.ret ?_
    rintro _ rfl
    exact hs.mono hsafe
  · next hle =>
    exact (hrebuild epoch s.store s.written hepoch hs.progress
      (Nat.le_of_not_lt hle)).start ⟨hs.tracks, rfl, rfl⟩

theorem halted_rebuild (hsticks : env.samples.PausesStick env.config m₀) :
    Triple (Halted env m₀ Safe) (rebuildUnmaterializedHeights env)
      (fun _ => PassHolds env m₀ Safe) (fun _ => PassHolds env m₀ Safe) := by
  unfold rebuildUnmaterializedHeights
  refine Triple.bind ((readCanonical_spec _).handle fun _ _ h => h.1) fun epoch => ?_
  refine Triple.get_bind fun s ⟨_, hs⟩ => ?_
  split
  · refine Triple.ret ?_
    rintro _ rfl
    exact hs.1
  · next hle =>
    unfold dispatchCommittedRange
    rw [if_neg hle]
    exact ((halted_dispatchPages hsticks _ _ _ _ _).noFail.start hs).post fun _ _ h => h.1

end Loop

section Pass

variable [DecidableEq K] {env : ReplayEnv D K V} {memoryState : MaterializedViewReplayBudgetState}
  {store : MaterializedViewStore K V} (Safe : Progress K V)

theorem passEnd_of_triple {P : ReplayState K V → Prop} {crashAfter : Option Nat}
    (h : Triple P (replayBlockConsumers env) (fun _ => PassHolds env memoryState Safe)
      (fun _ => PassHolds env memoryState Safe))
    (hstart : P ⟨store, memoryState, 0, crashAfter, []⟩) :
    Safe (passEnd env store memoryState crashAfter).store
      (passEnd env store memoryState crashAfter).written := by
  have hends := h _ hstart
  unfold passEnd
  rcases hrun : (replayBlockConsumers env).exec ⟨store, memoryState, 0, crashAfter, []⟩ with ⟨r, u⟩
  rw [hrun] at hends
  cases r with
  | ok _ => exact hends.progress
  | error _ => exact hends.progress

theorem pass_rule {At : Nat → Progress K V} {start floor : Nat} (crashAfter : Option Nat)
    (hsticks : env.samples.PausesStick env.config memoryState)
    (hfloor : env.canonical.retentionFloor = .ok floor) (hretained : floor ≤ start + 1)
    (hkeep : EventsKeep env memoryState floor At Safe)
    (hrebuild : Triple (PassHolds env memoryState (At env.canonical.eventFenceSequence))
      (rebuildUnmaterializedHeights env) (fun _ => PassHolds env memoryState Safe)
      (fun _ => PassHolds env memoryState Safe))
    (hcursor : store.cursor = some start) (hstart : At start store []) :
    Safe (passEnd env store memoryState crashAfter).store
      (passEnd env store memoryState crashAfter).written := by
  refine passEnd_of_triple Safe (P := fun s => s = ⟨store, memoryState, 0, crashAfter, []⟩) ?_ rfl
  refine Triple.get_bind ?_
  rintro _ rfl
  dsimp only
  rw [hcursor]
  refine Triple.bind ((replayRetainedEvents_rule hsticks hkeep hfloor hretained).start
    ⟨.inr rfl, hstart⟩) fun _ => Triple.of_states fun s hs => ?_
  · rcases hs with hs | hs
    · exact hrebuild.start hs
    · exact (halted_rebuild hsticks).start hs

theorem fresh_pass_rule {P : Progress K V} (crashAfter : Option Nat)
    (hsafe : ∀ store written, P store written → Safe store written)
    (hrebuild : Triple (PassHolds env memoryState P)
      (rebuildUnmaterializedHeights env) (fun _ => PassHolds env memoryState Safe)
      (fun _ => PassHolds env memoryState Safe))
    (hcursor : store.cursor = none) (hstart : P store []) :
    Safe (passEnd env store memoryState crashAfter).store
      (passEnd env store memoryState crashAfter).written := by
  refine passEnd_of_triple Safe (P := fun s => s = ⟨store, memoryState, 0, crashAfter, []⟩) ?_ rfl
  refine Triple.get_bind ?_
  rintro _ rfl
  dsimp only
  rw [hcursor]
  refine Triple.bind (Triple.consequence (fromExcept_spec (P := PassHolds env memoryState P) _)
    ?_ (fun _ _ h => h.2) fun _ s hs => hs.mono hsafe) fun _ => hrebuild
  rintro _ rfl
  exact ⟨.inr rfl, hstart⟩

end Pass

end Zinder.Views
