import Mathlib

/-!
# Zinder.Lib.PagedStream

A stream that follows a log page by page.

The stream reads a page after its cursor, sends the items one by one and moves the cursor to each item it
sends; on an empty page it waits and reads again. The reader may filter the page after it has been cut
from the log. Then a page can be empty while the log goes on, and the stream waits forever.

* `step`, `run`: the stream as a state machine.
* `Delivers`: what the stream has sent from some moment on.
* `GapsBelow`: no item that passes stands right after `pageSize` items that do not.
* `delivers_filter_iff`: the stream delivers what passes exactly when the gaps are below the page size.
-/

namespace Zinder.PagedStream

open List

variable {κ α ε : Type}

structure StreamState (κ α ε : Type) where
  cursor : Option κ
  queued : List α
  delivered : List α
  failed : Option ε

def StreamState.start (cursor : Option κ) : StreamState κ α ε := ⟨cursor, [], [], none⟩

section Machine

variable (cursorOf : α → κ) (readPage : Option κ → Except ε (List α))

/-- One turn of the loop: send the next item of the page, or read a page. -/
def step (s : StreamState κ α ε) : StreamState κ α ε :=
  match s.failed, s.queued with
  | some _, _ => s
  | none, item :: queued =>
    { s with cursor := some (cursorOf item), queued, delivered := s.delivered ++ [item] }
  | none, [] =>
    match readPage s.cursor with
    | .ok page => { s with queued := page }
    | .error e => { s with failed := some e }

def run (n : Nat) (s : StreamState κ α ε) : StreamState κ α ε := (step cursorOf readPage)^[n] s

/-- From some turn on the stream has sent exactly these items. -/
def Delivers (cursor : Option κ) (items : List α) : Prop :=
  ∃ turns, ∀ n, turns ≤ n → (run cursorOf readPage n (.start cursor)).delivered = items

end Machine

section Rules

variable {cursorOf : α → κ} {readPage : Option κ → Except ε (List α)} {s : StreamState κ α ε}

theorem run_add (m n : Nat) (s : StreamState κ α ε) :
    run cursorOf readPage (m + n) s = run cursorOf readPage m (run cursorOf readPage n s) :=
  Function.iterate_add_apply _ m n s

theorem run_queued (cursor : Option κ) (queued delivered : List α) :
    run cursorOf readPage queued.length ⟨cursor, queued, delivered, none⟩ =
      ⟨(queued.getLast?.map cursorOf).or cursor, [], delivered ++ queued, none⟩ := by
  induction queued generalizing cursor delivered with
  | nil => simp [run]
  | cons item queued ih =>
    have hfirst : run cursorOf readPage 1 ⟨cursor, item :: queued, delivered, none⟩ =
        ⟨some (cursorOf item), queued, delivered ++ [item], none⟩ := rfl
    rw [length_cons, run_add, hfirst, ih]
    cases queued with
    | nil => simp
    | cons next queued =>
      obtain ⟨last, hlast⟩ : ∃ last, (next :: queued).getLast? = some last :=
        ⟨_, getLast?_eq_getLast_of_ne_nil (cons_ne_nil _ _)⟩
      simp [hlast]

theorem run_of_fixed (h : step cursorOf readPage s = s) (n : Nat) : run cursorOf readPage n s = s :=
  Function.iterate_fixed h n

theorem delivers_of_fixed {cursor : Option κ} {turns : Nat} {s : StreamState κ α ε}
    (hrun : run cursorOf readPage turns (.start cursor) = s) (h : step cursorOf readPage s = s) :
    Delivers cursorOf readPage cursor s.delivered := by
  refine ⟨turns, fun n hn => ?_⟩
  obtain ⟨rest, rfl⟩ := Nat.exists_eq_add_of_le hn
  rw [Nat.add_comm, run_add, hrun, run_of_fixed h]

end Rules

/-! ## Filtered pages -/

/-- No item that passes stands right after `pageSize` items that do not. -/
def GapsBelow (pageSize : Nat) (pass : α → Bool) (log : List α) : Prop :=
  ∀ front gap item back, log = front ++ (gap ++ item :: back) → pass item = true →
    (∀ x ∈ gap, pass x = false) → gap.length < pageSize

theorem GapsBelow.tail {pageSize : Nat} {pass : α → Bool} {front log : List α}
    (h : GapsBelow pageSize pass (front ++ log)) : GapsBelow pageSize pass log := by
  intro front' gap item back hlog
  refine h (front ++ front') gap item back ?_
  rw [hlog, append_assoc]

theorem gapsBelow_of_forall {pageSize : Nat} {pass : α → Bool} {log : List α} (hsize : 0 < pageSize)
    (h : ∀ x ∈ log, pass x = true) : GapsBelow pageSize pass log := by
  rintro front gap item back rfl hitem hgap
  cases gap with
  | nil => exact hsize
  | cons x gap =>
    have hfail := hgap x mem_cons_self
    rw [h x (by simp)] at hfail
    cases hfail

/-- A reader cuts pages of a log and filters them. `At c log` says that `log` is what comes after
cursor `c`. -/
structure Follows (cursorOf : α → κ) (readPage : Option κ → Except ε (List α)) (pageSize : Nat)
    (pass : α → Bool) (At : Option κ → List α → Prop) : Prop where
  page : ∀ cursor log, At cursor log → readPage cursor = .ok ((log.take pageSize).filter pass)
  next : ∀ cursor front item back, At cursor (front ++ item :: back) → pass item = true →
    At (some (cursorOf item)) back

section Filtered

variable {cursorOf : α → κ} {readPage : Option κ → Except ε (List α)} {pageSize : Nat}
  {pass : α → Bool} {At : Option κ → List α → Prop}

variable {log : List α}

theorem exists_last_pass (h : log.filter pass ≠ []) :
    ∃ front item back, log = front ++ item :: back ∧ pass item = true ∧
      (∀ x ∈ back, pass x = false) := by
  induction log with
  | nil => exact absurd rfl h
  | cons x log ih =>
    by_cases hrest : log.filter pass = []
    · have hx : pass x = true := by
        by_contra hx
        rw [filter_cons_of_neg hx] at h
        exact h hrest
      exact ⟨[], x, log, rfl, hx, by simpa [filter_eq_nil_iff] using hrest⟩
    · obtain ⟨front, item, back, rfl, hitem, hback⟩ := ih hrest
      exact ⟨x :: front, item, back, rfl, hitem, hback⟩

theorem exists_first_pass (h : log.filter pass ≠ []) :
    ∃ gap item back, log = gap ++ item :: back ∧ pass item = true ∧
      (∀ x ∈ gap, pass x = false) := by
  induction log with
  | nil => exact absurd rfl h
  | cons x log ih =>
    by_cases hx : pass x = true
    · exact ⟨[], x, log, rfl, hx, by simp⟩
    · rw [filter_cons_of_neg hx] at h
      obtain ⟨gap, item, back, rfl, hitem, hgap⟩ := ih h
      exact ⟨x :: gap, item, back, rfl, hitem, by simpa [hx] using hgap⟩

/-- With gaps below the page size, a page is empty only at the end of what passes. -/
theorem page_ne_nil (hgaps : GapsBelow pageSize pass log) (h : log.filter pass ≠ []) :
    (log.take pageSize).filter pass ≠ [] := by
  obtain ⟨gap, item, back, rfl, hitem, hgap⟩ := exists_first_pass h
  have hlt := hgaps [] gap item back rfl hitem hgap
  have hmem : item ∈ (gap ++ item :: back).take pageSize := by
    rw [take_append]
    refine mem_append_right _ ?_
    obtain ⟨k, hk⟩ : ∃ k, pageSize - gap.length = k + 1 := ⟨pageSize - gap.length - 1, by omega⟩
    rw [hk, take_succ_cons]
    exact mem_cons_self
  exact ne_nil_of_mem (mem_filter.mpr ⟨hmem, hitem⟩)

section

variable (h : Follows cursorOf readPage pageSize pass At)
include h

/-- The stream delivers everything that passes when the gaps are below the page size. By induction on
the rest of the log: each page that is not empty moves the cursor over its last item. -/
theorem Follows.run_all (hgaps : GapsBelow pageSize pass log) (cursor : Option κ)
    (hat : At cursor log) (delivered : List α) :
    ∃ turns cursor', run cursorOf readPage turns ⟨cursor, [], delivered, none⟩ =
        ⟨cursor', [], delivered ++ log.filter pass, none⟩ ∧ readPage cursor' = .ok [] := by
  induction hlength : log.length using Nat.strongRecOn generalizing log cursor delivered with
  | ind length ih =>
    by_cases hnil : log.filter pass = []
    · refine ⟨0, cursor, by rw [hnil, append_nil]; rfl, ?_⟩
      have hpage : (log.take pageSize).filter pass = [] :=
        eq_nil_of_sublist_nil (hnil ▸ (take_sublist _ _).filter pass)
      rw [h.page cursor log hat, hpage]
    · obtain ⟨front, item, back, htake, hitem, hback⟩ := exists_last_pass (page_ne_nil hgaps hnil)
      have hlog : log = front ++ item :: (back ++ log.drop pageSize) := by
        conv_lhs => rw [← take_append_drop pageSize log, htake]
        simp
      have hback' : back.filter pass = [] := by simpa [filter_eq_nil_iff] using hback
      have hpage : readPage cursor = .ok (front.filter pass ++ [item]) := by
        rw [h.page cursor log hat, htake, filter_append, filter_cons_of_pos hitem, hback']
      have hread : run cursorOf readPage 1 ⟨cursor, [], delivered, none⟩ =
          ⟨cursor, front.filter pass ++ [item], delivered, none⟩ := by
        rw [run, Function.iterate_one, step]
        simp only [hpage]
      have hnext : At (some (cursorOf item)) (back ++ log.drop pageSize) :=
        h.next cursor front item _ (hlog ▸ hat) hitem
      have hshorter : (back ++ log.drop pageSize).length < length := by
        rw [← hlength]
        conv_rhs => rw [hlog]
        simp only [length_append, length_cons]
        omega
      have hrest : GapsBelow pageSize pass (back ++ log.drop pageSize) := by
        have hgaps' : GapsBelow pageSize pass ((front ++ [item]) ++ (back ++ log.drop pageSize)) := by
          rw [append_assoc, singleton_append, ← hlog]
          exact hgaps
        exact hgaps'.tail
      obtain ⟨turns, cursor', hrun, hend⟩ := ih _ hshorter hrest (some (cursorOf item)) hnext
        (delivered ++ (front.filter pass ++ [item])) rfl
      refine ⟨turns + ((front.filter pass ++ [item]).length + 1), cursor', ?_, hend⟩
      rw [run_add, run_add _ 1, hread, run_queued]
      simp only [getLast?_concat, Option.map_some, Option.some_or]
      rw [hrun]
      conv_rhs => rw [hlog]
      simp [filter_append, hitem]

/-- A gap of a page or more keeps the stream in front of it. -/
theorem Follows.run_before_gap {front gap back : List α} (hgap : ∀ x ∈ gap, pass x = false)
    (hlong : pageSize ≤ gap.length) {cursor : Option κ} (hat : At cursor (front ++ (gap ++ back)))
    (n : Nat) :
    ∃ f cursor' queued delivered, f <:+ front ∧ At cursor' (f ++ (gap ++ back)) ∧
      queued <+: f.filter pass ∧ delivered ++ f.filter pass = front.filter pass ∧
      run cursorOf readPage n (.start cursor) = ⟨cursor', queued, delivered, none⟩ := by
  induction n with
  | zero => exact ⟨front, cursor, [], [], suffix_rfl, hat, nil_prefix, rfl, rfl⟩
  | succ n ih =>
    obtain ⟨f, cursor', queued, delivered, hsuffix, hat', hqueued, hdelivered, hrun⟩ := ih
    rw [Nat.add_comm, run_add, hrun]
    cases queued with
    | nil =>
      have htake : ((f ++ (gap ++ back)).take pageSize).filter pass =
          (f.take pageSize).filter pass := by
        have hnone : (gap.take (pageSize - f.length)).filter pass = [] := by
          rw [filter_eq_nil_iff]
          intro x hx
          simp [hgap x (mem_of_mem_take hx)]
        rw [take_append, take_append_of_le_length (by omega), filter_append, hnone,
          append_nil]
      refine ⟨f, cursor', (f.take pageSize).filter pass, delivered, hsuffix, hat', ?_, hdelivered, ?_⟩
      · refine IsPrefix.filter pass ?_
        exact take_prefix _ _
      · rw [run, Function.iterate_one, step]
        simp only [h.page cursor' _ hat', htake]
    | cons item queued =>
      obtain ⟨later, hlater⟩ := hqueued
      have hne : f.filter pass ≠ [] := by
        rw [← hlater]
        exact cons_ne_nil _ _
      obtain ⟨skipped, first, rest, rfl, hfirst, hskipped⟩ := exists_first_pass hne
      have hfilter : (skipped ++ first :: rest).filter pass = first :: rest.filter pass := by
        rw [filter_append, filter_cons_of_pos hfirst,
          filter_eq_nil_iff.mpr (by simpa using hskipped), nil_append]
      rw [hfilter, cons_append, List.cons.injEq] at hlater
      obtain ⟨rfl, hlater⟩ := hlater
      refine ⟨rest, some (cursorOf item), queued, delivered ++ [item], ?_, ?_, ⟨later, hlater⟩, ?_, rfl⟩
      · exact ((suffix_cons _ _).trans (List.suffix_append _ _)).trans hsuffix
      · refine h.next cursor' skipped item _ ?_ hfirst
        simpa using hat'
      · rw [← hdelivered, hfilter, append_assoc]
        rfl

/-- The stream delivers exactly what passes iff every gap before an item that passes is shorter than a
page. -/
theorem Follows.delivers_filter_iff {cursor : Option κ} (hat : At cursor log) :
    Delivers cursorOf readPage cursor (log.filter pass) ↔ GapsBelow pageSize pass log := by
  constructor
  · rintro ⟨turns, hturns⟩ front gap item back rfl hitem hgap
    by_contra hlong
    obtain ⟨f, _, _, delivered, _, _, _, hdelivered, hrun⟩ :=
      h.run_before_gap hgap (Nat.not_lt.mp hlong) hat turns
    have hall := hturns turns (Nat.le_refl _)
    rw [hrun] at hall
    -- What was delivered stands before the gap, so the item after it is missing.
    have hlength := congrArg List.length hdelivered
    have hlength' := congrArg List.length hall
    simp only [filter_append, length_append, filter_cons_of_pos hitem,
      length_cons] at hlength hlength'
    omega
  · intro hgaps
    obtain ⟨turns, cursor', hrun, hend⟩ := h.run_all hgaps cursor hat []
    have hfixed : step cursorOf readPage ⟨cursor', [], log.filter pass, none⟩ =
        ⟨cursor', [], log.filter pass, none⟩ := by
      rw [step]
      simp only [hend]
    exact delivers_of_fixed hrun hfixed

end

end Filtered

end Zinder.PagedStream
