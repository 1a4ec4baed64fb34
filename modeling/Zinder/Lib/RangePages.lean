import Zinder.Lib.OrderedRows
import Zinder.Lib.While

/-!
# Zinder.Lib.RangePages

Pages of a key range, read by scans that visit a bounded number of rows at a time.

* `rangeRows`: the rows between two keys.
* `forLoop`: a loop over rows that may leave early.
* `Followed`: what a caller collects who follows the returned cursors until one is empty.
-/

namespace Zinder

open List

/-! ## Ranges -/

namespace OrderedRows

variable {lo hi : List UInt8} {rows : List ByteRow}

/-- The rows an iterator visits from `lo` until it passes `hi`. -/
def rangeRows (lo hi : List UInt8) (rows : List ByteRow) : List ByteRow :=
  (seek lo rows).takeWhile fun r => r.1 ≤ hi

theorem rangeRows_eq_filter (h : KeysSorted rows) :
    rangeRows lo hi rows = rows.filter fun r => !decide (r.1 < lo) && decide (r.1 ≤ hi) := by
  have hbelow : rows.Pairwise fun a b => decide (b.1 < lo) = true → decide (a.1 < lo) = true :=
    h.imp fun hab hb => by
      simp only [decide_eq_true_eq] at hb ⊢
      exact List.lt_trans hab hb
  have habove : (rows.filter fun r => !decide (r.1 < lo)).Pairwise
      fun a b => decide (b.1 ≤ hi) = true → decide (a.1 ≤ hi) = true :=
    (h.filter _).imp fun hab hb => by
      simp only [decide_eq_true_eq] at hb ⊢
      exact List.le_trans (List.le_of_lt hab) hb
  rw [rangeRows, seek, (takeWhile_dropWhile_eq_filter hbelow).2,
    (takeWhile_dropWhile_eq_filter habove).1, filter_filter]
  simp only [Bool.and_comm]

end OrderedRows

/-! ## Loops that leave early -/

def forLoop {ε σ α : Type} (f : σ → α → Except ε (Turn σ)) : σ → List α → Except ε (Turn σ)
  | s, [] => .ok (.again s)
  | s, a :: as => do
    match ← f s a with
    | .leave t => .ok (.leave t)
    | .again t => forLoop f t as

/-! ## Following cursors -/

/-- The items of all pages from a cursor on, until a page returns the empty cursor. `Returns` says
which page and next cursor a request with a cursor returns. -/
inductive Followed {α : Type} (Returns : List UInt8 → List α → List UInt8 → Prop) :
    List UInt8 → List α → Prop where
  | last {cursor : List UInt8} {page : List α} (h : Returns cursor page []) :
    Followed Returns cursor page
  | next {cursor next : List UInt8} {page rest : List α} (h : Returns cursor page next)
    (hnext : next ≠ []) (hrest : Followed Returns next rest) :
    Followed Returns cursor (page ++ rest)

theorem followed_iff_of_last {α : Type} {Returns : List UInt8 → List α → List UInt8 → Prop}
    {cursor : List UInt8} {page items : List α}
    (h : ∀ page' next, Returns cursor page' next ↔ page' = page ∧ next = []) :
    Followed Returns cursor items ↔ items = page := by
  constructor
  · rintro (hlast | ⟨hnext, hne, -⟩)
    · exact ((h _ _).mp hlast).1
    · exact absurd ((h _ _).mp hnext).2 hne
  · rintro rfl
    exact .last ((h _ _).mpr ⟨rfl, rfl⟩)

end Zinder
