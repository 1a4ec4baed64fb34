import Mathlib

/-!
# Zinder.Lib.OrderedRows

A column family as its iterators see it: byte rows in ascending key order.

`ordered` lists a multiset of rows by key, in the one listing there is (`KeysSorted.ext`). `seek`
and `seekForPrev` are what a forward and a backward iterator visit; `seek_append` and
`seekForPrev_append` read them off a listing that is split at the iterator's key.
-/

namespace Zinder.OrderedRows

open List

abbrev ByteRow := List UInt8 × List UInt8

/-! ## Listing rows by key -/

def RowLe (a b : ByteRow) : Prop := a.1 < b.1 ∨ a.1 = b.1 ∧ a.2 ≤ b.2

instance : DecidableRel RowLe := fun _ _ => inferInstanceAs (Decidable (_ ∨ _))

instance : IsTrans ByteRow RowLe := ⟨by
  rintro a b c (hab | ⟨hab, hab'⟩) (hbc | ⟨hbc, hbc'⟩)
  · exact .inl (List.lt_trans hab hbc)
  · exact .inl (hbc ▸ hab)
  · exact .inl (hab ▸ hbc)
  · exact .inr ⟨hab.trans hbc, List.le_trans hab' hbc'⟩⟩

instance : Std.Antisymm RowLe := ⟨by
  rintro ⟨a, x⟩ ⟨b, y⟩ (hab | ⟨hab, hab'⟩) (hba | ⟨hba, hba'⟩)
  · exact absurd hba (List.lt_asymm hab)
  · exact absurd (hba ▸ hab) (List.lt_irrefl _)
  · exact absurd (hab ▸ hba) (List.lt_irrefl _)
  · exact Prod.ext hab (List.le_antisymm hab' hba')⟩

instance : Std.Total RowLe := ⟨by
  rintro ⟨a, x⟩ ⟨b, y⟩
  by_cases hab : a < b
  · exact .inl (.inl hab)
  · by_cases hba : b < a
    · exact .inr (.inl hba)
    · have heq : a = b := List.le_antisymm (List.not_lt.mp hba) (List.not_lt.mp hab)
      rcases List.le_total x y with hxy | hyx
      · exact .inl (.inr ⟨heq, hxy⟩)
      · exact .inr (.inr ⟨heq.symm, hyx⟩)⟩

def ordered (rows : Multiset ByteRow) : List ByteRow :=
  Quot.liftOn rows (List.insertionSort RowLe) fun a b h => by
    have hperm : (a.insertionSort RowLe).Perm (b.insertionSort RowLe) :=
      (perm_insertionSort RowLe a).trans (h.trans (perm_insertionSort RowLe b).symm)
    exact hperm.eq_of_pairwise' (pairwise_insertionSort RowLe a)
      (pairwise_insertionSort RowLe b)

def KeysSorted (rows : List ByteRow) : Prop := rows.Pairwise fun a b => a.1 < b.1

theorem mem_ordered {rows : Multiset ByteRow} {r : ByteRow} : r ∈ ordered rows ↔ r ∈ rows := by
  induction rows using Quotient.inductionOn with
  | h l => exact (perm_insertionSort RowLe l).mem_iff

theorem keysSorted_ordered {rows : Multiset ByteRow} (h : (rows.map Prod.fst).Nodup) :
    KeysSorted (ordered rows) := by
  induction rows using Quotient.inductionOn with
  | h l =>
    have hnodup : ((l.insertionSort RowLe).map Prod.fst).Nodup :=
      ((perm_insertionSort RowLe l).map Prod.fst).nodup_iff.mpr (Multiset.coe_nodup.mp h)
    refine ((pairwise_insertionSort RowLe l).and (pairwise_map.mp hnodup)).imp ?_
    rintro a b ⟨hlt | ⟨heq, _⟩, hne⟩
    · exact hlt
    · exact absurd heq hne

theorem KeysSorted.nodup {l : List ByteRow} (h : KeysSorted l) : l.Nodup := by
  refine List.Pairwise.imp ?_ h
  rintro a b hlt rfl
  exact List.lt_irrefl _ hlt

theorem KeysSorted.ext {l l' : List ByteRow} (h : KeysSorted l) (h' : KeysSorted l')
    (hmem : ∀ r, r ∈ l ↔ r ∈ l') : l = l' := by
  exact ((perm_ext_iff_of_nodup h.nodup h'.nodup).mpr hmem).eq_of_pairwise'
    (h.imp .inl : l.Pairwise RowLe) (h'.imp .inl : l'.Pairwise RowLe)

theorem KeysSorted.lookup_eq_some {l : List ByteRow} (h : KeysSorted l) {key value : List UInt8} :
    l.lookup key = some value ↔ (key, value) ∈ l := by
  induction l with
  | nil => simp
  | cons r l ih =>
    obtain ⟨k, v⟩ := r
    obtain ⟨hhead, htail⟩ := pairwise_cons.mp h
    by_cases hk : key = k
    · subst hk
      have hout : (key, value) ∉ l := fun hmem => List.lt_irrefl _ (hhead (key, value) hmem)
      simp [hout, eq_comm]
    · have hne : (key == k) = false := by simpa using hk
      rw [lookup_cons, hne]
      simp [ih htail, hk]

/-! ## Iterators -/

/-- The rows a forward iterator visits from the first key not below `lo`. -/
def seek (lo : List UInt8) (rows : List ByteRow) : List ByteRow :=
  rows.dropWhile fun r => r.1 < lo

/-- The rows a backward iterator visits from the last key not above `hi`. -/
def seekForPrev (hi : List UInt8) (rows : List ByteRow) : List ByteRow :=
  (rows.takeWhile fun r => r.1 ≤ hi).reverse

/-- In a list where `p` never comes back, the rows with `p` stand in front. -/
theorem takeWhile_dropWhile_eq_filter {α : Type} {p : α → Bool} {l : List α}
    (h : l.Pairwise fun a b => p b = true → p a = true) :
    l.takeWhile p = l.filter p ∧ l.dropWhile p = l.filter fun a => !p a := by
  induction l with
  | nil => exact ⟨rfl, rfl⟩
  | cons a l ih =>
    obtain ⟨hhead, htail⟩ := pairwise_cons.mp h
    by_cases ha : p a = true
    · simp [ha, ih htail]
    · have hnone : ∀ b ∈ l, p b = false := fun b hb =>
        Bool.eq_false_iff.mpr fun hpb => ha (hhead b hb hpb)
      have hkeep : l.filter (fun a => !p a) = l := filter_eq_self.mpr (by simpa using hnone)
      simp [ha, hkeep, filter_eq_nil_iff.mpr (by simpa using hnone)]

theorem seek_append {lo : List UInt8} {low high : List ByteRow} (hlow : ∀ r ∈ low, r.1 < lo)
    (hhigh : ∀ r ∈ high, ¬ r.1 < lo) : seek lo (low ++ high) = high := by
  rw [seek, dropWhile_append_of_pos (by simpa using hlow)]
  cases high with
  | nil => rfl
  | cons r high =>
    exact dropWhile_cons_of_neg (by simpa using hhigh r mem_cons_self)

theorem head?_seek {rows : List ByteRow} (hsorted : KeysSorted rows) {r : ByteRow} (hr : r ∈ rows)
    {lo : List UInt8} (hlo : ¬ r.1 < lo) (hbelow : ∀ q ∈ rows, q.1 < r.1 → q.1 < lo) :
    (seek lo rows).head? = some r := by
  obtain ⟨low, high, rfl⟩ := append_of_mem hr
  obtain ⟨_, hhigh, hlow⟩ := pairwise_append.mp hsorted
  have hafter := (pairwise_cons.mp hhigh).1
  rw [seek_append]
  · rfl
  · intro q hq
    exact hbelow q (mem_append_left _ hq) (hlow q hq r mem_cons_self)
  · intro q hq hlt
    rcases mem_cons.mp hq with rfl | hq
    · exact hlo hlt
    · exact hlo (List.lt_trans (hafter q hq) hlt)

theorem seekForPrev_append {hi : List UInt8} {low high : List ByteRow} (hlow : ∀ r ∈ low, r.1 ≤ hi)
    (hhigh : ∀ r ∈ high, ¬ r.1 ≤ hi) : seekForPrev hi (low ++ high) = low.reverse := by
  have hstop : high.takeWhile (fun r => decide (r.1 ≤ hi)) = [] := by
    cases high with
    | nil => rfl
    | cons r high =>
      exact takeWhile_cons_of_neg (by simpa using hhigh r mem_cons_self)
  rw [seekForPrev, takeWhile_append_of_pos (by simpa using hlow), hstop, append_nil]

end Zinder.OrderedRows
