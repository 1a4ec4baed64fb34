import Mathlib

/-!
# Zinder.Lib.TreeMap

Listings of ordered maps. A tree map lists its entries in ascending key order, and that listing is
the only ascending list with its entries (`toList_eq`); the rest reads particular listings off it.
-/

namespace Zinder.TreeMap

open Std (ExtTreeMap TransCmp LawfulEqCmp)
open List

variable {α β : Type} {cmp : α → α → Ordering} [TransCmp cmp]

def Ascending (cmp : α → α → Ordering) (l : List (α × β)) : Prop :=
  l.Pairwise fun a b => cmp a.1 b.1 = .lt

theorem ascending_toList (m : ExtTreeMap α β cmp) : Ascending cmp m.toList :=
  ExtTreeMap.ordered_keys_toList

theorem Ascending.nodup {l : List (α × β)} (h : Ascending cmp l) : l.Nodup := by
  refine h.imp ?_
  rintro a b hab rfl
  have hself : cmp a.1 a.1 = .eq := Std.ReflCmp.compare_self
  rw [hself] at hab
  cases hab

theorem Ascending.ext {l l' : List (α × β)} (h : Ascending cmp l) (h' : Ascending cmp l')
    (hmem : ∀ e, e ∈ l ↔ e ∈ l') : l = l' := by
  have hperm : l.Perm l' := (perm_ext_iff_of_nodup h.nodup h'.nodup).mpr hmem
  refine hperm.eq_of_pairwise ?_ h h'
  intro a b _ _ hab hba
  have hgt : cmp b.1 a.1 = .gt := Std.OrientedCmp.gt_of_lt hab
  rw [hba] at hgt
  cases hgt

theorem toList_eq [LawfulEqCmp cmp] {m : ExtTreeMap α β cmp} {l : List (α × β)}
    (hsorted : Ascending cmp l) (hmem : ∀ k v, (k, v) ∈ l ↔ m[k]? = some v) : m.toList = l := by
  refine (ascending_toList m).ext hsorted ?_
  rintro ⟨k, v⟩
  rw [ExtTreeMap.mem_toList_iff_getElem?_eq_some, hmem]

@[simp] theorem toList_empty : (∅ : ExtTreeMap α β cmp).toList = [] :=
  ExtTreeMap.toList_eq_nil_iff.mpr rfl

/-- A map over a run of consecutive numbers is listed by counting. -/
theorem toList_range' {m : ExtTreeMap Nat β} {start : Nat} {vs : List β}
    (hm : ∀ k, m[k]? = if start ≤ k then vs[k - start]? else none) :
    m.toList = (List.range' start vs.length).zip vs := by
  refine toList_eq ?_ ?_
  · have hkeys : ((List.range' start vs.length).zip vs).map Prod.fst =
        List.range' start vs.length := by
      rw [map_fst_zip]
      simp
    have hpair : (((List.range' start vs.length).zip vs).map Prod.fst).Pairwise (· < ·) := by
      rw [hkeys]
      exact pairwise_lt_range'
    rw [pairwise_map] at hpair
    exact hpair.imp fun hlt => Nat.compare_eq_lt.mpr hlt
  · intro k v
    rw [hm, mem_iff_getElem?]
    constructor
    · rintro ⟨i, hi⟩
      obtain ⟨hk, hv⟩ := getElem?_zip_eq_some.mp hi
      have hlt : i < vs.length := (List.getElem?_eq_some_iff.mp hv).1
      rw [getElem?_range' hlt, Option.some.injEq] at hk
      have hk' : k = start + i := by omega
      rw [if_pos (by omega), hk', Nat.add_sub_cancel_left]
      exact hv
    · intro hk
      split at hk
      · next hle =>
        have hlt : k - start < vs.length := (List.getElem?_eq_some_iff.mp hk).1
        refine ⟨k - start, getElem?_zip_eq_some.mpr ⟨?_, hk⟩⟩
        rw [getElem?_range' hlt]
        simp only [Option.some.injEq]
        omega
      · cases hk

/-! ## Inserting and erasing -/

section Insert

variable [DecidableEq α] [LawfulEqCmp cmp]

theorem getElem?_insert_ite (m : ExtTreeMap α β cmp) (k k' : α) (v : β) :
    (m.insert k v)[k']? = if k' = k then some v else m[k']? := by
  rw [ExtTreeMap.getElem?_insert]
  by_cases hk : k' = k
  · subst hk
    simp [Std.ReflCmp.compare_self]
  · have hne : cmp k k' ≠ .eq := fun heq => hk (LawfulEqCmp.eq_of_compare heq).symm
    simp [hk, hne]

theorem getElem?_erase_ite (m : ExtTreeMap α β cmp) (k k' : α) :
    (m.erase k)[k']? = if k' = k then none else m[k']? := by
  rw [ExtTreeMap.getElem?_erase]
  by_cases hk : k' = k
  · subst hk
    simp [Std.ReflCmp.compare_self]
  · have hne : cmp k k' ≠ .eq := fun heq => hk (LawfulEqCmp.eq_of_compare heq).symm
    simp [hk, hne]

end Insert

/-! ### Lists of keys -/

section Fold

variable [LawfulEqCmp cmp] {γ : Type} (key : γ → α)

theorem getElem?_foldl_insert [DecidableEq α] (v : β) (l : List γ) (m : ExtTreeMap α β cmp)
    (k : α) :
    (l.foldl (fun m x => m.insert (key x) v) m)[k]? = if k ∈ l.map key then some v else m[k]? := by
  induction l generalizing m with
  | nil => simp
  | cons x l ih =>
    rw [foldl_cons, ih, getElem?_insert_ite, map_cons]
    by_cases hx : k = key x
    · subst hx
      simp
    · simp [hx]

theorem getElem?_foldl_erase [DecidableEq α] (l : List γ) (m : ExtTreeMap α β cmp) (k : α) :
    (l.foldl (fun m x => m.erase (key x)) m)[k]? = if k ∈ l.map key then none else m[k]? := by
  induction l generalizing m with
  | nil => simp
  | cons x l ih =>
    rw [foldl_cons, ih, getElem?_erase_ite, map_cons]
    by_cases hx : k = key x
    · subst hx
      simp
    · simp [hx]

theorem isSome_foldl_insert [DecidableEq α] (l : List γ) (v : γ → β) (m : ExtTreeMap α β cmp)
    (k : α) : (l.foldl (fun m x => m.insert (key x) (v x)) m)[k]?.isSome ↔
      k ∈ l.map key ∨ m[k]?.isSome := by
  induction l generalizing m with
  | nil => simp
  | cons x l ih =>
    rw [foldl_cons, ih, getElem?_insert_ite, map_cons, mem_cons]
    by_cases hx : k = key x
    · subst hx
      simp
    · simp [hx]

end Fold

end Zinder.TreeMap
