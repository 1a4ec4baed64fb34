import Mathlib

/-!
# Zinder.Lib.Numbering

A numbering of a countable type that gives a list of chosen values the first numbers. The chosen
values are numbered and found again by computation; the rest of the type is only known to be
numbered somehow. It serves to build concrete encodings with a round-trip law.
-/

namespace Zinder.ListedNumber

variable {α : Type} [DecidableEq α] [Countable α]

/-- Some injective numbering of a countable type. -/
noncomputable def anyNumber (α : Type) [Countable α] : α → Nat :=
  (exists_injective_nat α).choose

omit [DecidableEq α] in
theorem anyNumber_injective : Function.Injective (anyNumber α) :=
  (exists_injective_nat α).choose_spec

variable (chosen : List α)

/-- The index of a chosen value, or a number past all of them. -/
noncomputable def number (a : α) : Nat :=
  if a ∈ chosen then chosen.idxOf a else chosen.length + anyNumber α a

noncomputable def value? (n : Nat) : Option α :=
  chosen[n]?.or (Function.partialInv (anyNumber α) (n - chosen.length))

@[simp] theorem value?_number (a : α) : value? chosen (number chosen a) = some a := by
  unfold number value?
  split
  · next hmem =>
    rw [List.getElem?_eq_getElem (List.idxOf_lt_length_iff.mpr hmem), List.getElem_idxOf]
    rfl
  · rw [List.getElem?_eq_none (by omega), Option.none_or, Nat.add_sub_cancel_left,
      Function.partialInv_left anyNumber_injective]

end Zinder.ListedNumber
