import Zinder.Lib.Checked

/-!
# Zinder.Lib.While

Fallible `while` loops. A turn either leaves the loop with a state or goes on with one. The loop makes
a bounded number of turns and says how it ended: left by a turn, or with turns still to make.
`whileLoop_ends` says when the bound is out of reach.
-/

namespace Zinder

inductive Turn (σ : Type) where
  | leave (s : σ)
  | again (s : σ)
deriving DecidableEq

variable {ε σ : Type}

def Turn.state : Turn σ → σ
  | leave s => s
  | again s => s

/-- At most `fuel` turns: `.leave` when one of them left the loop, `.again` when none did. -/
def whileLoop (turn : σ → Except ε (Turn σ)) : (fuel : Nat) → σ → Except ε (Turn σ)
  | 0, s => .ok (.again s)
  | fuel + 1, s => do
    match ← turn s with
    | .leave s' => .ok (.leave s')
    | .again s' => whileLoop turn fuel s'

theorem state_eq_ok {x : Except ε (Turn σ)} {s : σ} :
    x.map Turn.state = .ok s ↔ ∃ r, x = .ok r ∧ r.state = s := by
  cases x <;> simp [Except.map]

theorem state_eq_error {x : Except ε (Turn σ)} {e : ε} :
    x.map Turn.state = .error e ↔ x = .error e := by
  cases x <;> simp [Except.map]

variable {fuel : Nat} {s : σ} {turn : σ → Except ε (Turn σ)}

theorem whileLoop_succ_eq_ok {s : σ} {r : Turn σ} (h : whileLoop turn (fuel + 1) s = .ok r) :
    (∃ t, r = .leave t ∧ turn s = .ok r) ∨
      ∃ s', turn s = .ok (.again s') ∧ whileLoop turn fuel s' = .ok r := by
  rw [whileLoop, bind_eq_ok] at h
  obtain ⟨r', hr, h⟩ := h
  cases r' with
  | leave t =>
    cases h
    exact .inl ⟨t, rfl, hr⟩
  | again s' => exact .inr ⟨s', hr, h⟩

section

variable (Inv : σ → Prop) (step : ∀ s r, Inv s → turn s = .ok r → Inv r.state)
include Inv step

/-- The invariant rule: what every turn preserves, the loop preserves. -/
theorem whileLoop_invariant
    {s : σ} {r : Turn σ} (h₀ : Inv s) (h : whileLoop turn fuel s = .ok r) : Inv r.state := by
  induction fuel generalizing s with
  | zero =>
    cases h
    exact h₀
  | succ fuel ih =>
    rcases whileLoop_succ_eq_ok h with ⟨t, -, hr⟩ | ⟨s', hr, hrest⟩
    · exact step s _ h₀ hr
    · exact ih (step s _ h₀ hr) hrest

theorem whileLoop_error {e : ε} (h₀ : Inv s) (h : whileLoop turn fuel s = .error e) :
    ∃ t, Inv t ∧ turn t = .error e := by
  induction fuel generalizing s with
  | zero => cases h
  | succ fuel ih =>
    rw [whileLoop] at h
    cases hr : turn s with
    | error e' =>
      rw [hr, error_bind] at h
      cases h
      exact ⟨s, h₀, hr⟩
    | ok r =>
      rw [hr, ok_bind] at h
      cases r with
      | leave s' => cases h
      | again s' => exact ih (step s _ h₀ hr) h

end

section Measure

variable (measure : σ → Nat)
  (hturn : ∀ s r, turn s = .ok r → r = .leave s ∨ measure r.state < measure s)
include hturn

theorem whileLoop_measure {s : σ} {r : Turn σ} (h : whileLoop turn fuel s = .ok r) :
    measure r.state < measure s ∨ r.state = s := by
  refine whileLoop_invariant (fun t => measure t < measure s ∨ t = s) ?_ (.inr rfl) h
  intro t r ht hr
  rcases hturn t r hr with rfl | hlt
  · exact ht
  · rcases ht with ht | heq
    · exact .inl (Nat.lt_trans hlt ht)
    · exact .inl (heq ▸ hlt)

/-- When every turn leaves or lowers a measure, a turn fails or leaves the loop before there are more
turns than the measure allows. -/
theorem whileLoop_ends (hfuel : measure s < fuel) :
    (∃ e, whileLoop turn fuel s = .error e) ∨
      ∃ t s', whileLoop turn fuel s = .ok (.leave t) ∧ turn s' = .ok (.leave t) := by
  induction fuel generalizing s with
  | zero => exact absurd hfuel (Nat.not_lt_zero _)
  | succ fuel ih =>
    rw [whileLoop]
    cases hr : turn s with
    | error e => exact .inl ⟨e, rfl⟩
    | ok r =>
      rw [ok_bind]
      cases r with
      | leave t => exact .inr ⟨t, s, rfl, hr⟩
      | again s' =>
        rcases hturn s _ hr with hleave | hlt
        · cases hleave
        · exact ih (Nat.lt_of_lt_of_le hlt (Nat.le_of_lt_succ hfuel))

end Measure

end Zinder
