import Mathlib

/-!
# Zinder.Lib.Checked

Fallible straight-line code as `Except` programs, and the inversion rules that take a successful
run apart one step at a time.

* `rejectIf` — an early return with an error when a condition holds.
* `okOr` — turning an absent value into an error.
* `checkedAdd`, `checkedSub` — machine arithmetic that fails instead of wrapping.
* `collect` — a fallible loop that collects one result per element.
* `FailsOnly` — which errors a step can fail with.
-/

namespace Zinder

section Control

variable {ε α β : Type}

/-- Early return: fail with `e` when `bad` holds, continue otherwise. -/
def rejectIf (bad : Prop) [Decidable bad] (e : ε) : Except ε Unit :=
  if bad then .error e else .ok ()

/-- The value of an option, or the error `e` when it is absent. -/
def okOr (o : Option α) (e : ε) : Except ε α :=
  match o with
  | some a => .ok a
  | none => .error e

variable {x : Except ε α} {bad : Prop} {e : ε} {a : α}

@[simp] theorem rejectIf_eq_ok [Decidable bad] {u : Unit} : rejectIf bad e = .ok u ↔ ¬ bad := by
  unfold rejectIf
  split <;> simp_all

theorem rejectIf_of_not [Decidable bad] (h : ¬ bad) : rejectIf bad e = .ok () := by
  simp [h]

@[simp] theorem okOr_eq_ok {o : Option α} : okOr o e = .ok a ↔ o = some a := by
  cases o <;> simp [okOr]

@[simp] theorem okOr_some (a : α) (e : ε) : okOr (some a) e = .ok a := rfl

/-- A sequence of two fallible steps succeeds exactly when both steps do. -/
theorem bind_eq_ok {f : α → Except ε β} {b : β} :
    (x >>= f) = .ok b ↔ ∃ a, x = .ok a ∧ f a = .ok b := by
  cases x with
  | error e => simp [bind, Except.bind]
  | ok a => simp [bind, Except.bind]

@[simp] theorem mapError_ok_iff {ε' : Type} {g : ε → ε'} : x.mapError g = .ok a ↔ x = .ok a := by
  cases x with
  | error e => simp [Except.mapError]
  | ok b => simp [Except.mapError]

theorem toOption_eq_some : x.toOption = some a ↔ x = .ok a := by
  cases x <;> simp [Except.toOption]

theorem isOk_eq_true : x.isOk = true ↔ ∃ a, x = .ok a := by
  cases x <;> simp [Except.isOk, Except.toBool]

@[simp] theorem pure_eq_ok {a b : α} : (pure a : Except ε α) = .ok b ↔ a = b := by
  simp [pure, Except.pure]

@[simp] theorem ok_bind (a : α) (f : α → Except ε β) : ((.ok a : Except ε α) >>= f) = f a := rfl

@[simp] theorem error_bind (e : ε) (f : α → Except ε β) :
    ((.error e : Except ε α) >>= f) = .error e := rfl

/-- Every error the step can fail with satisfies `P`. -/
def FailsOnly (P : ε → Prop) (x : Except ε α) : Prop := ∀ e, x = .error e → P e

variable {P : ε → Prop}

theorem FailsOnly.ok (a : α) : FailsOnly P (.ok a : Except ε α) := fun e h => (by cases h)

theorem FailsOnly.bind {f : α → Except ε β} (hx : FailsOnly P x) (hf : ∀ a, FailsOnly P (f a)) :
    FailsOnly P (x >>= f) := by
  intro e h
  cases x with
  | error =>
    cases h
    exact hx e rfl
  | ok a => exact hf a e h

theorem FailsOnly.rejectIf [Decidable bad] (he : P e) : FailsOnly P (rejectIf bad e) := by
  intro e' h
  unfold Zinder.rejectIf at h
  split at h
  · cases h
    exact he
  · cases h

theorem FailsOnly.okOr {o : Option α} (he : P e) : FailsOnly P (okOr o e) := by
  intro e' h
  cases o with
  | some a => cases h
  | none =>
    cases h
    exact he

end Control

/-! ## Machine arithmetic -/

def u32Bound : Nat := 2 ^ 32

def u64Bound : Nat := 2 ^ 64

def checkedAdd (bound a b : Nat) : Option Nat :=
  if a + b < bound then some (a + b) else none

def checkedSub (a b : Nat) : Option Nat :=
  if b ≤ a then some (a - b) else none

@[simp] theorem checkedAdd_eq_some {bound a b c : Nat} :
    checkedAdd bound a b = some c ↔ a + b < bound ∧ a + b = c := by
  unfold checkedAdd
  split
  · next hlt => simp only [Option.some.injEq, hlt, true_and]
  · next hge => simp only [reduceCtorEq, hge, false_and]

@[simp] theorem checkedSub_eq_some {a b c : Nat} : checkedSub a b = some c ↔ b ≤ a ∧ a - b = c := by
  unfold checkedSub
  split
  · next hle => simp only [Option.some.injEq, hle, true_and]
  · next hlt => simp only [reduceCtorEq, hlt, false_and]

/-! ## Fallible loops -/

section Loops

variable {ε α β σ : Type}

/-- Runs `f` on every element in order, collecting the results; stops at the first error. -/
def collect (f : α → Except ε β) : List α → Except ε (List β)
  | [] => .ok []
  | a :: as => do
    let b ← f a
    let bs ← collect f as
    .ok (b :: bs)

variable {f : σ → α → Except ε σ} {s s' : σ} {as : List α}

/-- A fallible loop succeeds exactly when every iteration does, in order. -/
theorem collect_eq_ok {f : α → Except ε β} {bs : List β} :
    collect f as = .ok bs ↔ List.Forall₂ (fun a b => f a = .ok b) as bs := by
  induction as generalizing bs with
  | nil => cases bs <;> simp [collect]
  | cons a as ih =>
    simp only [collect, bind_eq_ok]
    constructor
    · rintro ⟨b, hb, bs', hbs, h⟩
      cases h
      exact .cons hb (ih.mp hbs)
    · intro h
      cases h with
      | cons hb hbs => exact ⟨_, hb, _, ih.mpr hbs, rfl⟩

theorem collect_unit_ok {f : α → Except ε Unit} (h : ∀ a ∈ as, f a = .ok ()) :
    ∃ us, collect f as = .ok us := by
  refine ⟨as.map fun _ => (), collect_eq_ok.mpr ?_⟩
  rw [List.forall₂_map_right_iff]
  exact List.forall₂_same.mpr h

theorem exists_of_mem_collect {f : α → Except ε β} {bs : List β} (h : collect f as = .ok bs) {b : β}
    (hb : b ∈ bs) : ∃ a ∈ as, f a = .ok b := by
  rw [collect_eq_ok] at h
  induction h with
  | nil => simp at hb
  | cons ha _ ih =>
    rcases List.mem_cons.mp hb with rfl | hb
    · exact ⟨_, List.mem_cons_self, ha⟩
    · obtain ⟨a, hmem, ha⟩ := ih hb
      exact ⟨a, List.mem_cons_of_mem _ hmem, ha⟩

/-- A fallible loop over an accumulator. -/
def loop (f : σ → α → Except ε σ) : σ → List α → Except ε σ
  | s, [] => .ok s
  | s, a :: as => do
    let s' ← f s a
    loop f s' as

@[simp] theorem loop_nil (f : σ → α → Except ε σ) (s : σ) : loop f s [] = .ok s := rfl

theorem loop_cons_eq_ok {a : α} :
    loop f s (a :: as) = .ok s' ↔ ∃ t, f s a = .ok t ∧ loop f t as = .ok s' := by
  simp only [loop, bind_eq_ok]

theorem loop_append_eq_ok {as bs : List α} :
    loop f s (as ++ bs) = .ok s' ↔ ∃ t, loop f s as = .ok t ∧ loop f t bs = .ok s' := by
  induction as generalizing s with
  | nil => simp
  | cons a as ih =>
    rw [List.cons_append, loop_cons_eq_ok]
    constructor
    · rintro ⟨t, ht, hrest⟩
      obtain ⟨u, hu, hbs⟩ := ih.mp hrest
      exact ⟨u, loop_cons_eq_ok.mpr ⟨t, ht, hu⟩, hbs⟩
    · rintro ⟨u, hu, hbs⟩
      obtain ⟨t, ht, hrest⟩ := loop_cons_eq_ok.mp hu
      exact ⟨t, ht, ih.mpr ⟨u, hrest, hbs⟩⟩

theorem loop_map {f : σ → β → Except ε σ} {g : α → β} {s : σ} :
    loop f s (as.map g) = loop (fun s a => f s (g a)) s as := by
  induction as generalizing s with
  | nil => rfl
  | cons a as ih => simp only [List.map_cons, loop, ih]

/-- The invariant rule for loops: what every iteration preserves, the whole loop preserves. -/
theorem loop_invariant (Inv : List α → σ → Prop)
    (step : ∀ done a s s', Inv done s → f s a = .ok s' → Inv (done ++ [a]) s') (h₀ : Inv [] s)
    (h : loop f s as = .ok s') : Inv as s' := by
  suffices hfrom : ∀ done, Inv done s → Inv (done ++ as) s' from hfrom [] h₀
  clear h₀
  intro done h₀
  induction as generalizing done s with
  | nil => cases h; simpa using h₀
  | cons a as ih =>
    obtain ⟨t, ht, hrest⟩ := loop_cons_eq_ok.mp h
    have := ih hrest _ (step done a s t h₀ ht)
    simpa using this

/-- A loop that ends well has passed the check of every item. -/
theorem loop_forall {P : α → Prop} (step : ∀ a s s', f s a = .ok s' → P a)
    (h : loop f s as = .ok s') : ∀ a ∈ as, P a := by
  refine loop_invariant (fun done _ => ∀ a ∈ done, P a) (fun done a t t' hdone ht => ?_) (by simp) h
  intro b hb
  rcases List.mem_append.mp hb with hb | hb
  · exact hdone b hb
  · rw [List.mem_singleton.mp hb]
    exact step a t t' ht

end Loops

end Zinder
