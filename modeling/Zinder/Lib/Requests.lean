import Zinder.Lib.Checked

/-!
# Zinder.Lib.Requests

Fallible code that asks an outside party for values. The state is the number of requests made so
far, and an outside party is a function of that number, so it may answer every request
differently.

* `Requests` — the computations, with a `Monad` instance for `do` blocks.
* `Requests.request` — one request.
* `Requests.of` — a step that asks nothing.
* `Requests.loop` — a loop over an accumulator.
-/

namespace Zinder

/-- A computation that fails with `ε` or returns a value and the number of requests made so far. -/
def Requests (ε α : Type) : Type := Nat → Except ε (α × Nat)

namespace Requests

variable {ε α β σ : Type}

instance : Monad (Requests ε) where
  pure a := fun n => .ok (a, n)
  bind x f := fun n => x n >>= fun r => f r.1 r.2

def of (x : Except ε α) : Requests ε α := fun n => x >>= fun a => .ok (a, n)

def request (reply : Nat → Except ε α) : Requests ε α :=
  fun n => reply n >>= fun a => .ok (a, n + 1)

def loop (f : σ → α → Requests ε σ) : σ → List α → Requests ε σ
  | s, [] => pure s
  | s, a :: as => do
    let s' ← f s a
    loop f s' as

variable {a : α} {n m : Nat}

theorem bind_apply (x : Requests ε α) (f : α → Requests ε β) (n : Nat) :
    (x >>= f) n = x n >>= fun r => f r.1 r.2 := rfl

theorem of_apply (x : Except ε α) (n : Nat) : of x n = x >>= fun a => .ok (a, n) := rfl

theorem pure_eq_ok {a b : α} : (pure a : Requests ε α) n = .ok (b, m) ↔ a = b ∧ n = m := by
  simp [pure]

theorem bind_eq_ok {x : Requests ε α} {f : α → Requests ε β} {n : Nat} {r : β × Nat} :
    (x >>= f) n = .ok r ↔ ∃ a m, x n = .ok (a, m) ∧ f a m = .ok r := by
  show (x n >>= fun s => f s.1 s.2) = .ok r ↔ _
  simp only [Zinder.bind_eq_ok, Prod.exists]

theorem of_eq_ok {x : Except ε α} : of x n = .ok (a, m) ↔ x = .ok a ∧ m = n := by
  simp only [of, Zinder.bind_eq_ok, Except.ok.injEq, Prod.mk.injEq]
  constructor
  · rintro ⟨_, hx, rfl, rfl⟩
    exact ⟨hx, rfl⟩
  · rintro ⟨hx, rfl⟩
    exact ⟨a, hx, rfl, rfl⟩

theorem request_eq_ok {reply : Nat → Except ε α} :
    request reply n = .ok (a, m) ↔ reply n = .ok a ∧ m = n + 1 := by
  simp only [request, Zinder.bind_eq_ok, Except.ok.injEq, Prod.mk.injEq]
  constructor
  · rintro ⟨_, hx, rfl, rfl⟩
    exact ⟨hx, rfl⟩
  · rintro ⟨hx, rfl⟩
    exact ⟨a, hx, rfl, rfl⟩

theorem loop_cons_eq_ok {f : σ → α → Requests ε σ} {s : σ} {as : List α} {n : Nat} {r : σ × Nat} :
    loop f s (a :: as) n = .ok r ↔ ∃ t m, f s a n = .ok (t, m) ∧ loop f t as m = .ok r := by
  simp only [loop, bind_eq_ok]

/-- The invariant rule: what every iteration preserves, whatever the answers, the loop
preserves. -/
theorem loop_invariant {f : σ → α → Requests ε σ} (Inv : List α → σ → Prop)
    (step : ∀ done a s s' n m, Inv done s → f s a n = .ok (s', m) → Inv (done ++ [a]) s')
    {as : List α} {s s' : σ} (h₀ : Inv [] s) (h : loop f s as n = .ok (s', m)) :
    Inv as s' := by
  suffices hfrom : ∀ done, Inv done s → Inv (done ++ as) s' from hfrom [] h₀
  clear h₀
  intro done h₀
  induction as generalizing done s n with
  | nil =>
    obtain ⟨rfl, rfl⟩ := pure_eq_ok.mp h
    simpa using h₀
  | cons a as ih =>
    obtain ⟨t, k, ht, hrest⟩ := loop_cons_eq_ok.mp h
    have := ih hrest _ (step done a s t n k h₀ ht)
    simpa using this

end Requests

end Zinder
