import Zinder.Lib.While

/-!
# Zinder.Lib.Stateful

Programs over a state that can fail part way and then leave the state as far as they got, with
triples for them.

`Triple P m Q R` is total: from a state with `P`, the program either returns with `Q` or fails with
`R`. The rule for loops asks for a measure, so it also says that the turns suffice.
-/

namespace Zinder

/-- A program over `σ` that returns an `α` or fails with an `ε`. -/
abbrev Stateful (σ ε α : Type) := ExceptT ε (StateM σ) α

namespace Stateful

variable {σ ε α β : Type}

/-- The outcome of a program and the state it leaves. -/
def exec (m : Stateful σ ε α) (s : σ) : Except ε α × σ := m s

def ofExec (f : σ → Except ε α × σ) : Stateful σ ε α := f

@[simp] theorem exec_ofExec (f : σ → Except ε α × σ) (s : σ) :
    (ofExec f : Stateful σ ε α).exec s = f s := rfl

theorem exec_bind (m : Stateful σ ε α) (f : α → Stateful σ ε β) (s : σ) :
    (m >>= f).exec s = match m.exec s with
      | (.ok a, s') => (f a).exec s'
      | (.error e, s') => (.error e, s') := by
  change (match m s with
    | (r, s') => (ExceptT.bindCont f r) s') = _
  rw [exec]
  rcases m s with ⟨r, s'⟩
  cases r <;> rfl

@[simp] theorem exec_pure (a : α) (s : σ) : (pure a : Stateful σ ε α).exec s = (.ok a, s) := rfl

@[simp] theorem exec_throw (e : ε) (s : σ) :
    (throw e : Stateful σ ε α).exec s = (.error e, s) := rfl

@[simp] theorem exec_get (s : σ) : (get : Stateful σ ε σ).exec s = (.ok s, s) := rfl

@[simp] theorem exec_modify (f : σ → σ) (s : σ) :
    (modify f : Stateful σ ε PUnit).exec s = (.ok ⟨⟩, f s) := rfl

/-! ## Triples -/

def Ends (Q : α → σ → Prop) (R : ε → σ → Prop) : Except ε α × σ → Prop
  | (.ok a, s) => Q a s
  | (.error e, s) => R e s

/-- From a state with `P` the program returns with `Q` or fails with `R`. -/
def Triple (P : σ → Prop) (m : Stateful σ ε α) (Q : α → σ → Prop) (R : ε → σ → Prop) : Prop :=
  ∀ s, P s → Ends Q R (m.exec s)

variable {P P' : σ → Prop} {Q Q' : α → σ → Prop} {R R' : ε → σ → Prop} {S : β → σ → Prop}

/-- The program keeps `P`, also when it fails. -/
abbrev Preserves (P : σ → Prop) (m : Stateful σ ε α) : Prop := Triple P m (fun _ => P) fun _ => P

theorem Preserves.ret {a : α} : Preserves P (pure a : Stateful σ ε α) := fun _ h => h

theorem Preserves.read : Preserves P (get : Stateful σ ε σ) := fun _ h => h

namespace Triple

theorem ret {a : α} (h : ∀ s, P s → Q a s) : Triple P (pure a) Q R := h

theorem fail {e : ε} (h : ∀ s, P s → R e s) : Triple P (throw e) Q R := h

theorem read {Q : σ → σ → Prop} (h : ∀ s, P s → Q s s) : Triple P get Q R := h

theorem update {f : σ → σ} {Q : PUnit → σ → Prop} (h : ∀ s, P s → Q ⟨⟩ (f s)) :
    Triple P (modify f) Q R := h

variable {m : Stateful σ ε α}

theorem bind {f : α → Stateful σ ε β} (hm : Triple P m Q R) (hf : ∀ a, Triple (Q a) (f a) S R) :
    Triple P (m >>= f) S R := by
  intro s hs
  have hends := hm s hs
  rw [exec_bind]
  rcases hrun : m.exec s with ⟨r, s'⟩
  rw [hrun] at hends
  cases r with
  | ok a => exact hf a s' hends
  | error e => exact hends

theorem consequence (h : Triple P m Q R) (hP : ∀ s, P' s → P s) (hQ : ∀ a s, Q a s → Q' a s)
    (hR : ∀ e s, R e s → R' e s) : Triple P' m Q' R' := by
  intro s hs
  have hends := h s (hP s hs)
  rcases hrun : m.exec s with ⟨r, s'⟩
  rw [hrun] at hends
  cases r with
  | ok a => exact hQ a s' hends
  | error e => exact hR e s' hends

theorem pre (h : Triple P m Q R) (hP : ∀ s, P' s → P s) : Triple P' m Q R :=
  consequence h hP (fun _ _ h => h) fun _ _ h => h

theorem post (h : Triple P m Q R) (hQ : ∀ a s, Q a s → Q' a s) : Triple P m Q' R :=
  consequence h (fun _ h => h) hQ fun _ _ h => h

theorem handle (h : Triple P m Q R) (hR : ∀ e s, R e s → R' e s) : Triple P m Q R' :=
  consequence h (fun _ h => h) (fun _ _ h => h) hR

theorem noFail (h : Triple P m Q fun _ _ => False) : Triple P m Q R :=
  handle h fun _ _ h => h.elim

theorem start (h : Triple P m Q R) {s : σ} (hs : P s) : Triple (fun t => t = s) m Q R :=
  pre h fun _ ht => ht ▸ hs

/-- A state-dependent program: the triple may be proved for each state apart. -/
theorem of_states (h : ∀ s, P s → Triple (fun t => t = s) m Q R) : Triple P m Q R :=
  fun s hs => h s hs s rfl

theorem get_bind {f : σ → Stateful σ ε β}
    (h : ∀ s, P s → Triple (fun t => t = s) (f s) S R) : Triple P (get >>= f) S R := by
  intro s hs
  rw [exec_bind, exec_get]
  exact h s hs s rfl

end Triple

/-! ## Loops -/

/-- At most `fuel` turns of a loop over the state, with a loop variable: `.leave` when one of them
left the loop, `.again` when none did. -/
def repeatTurns (turn : β → Stateful σ ε (Turn β)) : (fuel : Nat) → β → Stateful σ ε (Turn β)
  | 0, b => pure (.again b)
  | fuel + 1, b => do
    match ← turn b with
    | .leave b' => pure (.leave b')
    | .again b' => repeatTurns turn fuel b'

variable {turn : β → Stateful σ ε (Turn β)}

theorem repeatTurns_error {b : β} {s : σ} {e : ε} (h : ((turn b).exec s).1 = .error e)
    (fuel : Nat) :
    ((repeatTurns turn (fuel + 1) b).exec s).1 = .error e := by
  rw [repeatTurns, exec_bind]
  rcases hrun : (turn b).exec s with ⟨r, t⟩
  rw [hrun] at h
  cases h
  rfl

/-- What a turn leaves: the goal of the loop, or the invariant with a smaller measure. -/
def AfterTurn (Inv : β → σ → Prop) (measure : β → σ → Nat) (n : Nat) (Q : σ → Prop) :
    Turn β → σ → Prop
  | .leave _, s => Q s
  | .again b, s => Inv b s ∧ measure b s < n

/-- What a loop leaves that a turn left. -/
def AfterLoop (Q : σ → Prop) : Turn β → σ → Prop
  | .leave _, s => Q s
  | .again _, _ => False

theorem AfterLoop.goal {Q : σ → Prop} {r : Turn β} {s : σ} (h : AfterLoop Q r s) : Q s := by
  cases r with
  | leave b => exact h
  | again b => exact h.elim

/-- The loop rule: with more turns than the measure at the start, the loop is left by a turn that
leaves it. -/
theorem Triple.repeatTurns (Inv : β → σ → Prop) (measure : β → σ → Nat) {Q : σ → Prop}
    (hturn : ∀ b n,
      Triple (fun s => Inv b s ∧ measure b s = n) (turn b) (AfterTurn Inv measure n Q) R)
    (fuel : Nat) (b : β) :
    Triple (fun s => Inv b s ∧ measure b s < fuel) (Stateful.repeatTurns turn fuel b)
      (AfterLoop Q) R := by
  induction fuel generalizing b with
  | zero =>
    intro s hs
    exact absurd hs.2 (Nat.not_lt_zero _)
  | succ fuel ih =>
    refine of_states fun s hs => bind (consequence (hturn b (measure b s)) ?_
      (fun _ _ h => h) fun _ _ h => h) fun r => ?_
    · rintro t rfl
      exact ⟨hs.1, rfl⟩
    · cases r with
      | leave b' => exact ret fun t ht => ht
      | again b' =>
        refine consequence (ih b') (fun t ht => ⟨ht.1, ?_⟩) (fun _ _ h => h) fun _ _ h => h
        exact Nat.lt_of_lt_of_le ht.2 (Nat.le_of_lt_succ hs.2)

theorem Triple.repeatTurns_invariant {Inv : σ → Prop}
    (hturn : ∀ b, Triple Inv (turn b) (fun _ s => Inv s) R) (fuel : Nat) (b : β) :
    Triple Inv (Stateful.repeatTurns turn fuel b) (fun _ s => Inv s) R := by
  induction fuel generalizing b with
  | zero => exact ret fun s hs => hs
  | succ fuel ih =>
    refine bind (hturn b) fun r => ?_
    cases r with
    | leave b' => exact ret fun s hs => hs
    | again b' => exact ih b'

end Stateful
end Zinder
