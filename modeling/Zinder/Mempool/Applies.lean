import Zinder.Mempool.Index

/-!
# Zinder.Mempool.Applies

Sequences of transitions each of which can be applied after the ones before it. A log that only ever
got such transitions can be replayed from any cut: the entries a suffix leaves are among those of the
whole log, so whatever could be added to those can be added to these (`Applicable.restrict`).
-/

namespace Zinder.Mempool

open KeyedLog List

variable {m m' : TransactionId → Option MempoolEntry}

/-- Each transition can be applied where it stands. -/
def Applies : (TransactionId → Option MempoolEntry) → List ObservedEvent → Prop
  | _, [] => True
  | m, event :: rest => Applicable m event.1 ∧ Applies (event.1.change.apply m) rest

@[simp] theorem applies_nil : Applies m [] := trivial

@[simp] theorem applies_cons {event : ObservedEvent} {rest : List ObservedEvent} :
    Applies m (event :: rest) ↔ Applicable m event.1 ∧ Applies (event.1.change.apply m) rest :=
  Iff.rfl

variable {a b : List ObservedEvent} {events : List ObservedEvent}

theorem applies_append :
    Applies m (a ++ b) ↔ Applies m a ∧ Applies (replayFrom m (changes a)) b := by
  induction a generalizing m with
  | nil => simp [changes]
  | cons event a ih =>
    rw [cons_append, applies_cons, applies_cons, ih, and_assoc]
    rfl

/-! ## Batches -/

/-- Transitions of different transactions that are not both additions spending one outpoint. -/
def Independent (a b : MempoolEvent) : Prop :=
  a.transactionId ≠ b.transactionId ∧
    ∀ x y, a = .added x → b = .added y → ∀ o ∈ y.spentOutpoints, o ∉ x.spentOutpoints

theorem Applicable.after {a b : MempoolEvent} (ha : Applicable m a) (hb : Applicable m b)
    (h : Independent a b) : Applicable (a.change.apply m) b := by
  have hother : ∀ id, id ≠ a.transactionId → a.change.apply m id = m id := fun id hid =>
    Change.apply_of_ne hid
  cases b with
  | added y =>
    obtain ⟨hnew, hnodup, hfree⟩ := hb
    refine ⟨?_, hnodup, ?_⟩
    · rw [hother y.transactionId (Ne.symm h.1)]
      exact hnew
    · intro id e he o ho
      by_cases hid : id = a.transactionId
      · subst hid
        rw [← MempoolEvent.change_key, Change.apply_self] at he
        cases a with
        | added x =>
          rw [← Option.some.inj he]
          exact h.2 x y rfl rfl o ho
        | invalidated id reason => cases he
        | mined id height hash => cases he
      · rw [hother id hid] at he
        exact hfree id e he o ho
  | invalidated id reason =>
    rw [Applicable, hother id (Ne.symm h.1)]
    exact hb
  | mined id height hash =>
    rw [Applicable, hother id (Ne.symm h.1)]
    exact hb

theorem applies_of_independent (happlicable : ∀ event ∈ events, Applicable m event.1)
    (hindependent : events.Pairwise fun a b => Independent a.1 b.1) : Applies m events := by
  induction events generalizing m with
  | nil => exact applies_nil
  | cons event rest ih =>
    rw [pairwise_cons] at hindependent
    have hhead := happlicable event mem_cons_self
    refine ⟨hhead, ih (fun next hnext => ?_) hindependent.2⟩
    exact hhead.after (happlicable next (mem_cons_of_mem _ hnext)) (hindependent.1 next hnext)

/-- Independent transitions each of which can be applied as things stand. -/
structure Batchable (m : TransactionId → Option MempoolEntry) (events : List ObservedEvent) :
    Prop where
  applicable : ∀ event ∈ events, Applicable m event.1
  independent : events.Pairwise fun a b => Independent a.1 b.1

theorem Batchable.applies (h : Batchable m events) :
    Applies m events := applies_of_independent h.applicable h.independent

theorem Batchable.front (h : Batchable m (a ++ b)) : Batchable m a :=
  ⟨fun event hmem => h.applicable event (mem_append_left b hmem),
    (pairwise_append.mp h.independent).1⟩

theorem Batchable.rest (h : Batchable m (a ++ b)) : Batchable (replayFrom m (changes a)) b := by
  induction a generalizing m with
  | nil => exact h
  | cons event a ih =>
    obtain ⟨happlicable, hindependent⟩ := h
    rw [cons_append, pairwise_cons] at hindependent
    have hhead := happlicable event mem_cons_self
    refine ih ⟨fun next hnext => ?_, hindependent.2⟩
    exact hhead.after (happlicable next (mem_cons_of_mem _ hnext)) (hindependent.1 next hnext)

/-! ## Suffixes -/

theorem Applicable.restrict {event : MempoolEvent} (h : Applicable m event)
    (hsub : ∀ id e, m' id = some e → m id = some e) :
    Applicable m' event ∨ (m' event.transactionId = none ∧ event.change.value = none) := by
  cases event with
  | added entry =>
    obtain ⟨hnew, hnodup, hfree⟩ := h
    refine .inl ⟨?_, hnodup, fun id e he => hfree id e (hsub id e he)⟩
    cases hlive : m' entry.transactionId with
    | none => rfl
    | some e =>
      rw [hsub _ e hlive] at hnew
      cases hnew
  | invalidated id reason =>
    by_cases hlive : m' id = none
    · exact .inr ⟨hlive, rfl⟩
    · exact .inl hlive
  | mined id height hash =>
    by_cases hlive : m' id = none
    · exact .inr ⟨hlive, rfl⟩
    · exact .inl hlive

theorem apply_absent {event : MempoolEvent} (hlive : m event.transactionId = none)
    (hvalue : event.change.value = none) : event.change.apply m = m := by
  funext id
  by_cases hid : id = event.transactionId
  · subst hid
    rw [← MempoolEvent.change_key, Change.apply_self, hvalue, MempoolEvent.change_key, hlive]
  · exact Change.apply_of_ne hid

end Zinder.Mempool
