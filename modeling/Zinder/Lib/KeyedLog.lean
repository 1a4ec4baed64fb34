import Mathlib

/-!
# Zinder.Lib.KeyedLog

Logs of keyed changes and what dropping a prefix of one does to its replay.

A change sets or removes the value of one key, and replaying a log folds its changes over a map.
The last change of a key decides what the replay says about it, so a prefix may be dropped exactly
when every key that is live at the cut is changed again behind it (`CutSafe`).

* `replayFrom_congr` — the start map matters only at keys the log never changes;
* `CutSafe.replay_drop` — a safe cut keeps the replay;
* `CutSafe.append`, `CutSafe.mono` — safe cuts stay safe as the log grows, and earlier cuts are safe;
* `CutSafe.extend` — the scan rule: from a safe cut, a scan that knows the additions still open
  in the scanned segment may move the cut up to the first of them.
-/

namespace Zinder.KeyedLog

open List

/-- A change of one key: its new value, or `none` for a removal. -/
structure Change (κ ν : Type) where
  key : κ
  value : Option ν

variable {κ ν : Type} [DecidableEq κ]

variable (m : κ → Option ν) (c : Change κ ν)

def Change.apply : κ → Option ν :=
  Function.update m c.key c.value

/-- The map after the changes of a log, in order. -/
def replayFrom (log : List (Change κ ν)) : κ → Option ν :=
  log.foldl Change.apply m

def replay (log : List (Change κ ν)) : κ → Option ν := replayFrom (fun _ => none) log

@[simp] theorem replayFrom_nil : replayFrom m [] = m := rfl

@[simp] theorem replayFrom_cons (log : List (Change κ ν)) :
    replayFrom m (c :: log) = replayFrom (c.apply m) log := rfl

theorem replayFrom_append (a b : List (Change κ ν)) :
    replayFrom m (a ++ b) = replayFrom (replayFrom m a) b := by
  simp [replayFrom, foldl_append]

@[simp] theorem replay_nil : replay ([] : List (Change κ ν)) = fun _ => none := rfl

theorem replay_append (a b : List (Change κ ν)) :
    replay (a ++ b) = replayFrom (replay a) b := replayFrom_append _ a b

theorem replay_concat (log : List (Change κ ν)) (c : Change κ ν) :
    replay (log ++ [c]) = c.apply (replay log) := by
  rw [replay_append, replayFrom_cons, replayFrom_nil]

theorem Change.apply_self : c.apply m c.key = c.value :=
  Function.update_self ..

variable {k : κ} {log : List (Change κ ν)}

theorem Change.apply_of_ne {m : κ → Option ν} {c : Change κ ν} (h : k ≠ c.key) :
    c.apply m k = m k :=
  Function.update_of_ne h ..

theorem replayFrom_of_untouched (h : k ∉ log.map Change.key) (m : κ → Option ν) :
    replayFrom m log k = m k := by
  induction log generalizing m with
  | nil => rfl
  | cons c log ih =>
    simp only [map_cons, mem_cons, not_or] at h
    rw [replayFrom_cons, ih h.2, Change.apply_of_ne h.1]

/-- Where a log changes no key twice, each of its changes is in effect at the end. -/
theorem replayFrom_of_mem (hnodup : (log.map Change.key).Nodup) {c : Change κ ν} (hc : c ∈ log)
    (m : κ → Option ν) : replayFrom m log c.key = c.value := by
  induction log generalizing m with
  | nil => cases hc
  | cons first rest ih =>
    rw [map_cons, nodup_cons] at hnodup
    rw [replayFrom_cons]
    rcases mem_cons.mp hc with rfl | hrest
    · rw [replayFrom_of_untouched hnodup.1, Change.apply_self]
    · exact ih hnodup.2 hrest _

/-- Two start maps give the same value to a key that the log changes or on which they agree. -/
theorem replayFrom_congr {m m' : κ → Option ν} (h : k ∈ log.map Change.key ∨ m k = m' k) :
    replayFrom m log k = replayFrom m' log k := by
  induction log generalizing m m' with
  | nil =>
    rcases h with h | h
    · simp at h
    · exact h
  | cons c log ih =>
    refine ih ?_
    by_cases hk : k = c.key
    · subst hk
      exact .inr (by rw [Change.apply_self, Change.apply_self])
    · rcases h with h | h
      · simp only [map_cons, mem_cons, hk, false_or] at h
        exact .inl h
      · exact .inr (by rw [Change.apply_of_ne hk, Change.apply_of_ne hk, h])

theorem replay_append_of_live {a b : List (Change κ ν)} {v : ν} (h : replay b k = some v) :
    replay (a ++ b) k = some v := by
  have hmem : k ∈ b.map Change.key := by
    by_contra hout
    rw [replay, replayFrom_of_untouched hout] at h
    cases h
  rw [replay_append, replayFrom_congr (.inl hmem), ← h]
  rfl

/-! ## Safe cuts -/

/-- Dropping the first `n` changes loses nothing: every key live at the cut is changed again. -/
def CutSafe (log : List (Change κ ν)) (n : Nat) : Prop :=
  ∀ k, k ∈ (log.drop n).map Change.key ∨ replay (log.take n) k = none

theorem cutSafe_zero (log : List (Change κ ν)) : CutSafe log 0 := fun _ => .inr rfl

theorem CutSafe.replay_drop {n : Nat} (h : CutSafe log n) : replay (log.drop n) = replay log := by
  funext k
  conv_rhs => rw [← take_append_drop n log, replay_append]
  refine replayFrom_congr ?_
  rcases h k with hmem | hnone
  · exact .inl hmem
  · exact .inr hnone.symm

theorem CutSafe.append {log more : List (Change κ ν)} {n : Nat} (h : CutSafe log n)
    (hn : n ≤ log.length) : CutSafe (log ++ more) n := by
  intro k
  rw [drop_append_of_le_length hn, take_append_of_le_length hn, map_append,
    mem_append]
  rcases h k with hmem | hnone
  · exact .inl (.inl hmem)
  · exact .inr hnone

theorem CutSafe.mono {m n : Nat} (h : CutSafe log n) (hmn : m ≤ n) : CutSafe log m := by
  intro k
  by_cases hmem : k ∈ (log.drop m).map Change.key
  · exact .inl hmem
  · refine .inr ?_
    have hsplit : log.take n = log.take m ++ (log.drop m).take (n - m) := by
      rw [← take_add, Nat.add_sub_cancel' hmn]
    have hbetween : k ∉ ((log.drop m).take (n - m)).map Change.key := fun hin =>
      hmem (map_subset _ (take_subset _ _) hin)
    rcases h k with hlater | hnone
    · have hdrop : log.drop n = (log.drop m).drop (n - m) := by
        rw [drop_drop, Nat.add_sub_cancel' hmn]
      rw [hdrop] at hlater
      exact absurd (map_subset _ (drop_subset _ _) hlater) hmem
    · rwa [hsplit, replay_append, replayFrom_of_untouched hbetween] at hnone

theorem exists_last_change (h : replay log k ≠ none) :
    ∃ (i : Nat) (c : Change κ ν), log[i]? = some c ∧ c.key = k ∧ c.value ≠ none ∧
      ∀ (j : Nat) (c' : Change κ ν), i < j → log[j]? = some c' → c'.key ≠ k := by
  induction log using List.reverseRecOn with
  | nil => simp at h
  | append_singleton log d ih =>
    rw [replay_concat] at h
    by_cases hk : k = d.key
    · subst hk
      rw [Change.apply_self] at h
      refine ⟨log.length, d, by simp, rfl, h, ?_⟩
      intro j c' hj hc'
      have hbound : j < (log ++ [d]).length := (List.getElem?_eq_some_iff.mp hc').1
      simp only [length_append, length_singleton] at hbound
      omega
    · rw [Change.apply_of_ne hk] at h
      obtain ⟨i, c, hc, hkey, hvalue, hlast⟩ := ih h
      have hi : i < log.length := (List.getElem?_eq_some_iff.mp hc).1
      refine ⟨i, c, by rw [getElem?_append_left hi, hc], hkey, hvalue, ?_⟩
      intro j c' hj hc'
      by_cases hjl : j < log.length
      · rw [getElem?_append_left hjl] at hc'
        exact hlast j c' hj hc'
      · have hj' : j = log.length := by
          have hbound : j < (log ++ [d]).length := (List.getElem?_eq_some_iff.mp hc').1
          simp only [length_append, length_singleton] at hbound
          omega
        subst hj'
        simp only [getElem?_concat_length, Option.some.injEq] at hc'
        rw [← hc']
        exact fun hkd => hk hkd.symm

/-- The change at `i` adds its key, and nothing changes that key again before `m`. -/
def OpenAt (log : List (Change κ ν)) (m i : Nat) : Prop :=
  ∃ c : Change κ ν, log[i]? = some c ∧ c.value ≠ none ∧
    ∀ (j : Nat) (c' : Change κ ν), i < j → j < m → log[j]? = some c' → c'.key ≠ c.key

/-- The scan rule. The cut at `a` is safe and the segment from `a` to `m` has been scanned. A cut at
`n` inside the segment that drops no addition still open at the scan's end is safe. -/
theorem CutSafe.extend {a m n : Nat} (ha : CutSafe log a) (hnm : n ≤ m)
    (hopen : ∀ i, a ≤ i → i < m → OpenAt log m i → n ≤ i) : CutSafe log n := by
  intro k
  by_cases hlater : k ∈ (log.drop n).map Change.key
  · exact .inl hlater
  refine .inr ?_
  by_contra hlive
  obtain ⟨i, c, hc, hkey, hvalue, hlast⟩ := exists_last_change hlive
  have hi : i < n := by
    have hbound : i < (log.take n).length := (List.getElem?_eq_some_iff.mp hc).1
    simp only [length_take] at hbound
    omega
  rw [getElem?_take_of_lt hi] at hc
  -- The last change of `k` in the whole log is the one at `i`.
  have hlast' : ∀ (j : Nat) (c' : Change κ ν), i < j → log[j]? = some c' → c'.key ≠ k := by
    intro j c' hj hc'
    by_cases hjn : j < n
    · exact hlast j c' hj (by rw [getElem?_take_of_lt hjn, hc'])
    · intro hkey'
      refine hlater (mem_map.mpr ⟨c', ?_, hkey'⟩)
      refine mem_of_getElem? (i := j - n) ?_
      rw [getElem?_drop, Nat.add_sub_cancel' (Nat.le_of_not_lt hjn), hc']
  by_cases hai : a ≤ i
  · have hle : n ≤ i := hopen i hai (Nat.lt_of_lt_of_le hi hnm)
      ⟨c, hc, hvalue, fun j c' hj _ hc' => hkey ▸ hlast' j c' hj hc'⟩
    omega
  · -- The addition lies before the safe cut at `a`, so `k` is live there and never changed again.
    have hia : i < a := Nat.lt_of_not_le hai
    rcases ha k with hmem | hnone
    · obtain ⟨c', hin, hkey'⟩ := mem_map.mp hmem
      obtain ⟨j, hj, hget⟩ := getElem_of_mem hin
      have hj' : log[a + j]? = some c' := by
        rw [← getElem?_drop, getElem?_eq_getElem hj, hget]
      exact hlast' (a + j) c' (by omega) hj' hkey'
    · have hsplit : log.take a = log.take (i + 1) ++ (log.drop (i + 1)).take (a - (i + 1)) := by
        rw [← take_add, Nat.add_sub_cancel' hia]
      have hquiet : k ∉ ((log.drop (i + 1)).take (a - (i + 1))).map Change.key := by
        intro hmem
        obtain ⟨c', hin, hkey'⟩ := mem_map.mp hmem
        obtain ⟨j, hj, hget⟩ := getElem_of_mem (take_subset _ _ hin)
        have hj' : log[i + 1 + j]? = some c' := by
          rw [← getElem?_drop, getElem?_eq_getElem hj, hget]
        exact hlast' (i + 1 + j) c' (by omega) hj' hkey'
      have hi' : i < log.length := (List.getElem?_eq_some_iff.mp hc).1
      have hci : log[i] = c := (List.getElem?_eq_some_iff.mp hc).2
      rw [hsplit, replay_append, replayFrom_of_untouched hquiet, take_succ_eq_append_getElem hi',
        replay_concat, hci, ← hkey, Change.apply_self] at hnone
      exact hvalue hnone

end Zinder.KeyedLog
