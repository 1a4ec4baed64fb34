import Zinder.Canonical.PrimaryRun

/-!
# Zinder.Canonical.Leases

What leases are for. A projection that holds a lease reads the events from its anchor on while the
store goes on committing, pruning and granting other leases.

* `HistoryInvariant.readRetainedEvent_ok` — the events the history keeps are readable.
* `LeaseStep` — what an operation does to the lease rows.
* `PrimaryRun.unexpired_stored` — a lease is there until it ends or expires.
* `leases_protect_events` — the protection, over every run.
-/

namespace Zinder.Canonical

open List

section Runs

variable {D : Type} {E : Env D}

/-! ## Retained events are readable -/

namespace HistoryInvariant

variable {st : LiveState E} {floor : Nat} {past : List (HistoryEntry E)}

section

variable (inv : HistoryInvariant st floor past) {i : Nat} {h : HistoryEntry E}
  (hi : past[i]? = some h)
include inv hi

theorem entry_cases :
    i = 0 ∧ h.kind = .baseline ∨ ∃ j previous, i = j + 1 ∧ past[j]? = some previous ∧
      Evolves st.store.window previous h := by
  cases i with
  | zero => exact .inl ⟨rfl, inv.baseline h (by rw [head?_eq_getElem?]; exact hi)⟩
  | succ j =>
    obtain ⟨hlt, rfl⟩ := List.getElem?_eq_some_iff.mp hi
    refine .inr ⟨j, past[j], rfl, getElem?_eq_getElem (by omega), ?_⟩
    exact isChain_iff_getElem.mp inv.evolves j hlt

theorem event_shape :
    validateEventRecordShape (i + 1) (h.event st.start i (previousLength past i)) = .ok () := by
  have hvalid := inv.valid h (mem_of_getElem? hi)
  have hpos : 0 < h.chain.length := hvalid.settled_pos.trans_le hvalid.settled_le
  rcases inv.entry_cases hi with ⟨rfl, hkind⟩ | ⟨j, previous, rfl, hprevious, hevolves⟩
  · simp only [validateEventRecordShape, validateEventRange, HistoryEntry.event,
      HistoryEntry.revertedRange, HistoryEntry.committedRange, hkind, bind_eq_ok, rejectIf_eq_ok]
    exact ⟨(), trivial, (), by simp only [not_not]; omega, by simp⟩
  · cases hevolves with
    | append v hkind hchain _ =>
      simp only [validateEventRecordShape, validateEventRange, HistoryEntry.event,
        HistoryEntry.revertedRange, HistoryEntry.committedRange, hkind, bind_eq_ok, rejectIf_eq_ok]
      exact ⟨(), trivial, (), by simp, by simp⟩
    | replacement hkind hchain hnew _ hlt _ _ =>
      have hlength := congrArg List.length hchain
      have hnewpos := length_pos_of_ne_nil hnew
      rw [length_append, length_take] at hlength
      have hprev : previousLength past (j + 1) = previous.chain.length := by
        rw [previousLength, hprevious]
        rfl
      simp only [validateEventRecordShape, validateEventRange, HistoryEntry.event,
        HistoryEntry.revertedRange, HistoryEntry.committedRange, hkind, hprev, bind_eq_ok,
        rejectIf_eq_ok]
      refine ⟨(), ?_, (), ?_, by simp⟩
      · simp only [not_not]
        omega
      · simp only [not_not]
        omega

end

theorem readRetainedEvent_ok (inv : HistoryInvariant st floor past) {sequence : Nat}
    (hpos : 0 < sequence) (hretained : sequence = 1 ∨ floor ≤ sequence)
    (hle : sequence ≤ st.store.readyEvidence.visibleEventSequence) :
    ∃ event, readRetainedEvent st.store.db sequence = .ok event := by
  obtain ⟨i, rfl⟩ := Nat.exists_eq_add_of_lt hpos
  simp only [Nat.zero_add] at hretained hle ⊢
  have hi : i < past.length := by
    rw [inv.length]
    omega
  have hentry := getElem?_eq_getElem hi
  have hrow := inv.events i _ hentry (by omega)
  simp only [readRetainedEvent, bind_eq_ok, okOr_eq_ok, rejectIf_eq_ok]
  refine ⟨_, _, hrow, (), inv.event_shape hentry, (), ?_, (), ?_, rfl⟩
  · simp [validateEventTransition, HistoryEntry.event]
  · simp [HistoryEntry.event]

end HistoryInvariant

/-! ## What a step does to the lease rows -/

/-- The lease rows before and after an operation. -/
inductive LeaseStep : LifecycleRows → PrimaryOperation → LifecycleRows → Prop where
  | commit (rows : LifecycleRows) : LeaseStep rows .commit rows
  | acquire {rows : LifecycleRows} {granted : ProjectionBuildLease} {now : Nat}
      (hfree : ∀ v, rows.leases.lookup granted.id = some v → v.expiresAt ≤ now)
      (hgeneration : granted.generation = rows.counter + 1) :
      LeaseStep rows (.acquire granted now) (rows.acquired now granted)
  | renew {rows : LifecycleRows} {lease : ProjectionBuildLease} {now : Nat}
      {v : ProjectionBuildLeaseValue} (hv : rows.leases.lookup lease.id = some v)
      (hgeneration : v.generation = lease.generation) :
      LeaseStep rows (.renew lease now)
        { rows with leases := rows.leases.insert lease.id lease.value }
  | absent {rows : LifecycleRows} {lease : ProjectionBuildLease}
      (h : rows.leases.lookup lease.id = none) : LeaseStep rows (.release lease) rows
  | release {rows : LifecycleRows} {lease : ProjectionBuildLease} {v : ProjectionBuildLeaseValue}
      (hv : rows.leases.lookup lease.id = some v) (hgeneration : v.generation = lease.generation) :
      LeaseStep rows (.release lease) { rows with leases := rows.leases.erase lease.id }
  | prune {rows : LifecycleRows} {now : Nat} (floor : Option Nat) :
      LeaseStep rows (.prune now)
        { rows with retentionFloor := floor, leases := rows.unexpired now }

theorem PrimaryStep.leases [DecidableEq D] {st st' : PrimaryState E} {operation : PrimaryOperation}
    (h : PrimaryStep st operation st') : LeaseStep st.lifecycle operation st'.lifecycle := by
  cases h with
  | commit h => exact .commit _
  | acquire h =>
    obtain ⟨_, spec, rfl, rfl⟩ := acquire_eq_ok h
    exact .acquire spec.free rfl
  | renew h =>
    obtain ⟨v, hv, _, _, hgeneration, _, _, rfl⟩ := renew_eq_ok h
    exact .renew hv hgeneration
  | release h =>
    rcases release_eq_ok h with ⟨hnone, rfl⟩ | ⟨⟨v, hv, hgeneration⟩, rfl⟩
    · exact .absent hnone
    · exact .release hv hgeneration
  | prune h =>
    obtain ⟨_, _, _, _, rfl⟩ := prune_eq_ok h
    exact .prune _
  | pruneBefore h =>
    obtain ⟨_, h⟩ := pruneBefore_eq_ok h
    obtain ⟨_, _, _, _, rfl⟩ := prune_eq_ok h
    exact .prune _

namespace LeaseStep

variable {rows rows' : LifecycleRows} {operation : PrimaryOperation}

section

variable (h : LeaseStep rows operation rows')
include h

theorem counter :
    operation.granted = none ∧ rows'.counter = rows.counter ∨
      ∃ lease, operation.granted = some lease ∧ lease.generation = rows.counter + 1 ∧
        rows'.counter = lease.generation := by
  cases h with
  | acquire _ hgeneration => exact .inr ⟨_, rfl, hgeneration, rfl⟩
  | _ => exact .inl ⟨rfl, rfl⟩

/-- A lease stored after a step was granted by it, or it was stored before under its generation
and the step granted none of its identity. -/
theorem stored {id : ProjectionBuildLeaseId} {v' : ProjectionBuildLeaseValue}
    (hv' : rows'.leases.lookup id = some v') :
    (∃ lease ∈ operation.granted, lease.generation = v'.generation) ∨
      (∀ lease ∈ operation.granted, lease.id ≠ id) ∧
        ∃ v, rows.leases.lookup id = some v ∧ v.generation = v'.generation := by
  cases h with
  | commit => exact .inr ⟨by simp [PrimaryOperation.granted], v', hv', rfl⟩
  | @acquire granted now _ _ =>
    by_cases hid : id = granted.id
    · subst hid
      rw [LifecycleRows.acquired, Finmap.lookup_insert] at hv'
      cases hv'
      exact .inl ⟨granted, rfl, rfl⟩
    · rw [LifecycleRows.acquired, Finmap.lookup_insert_of_ne _ hid,
        LifecycleRows.lookup_unexpired] at hv'
      refine .inr ⟨?_, v', hv'.1, rfl⟩
      rintro lease ⟨rfl⟩
      exact Ne.symm hid
  | @renew lease _ v hv hgeneration =>
    refine .inr ⟨by simp [PrimaryOperation.granted], ?_⟩
    by_cases hid : id = lease.id
    · subst hid
      rw [Finmap.lookup_insert] at hv'
      cases hv'
      exact ⟨v, hv, hgeneration⟩
    · rw [Finmap.lookup_insert_of_ne _ hid] at hv'
      exact ⟨v', hv', rfl⟩
  | absent => exact .inr ⟨by simp [PrimaryOperation.granted], v', hv', rfl⟩
  | @release lease _ _ _ =>
    refine .inr ⟨by simp [PrimaryOperation.granted], v', ?_, rfl⟩
    by_cases hid : id = lease.id
    · subst hid
      rw [Finmap.lookup_erase] at hv'
      cases hv'
    · rwa [Finmap.lookup_erase_ne hid] at hv'
  | prune =>
    exact .inr ⟨by simp [PrimaryOperation.granted], v', (LifecycleRows.lookup_unexpired.mp hv').1, rfl⟩

theorem written {l : ProjectionBuildLease} (hl : operation.written = some l) :
    rows'.leases.lookup l.id = some l.value := by
  cases h with
  | acquire =>
    cases hl
    exact Finmap.lookup_insert _
  | renew =>
    cases hl
    exact Finmap.lookup_insert _
  | _ => cases hl

/-- A stored lease stays as it is through every operation that neither renews nor releases it and
whose clock reading has not reached its expiry. -/
theorem kept {l : ProjectionBuildLease} (hl : rows.leases.lookup l.id = some l.value)
    (hends : ¬ operation.Ends l) (hreading : ∀ now ∈ operation.reading, now < l.expiresAt) :
    rows'.leases.lookup l.id = some l.value := by
  cases h with
  | commit => exact hl
  | @acquire granted now hfree _ =>
    have hlive : now < l.expiresAt := hreading now rfl
    have hid : l.id ≠ granted.id := by
      intro hid
      have : l.expiresAt ≤ now := hfree l.value (hid ▸ hl)
      omega
    rw [LifecycleRows.acquired, Finmap.lookup_insert_of_ne _ hid, LifecycleRows.lookup_unexpired]
    exact ⟨hl, hlive⟩
  | @renew lease _ v hv hgeneration =>
    have hid : l.id ≠ lease.id := by
      intro hid
      rw [← hid, hl] at hv
      cases hv
      exact hends ⟨hid.symm, hgeneration.symm⟩
    rw [Finmap.lookup_insert_of_ne _ hid]
    exact hl
  | absent => exact hl
  | @release lease v hv hgeneration =>
    have hid : l.id ≠ lease.id := by
      intro hid
      rw [← hid, hl] at hv
      cases hv
      exact hends ⟨hid.symm, hgeneration.symm⟩
    rw [Finmap.lookup_erase_ne hid]
    exact hl
  | @prune now _ => exact LifecycleRows.lookup_unexpired.mpr ⟨hl, hreading now rfl⟩

end

end LeaseStep

/-! ## Generations over a run -/

section Generations

variable [DecidableEq D] {st st' : PrimaryState E}

def grantedGenerations (operations : List PrimaryOperation) : List Nat :=
  (operations.filterMap PrimaryOperation.granted).map ProjectionBuildLease.generation

omit [DecidableEq D] in
theorem grantedGenerations_concat (operations : List PrimaryOperation)
    (operation : PrimaryOperation) :
    grantedGenerations (operations ++ [operation]) = grantedGenerations operations ++
      operation.granted.toList.map ProjectionBuildLease.generation := by
  cases hgranted : operation.granted <;> simp [grantedGenerations, hgranted]

variable {operations : List PrimaryOperation}

theorem PrimaryRun.generations (h : PrimaryRun st operations st') :
    (grantedGenerations operations).Pairwise (· < ·) ∧
      ∀ g ∈ grantedGenerations operations, g ≤ st'.lifecycle.counter := by
  induction h with
  | nil => exact ⟨.nil, by simp [grantedGenerations]⟩
  | snoc _ hstep ih =>
    obtain ⟨hpairwise, hle⟩ := ih
    rw [grantedGenerations_concat]
    rcases hstep.leases.counter with ⟨hnone, hcounter⟩ | ⟨lease, hsome, hgeneration, hcounter⟩
    · rw [hnone, hcounter]
      simpa using ⟨hpairwise, hle⟩
    · simp only [hsome, Option.toList_some, map_cons, map_nil]
      refine ⟨pairwise_append.mpr ⟨hpairwise, by simp, fun g hg g' hg' => ?_⟩,
        fun g hg => ?_⟩
      · have := hle g hg
        rw [mem_singleton.mp hg']
        omega
      · rcases mem_append.mp hg with hg | hg
        · have := hle g hg
          omega
        · rw [mem_singleton.mp hg, hcounter]

theorem PrimaryRun.granted_le (h : PrimaryRun st operations st') {lease : ProjectionBuildLease}
    (hlease : lease ∈ operations.filterMap PrimaryOperation.granted) {v : ProjectionBuildLeaseValue}
    (hv : st'.lifecycle.leases.lookup lease.id = some v) :
    lease.generation ≤ v.generation := by
  induction h generalizing v with
  | nil => simp at hlease
  | snoc hrun hstep ih =>
    rw [filterMap_append, mem_append] at hlease
    rcases hstep.leases.stored hv with ⟨granted, hgranted, hv⟩ | ⟨hother, w, hw, hv⟩
    · rcases hstep.leases.counter with ⟨hnone, _⟩ | ⟨granted', hsome, hnext, _⟩
      · rw [hgranted] at hnone
        cases hnone
      · cases hgranted.symm.trans hsome
        rcases hlease with hlease | hlease
        · have := hrun.generations.2 _ (mem_map_of_mem hlease)
          omega
        · simp only [filterMap_cons, hsome, filterMap_nil,
            mem_singleton] at hlease
          rw [hlease, hv]
    · rcases hlease with hlease | hlease
      · exact hv ▸ ih hlease hw
      · refine absurd rfl (hother lease ?_)
        simpa using hlease

/-! ## Unexpired leases -/

/-- The last write of the lease is followed by no operation that ends it and by no clock reading
that reaches its expiry. -/
def Unexpired (operations : List PrimaryOperation) (l : ProjectionBuildLease) : Prop :=
  ∃ before operation after, operations = before ++ operation :: after ∧
    operation.written = some l ∧
    ∀ later ∈ after, ¬ later.Ends l ∧ ∀ now ∈ later.reading, now < l.expiresAt

theorem PrimaryRun.snoc_inv {operation : PrimaryOperation}
    (h : PrimaryRun st (operations ++ [operation]) st') :
    ∃ st₁, PrimaryRun st operations st₁ ∧ PrimaryStep st₁ operation st' := by
  generalize hall : operations ++ [operation] = all at h
  cases h with
  | nil => simp at hall
  | snoc run step =>
    obtain ⟨rfl, hlast⟩ := append_inj' hall rfl
    cases hlast
    exact ⟨_, run, step⟩

theorem PrimaryRun.unexpired_stored (h : PrimaryRun st operations st') {l : ProjectionBuildLease}
    (hl : Unexpired operations l) :
    st'.lifecycle.leases.lookup l.id = some l.value := by
  obtain ⟨before, operation, after, rfl, hwritten, hafter⟩ := hl
  induction after using List.reverseRecOn generalizing st' with
  | nil =>
    obtain ⟨st₁, _, step⟩ := h.snoc_inv
    exact step.leases.written hwritten
  | append_singleton after later ih =>
    rw [← cons_append, ← append_assoc] at h
    obtain ⟨st₁, run, step⟩ := h.snoc_inv
    have hstored := ih run fun later' hlater =>
      hafter later' (mem_append_left _ hlater)
    obtain ⟨hends, hreading⟩ := hafter later (mem_append_right _ mem_cons_self)
    exact step.leases.kept hstored hends hreading

/-! ## Protection -/

/-- A stale generation: a lease granted before another one of the same identity. -/
def Stale (operations : List PrimaryOperation) (l : ProjectionBuildLease) : Prop :=
  ∃ earlier later, [earlier, later].Sublist (operations.filterMap PrimaryOperation.granted) ∧
    earlier.id = l.id ∧ earlier.generation = l.generation ∧ later.id = l.id

theorem PrimaryRun.stale_ne (h : PrimaryRun st operations st') {l : ProjectionBuildLease}
    (hstale : Stale operations l) {v : ProjectionBuildLeaseValue}
    (hv : st'.lifecycle.leases.lookup l.id = some v) :
    v.generation ≠ l.generation := by
  obtain ⟨earlier, later, hsub, _, hgeneration, hlater⟩ := hstale
  have hlt : earlier.generation < later.generation := by
    have hpairwise := h.generations.1.sublist (hsub.map ProjectionBuildLease.generation)
    simpa using hpairwise
  have hle : later.generation ≤ v.generation :=
    h.granted_le (hsub.subset (by simp)) (hlater ▸ hv)
  omega

end Generations

/-- Leases protect retained events. Over every run of a published primary store, whatever its clock
readings: an unexpired lease is stored; the baseline event, the events from the retention floor to
the current one, and those from the anchor of an unexpired lease are readable; the floor never
decreases; granted generations increase; and the holder of a stale generation can neither renew nor
release the lease that replaced its own. -/
theorem leases_protect_events [DecidableEq D] {st₀ st : PrimaryState E}
    {operations : List PrimaryOperation} (h : PrimaryPublished st₀)
    (run : PrimaryRun st₀ operations st) :
    (∀ l, Unexpired operations l → st.lifecycle.leases.lookup l.id = some l.value) ∧
    (∃ floor, st.primary.retentionFloor = .ok floor ∧ 0 < floor ∧
      floor ≤ st.primary.currentEventSequence ∧
      (∀ sequence, 0 < sequence → sequence ≤ st.primary.currentEventSequence →
        (sequence = 1 ∨ floor ≤ sequence ∨
          ∃ l, Unexpired operations l ∧ l.anchor.eventSequence ≤ sequence) →
        ∃ event, readRetainedEvent st.primary.canonical.db sequence = .ok event) ∧
      ∀ later operations', PrimaryRun st operations' later →
        ∃ floor', later.primary.retentionFloor = .ok floor' ∧ floor ≤ floor') ∧
    (grantedGenerations operations).Pairwise (· < ·) ∧
    ∀ l, Stale operations l →
      (∀ now s', st.primary.renewProjectionBuildLease l now ≠ .ok s') ∧
      ∀ s', st.primary.releaseProjectionBuildLease l = .ok s' → s' = st.primary := by
  obtain ⟨floor, past, inv⟩ := h.run_invariant run
  refine ⟨fun l hl => run.unexpired_stored hl, ⟨floor, inv.floor_eq, inv.floor_pos, inv.floor_le,
    fun sequence hpos hle hprotected => ?_, fun later operations' run' => ?_⟩, run.generations.1,
    fun l hstale => ⟨fun now s' hrenew => ?_, fun s' hrelease => ?_⟩⟩
  · refine inv.history.readRetainedEvent_ok hpos ?_ hle
    rcases hprotected with hone | hfloor | ⟨l, hl, hanchor⟩
    · exact .inl hone
    · exact .inr hfloor
    · -- a stored lease is anchored at or above the floor
      have hfloor : floor ≤ l.anchor.eventSequence :=
        (inv.leases l.id l.value (run.unexpired_stored hl)).floor_le
      exact .inr (hfloor.trans hanchor)
  · obtain ⟨floor', _, hle, _, inv'⟩ := inv.run run'
    exact ⟨floor', inv'.floor_eq, hle⟩
  · obtain ⟨v, hv, _, _, hgeneration, _⟩ := renew_eq_ok hrenew
    exact run.stale_ne hstale hv hgeneration
  · rcases release_eq_ok hrelease with ⟨_, rfl⟩ | ⟨⟨v, hv, hgeneration⟩, _⟩
    · rfl
    · exact absurd hgeneration (run.stale_ne hstale hv)

/-! ### A sample run -/

def sampleLeaseId : ProjectionBuildLeaseId := ⟨List.replicate 16 7, rfl⟩

def sampleLease (generation expiresAt : Nat) : ProjectionBuildLease :=
  ⟨sampleLeaseId, generation, ⟨2, 2⟩, expiresAt⟩

/-- An append, a lease that expires at 10, a lease that takes its place, and a pruning pass. -/
noncomputable def sampleRequests : List (PrimaryRequest sampleEnv) :=
  [.append (plainBlock sampleEnv (plainFacts 2 2 1 12)) [] ⟨1, repeatedByte 1⟩ 0,
    .acquire (sampleLease 0 10) 5, .acquire (sampleLease 0 30) 10, .prune 2 20]

def sampleOperations : List PrimaryOperation :=
  [.commit, .acquire (sampleLease 1 10) 5, .acquire (sampleLease 2 30) 10, .prune 20]

noncomputable def samplePrimary : Option (PrimaryStore Nat × List PrimaryOperation) := do
  let s ← (publishBaseline sampleBaseline).toOption
  PrimaryStore.performAll sampleActivations ⟨s, ⟨none, none, ∅⟩⟩ sampleRequests

theorem samplePrimary_run : ∃ st₀ st : PrimaryState sampleEnv,
    PrimaryPublished st₀ ∧ PrimaryRun st₀ sampleOperations st ∧
      st.primary.currentEventSequence = 2 := by
  have hrun : samplePrimary.map (fun r => (r.2, r.1.currentEventSequence)) =
      some (sampleOperations, 2) := by decide +kernel
  obtain ⟨⟨s', operations⟩, hperformed, heq⟩ := Option.map_eq_some_iff.mp hrun
  obtain ⟨rfl, hcurrent⟩ := Prod.mk.inj heq
  simp only [samplePrimary, Option.bind_eq_bind, Option.bind_eq_some_iff] at hperformed
  obtain ⟨s, hs, hperformed⟩ := hperformed
  obtain ⟨st₀, st, hpublished, run, rfl⟩ := published_run (toOption_eq_some.mp hs) hperformed
  exact ⟨st₀, st, hpublished, run, hcurrent⟩

theorem leases_protect_events_sample : ∃ st₀ st : PrimaryState sampleEnv,
    PrimaryPublished st₀ ∧ PrimaryRun st₀ sampleOperations st ∧
      Unexpired sampleOperations (sampleLease 2 30) ∧ Stale sampleOperations (sampleLease 1 10) ∧
      st.lifecycle.leases.lookup sampleLeaseId = some (sampleLease 2 30).value ∧
      (∃ event, readRetainedEvent st.primary.canonical.db 2 = .ok event) ∧
      ∀ now s', st.primary.renewProjectionBuildLease (sampleLease 1 10) now ≠ .ok s' := by
  obtain ⟨st₀, st, hpublished, run, hcurrent⟩ := samplePrimary_run
  have hunexpired : Unexpired sampleOperations (sampleLease 2 30) := by
    refine ⟨[.commit, .acquire (sampleLease 1 10) 5], .acquire (sampleLease 2 30) 10, [.prune 20],
      rfl, rfl, fun later hlater => ?_⟩
    rw [mem_singleton.mp hlater]
    exact ⟨id, by simp [PrimaryOperation.reading, sampleLease]⟩
  have hstale : Stale sampleOperations (sampleLease 1 10) :=
    ⟨sampleLease 1 10, sampleLease 2 30, List.Sublist.refl _, rfl, rfl, rfl⟩
  obtain ⟨hstored, ⟨floor, _, _, _, hreadable, _⟩, _, hfenced⟩ :=
    leases_protect_events hpublished run
  exact ⟨st₀, st, hpublished, run, hunexpired, hstale, hstored _ hunexpired,
    hreadable 2 (by decide) hcurrent.ge (.inr (.inr ⟨_, hunexpired, le_rfl⟩)),
    (hfenced _ hstale).1⟩

end Runs

end Zinder.Canonical
