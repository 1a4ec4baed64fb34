import Zinder.Mempool.Reconciliation

/-!
# Zinder.Mempool.Hydration

Reconciling the live index with a complete source snapshot.

The first loop takes out of the live index what the snapshot lacks, the second puts in what the live
index lacks. Both keep the owner's invariant, and when the snapshot is certified the live index has
exactly the snapshot's transactions.
-/

namespace Zinder.Mempool

open KeyedLog Stateful List

variable {E : LogEnv} {settled : Prop} {staged : StagedMempoolGeneration}

/-- Independent transitions each of which adds what is not there or removes what is. -/
structure Moving (m : TransactionId → Option MempoolEntry) (events : List ObservedEvent) :
    Prop where
  independent : events.Pairwise fun a b => Independent a.1 b.1
  moves : ∀ event ∈ events, ¬ ((m event.1.transactionId).isSome ↔ event.1.change.value ≠ none)

/-- A batch that collides with the index is refused with the owner marked for a rebuild; any other
one keeps the invariant. -/
theorem ready_rule (E : LogEnv) (settled : Prop) (live : MempoolIndex) :
    IndexRule E live (Moving live.entryMap)
      (fun events s => Ready E settled s ∧
        s.owner.index.entryMap = replayFrom live.entryMap (changes events))
      (fun _ s => Failed E settled s) where
  front h := ⟨(pairwise_append.mp h.independent).1, fun event hmem =>
    h.moves event (mem_append_left _ hmem)⟩
  batch := by
    intro done batch h
    obtain ⟨_, hbatch, hapart⟩ := pairwise_append.mp h.independent
    refine Triple.post (reconciliationBatch_keeps hbatch fun event hmem => ?_) fun _ s hs => ?_
    · -- What the events before the batch changed is not what the batch changes.
      rw [replayFrom_of_untouched fun hkey => ?_]
      · exact h.moves event (mem_append_right _ hmem)
      · rw [key_changes] at hkey
        obtain ⟨before, hbefore, hid⟩ := mem_map.mp hkey
        exact (hapart before hbefore event hmem).1 hid
    · rw [changes_append, replayFrom_append]
      exact hs
  ownIds h := h.1.1.coherent.transactionId
  entries h := h.2

section

variable {live : MempoolIndex} (hsound : staged.Sound) (hids : live.OwnIds)
  (clock : TransactionId → U64)
include hsound hids clock

theorem removals_moving :
    Moving live.entryMap (removals staged clock (live.entriesAfter none)) := by
  refine ⟨removals_independent hsound clock (MempoolIndex.pairwise_entriesAfter hids none), ?_⟩
  intro event hevent
  obtain ⟨e, he, rfl⟩ := mem_map.mp hevent
  rw [transactionId_removalOf hsound, removalOf_change hsound,
    ((MempoolIndex.mem_entriesAfter hids).mp (mem_of_mem_filter he)).1]
  simp

theorem additions_moving :
    Moving (replayFrom live.entryMap (changes (removals staged clock (live.entriesAfter none))))
      (additions live (staged.index.entriesAfter none)) := by
  have hstaged := hsound.coherent.transactionId
  refine ⟨additions_independent hsound.coherent live
    (MempoolIndex.pairwise_entriesAfter hstaged none) fun e he =>
      ((MempoolIndex.mem_entriesAfter hstaged).mp he).1, fun event hevent => ?_⟩
  have hid : event.1.transactionId ∈
      (additions live (staged.index.entriesAfter none)).map fun event => event.1.transactionId :=
    mem_map_of_mem hevent
  rw [additions_ids, mem_missing_ids hstaged] at hid
  obtain ⟨e, _, rfl⟩ := mem_map.mp hevent
  rw [replay_removals hsound hids, if_neg hid.1, hid.2]
  simp [MempoolEvent.change]

end

theorem reconcileStagedGeneration_keeps (hsound : staged.Sound) (clock : TransactionId → U64) :
    Triple (Ready E settled) (reconcileStagedGenerationLocked E staged clock)
      (fun _ s => Ready E settled s ∧ ∀ id, (s.owner.index.entryMap id).isSome =
        (staged.index.entryMap id).isSome)
      (fun _ s => Failed E settled s) := by
  rw [reconcileStagedGenerationLocked_eq]
  refine Triple.of_states fun s hs => ?_
  have hids := hs.1.coherent.transactionId
  refine (ready_rule E settled s.owner.index).reconcileOf ⟨hs, rfl⟩ (by decide) _ hsound
    (removals_moving hsound hids clock) ?_
  rintro t ⟨ht, hentries⟩
  refine ⟨_, _, ready_rule E settled t.owner.index, ⟨ht, rfl⟩, ?_, ?_⟩
  · rw [hentries]
    exact additions_moving hsound hids clock
  · rintro u ⟨hu, hadded⟩
    refine ⟨hu, fun id => ?_⟩
    rw [hadded, hentries]
    exact reconciled_ids hsound hids id

/-- The outcome of a completion marker: a certified index has the transactions of the snapshot. -/
def Certifies (E : LogEnv) (settled : Prop) (s : OwnerSystem)
    (certification : SnapshotCertification)
    (t : OwnerSystem) : Prop :=
  Ready E settled t ∧ (certification = .certified →
    ∃ staged, s.owner.stagedGeneration = some staged ∧
      ∀ id, (t.owner.index.entryMap id).isSome = (staged.index.entryMap id).isSome)

/-- A certified snapshot is what the live index has from then on. -/
theorem tryCompleteHydration_keeps (clock : TransactionId → U64) (certifiedAt : U64)
    (visibleTip : Except Status BlockId) (sourceTip : BlockId) (s : OwnerSystem)
    (hs : Ready E settled s) :
    Triple (fun t => t = s) (tryCompleteHydration E clock certifiedAt visibleTip sourceTip)
      (Certifies E settled s) (fun _ t => Failed E settled t) := by
  have hfail : ∀ status : Status, Triple (fun t => t = s)
      (throw status : OwnerM SnapshotCertification) (Certifies E settled s)
      (fun _ t => Failed E settled t) := by
    intro status
    refine Triple.fail ?_
    rintro t rfl
    exact hs.failed
  refine Triple.get_bind ?_
  rintro t rfl
  split
  · exact hfail _
  · cases visibleTip with
    | error status => exact hfail status
    | ok visibleTip =>
      dsimp only
      split
      · refine Triple.ret ?_
        rintro t rfl
        exact ⟨hs, fun hcertified => by cases hcertified⟩
      · cases hstaged : t.owner.stagedGeneration with
        | none => exact hfail _
        | some staged =>
          refine Triple.bind (Q := fun _ => Ready E settled) (Triple.update ?_) fun _ => ?_
          · rintro t rfl
            exact hs.setStaged fun _ h => by cases h
          refine Triple.bind (reconcileStagedGeneration_keeps (hs.1.staged staged hstaged) clock)
            fun _ => ?_
          refine Triple.bind (Q := fun _ u => Ready E settled u ∧ ∀ id,
            (u.owner.index.entryMap id).isSome = (staged.index.entryMap id).isSome)
            (Triple.update fun u hu => ⟨hu.1.setStatus _, hu.2⟩) fun _ => ?_
          exact Triple.ret fun u hu => ⟨hu.1, fun _ => ⟨staged, hstaged, hu.2⟩⟩

end Zinder.Mempool
