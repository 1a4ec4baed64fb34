import Zinder.Mempool.OwnerOperations

/-!
# Zinder.Mempool.Reconciliation

What a reconciliation appends.

The loops are taken with any page size and any batch limit; the owner's own are the instance at
`maxMempoolReconciliationBatchEvents`. The appended events are the same for all of them: one removal
for every live transaction the snapshot lacks, in the order of their ids, and then one addition for
every transaction of the snapshot the live index lacks (`IndexRule.reconcileOf`). What is known between two
batches, and how a batch fails, is left open (`IndexRule`): the owner's invariant and the exact account
of the log are two instances.
-/

namespace Zinder.Mempool

open KeyedLog Stateful List

/-- The owner's reconciliation is the one with its own limits. -/
theorem reconcileStagedGenerationLocked_eq (E : LogEnv) (staged : StagedMempoolGeneration)
    (clock : TransactionId → U64) :
    reconcileStagedGenerationLocked E staged clock =
      reconcileOf E maxMempoolReconciliationBatchEvents maxMempoolReconciliationBatchEvents staged
        clock := rfl

variable {E : LogEnv} {pageSize : Nat} {staged : StagedMempoolGeneration}
  {clock : TransactionId → U64}

/-! ## Batches -/

/-- What a loop over batches asks of one: with `done` appended before it, a batch that fits is appended
as it stands, or the loop fails. -/
structure BatchRule (E : LogEnv) (Fits : List ObservedEvent → Prop)
    (Done : List ObservedEvent → OwnerSystem → Prop) (Fails : Status → OwnerSystem → Prop) :
    Prop where
  front : ∀ {a b}, Fits (a ++ b) → Fits a
  batch : ∀ {done batch}, Fits (done ++ batch) → Triple (Done done)
    (appendAndApplyReconciliationBatchLocked E batch) (fun _ => Done (done ++ batch)) Fails

/-- Between two batches the index is known from what was appended to the log. -/
structure IndexRule (E : LogEnv) (live : MempoolIndex) (Fits : List ObservedEvent → Prop)
    (Done : List ObservedEvent → OwnerSystem → Prop) (Fails : Status → OwnerSystem → Prop) : Prop
    extends BatchRule E Fits Done Fails where
  ownIds : ∀ {events s}, Done events s → s.owner.index.OwnIds
  entries : ∀ {events s}, Done events s →
    s.owner.index.entryMap = replayFrom live.entryMap (changes events)

variable {Fits : List ObservedEvent → Prop}
  {Done : List ObservedEvent → OwnerSystem → Prop} {Fails : Status → OwnerSystem → Prop}

theorem BatchRule.appendTransitionBatches (rule : BatchRule E Fits Done Fails)
    (batchEvents batchTarget : Nat) {done batch transitions : List ObservedEvent} (batchBytes : Nat)
    (hfits : Fits (done ++ (batch ++ transitions))) :
    Triple (Done done)
      (Mempool.appendTransitionBatches E batchEvents batchTarget batch batchBytes transitions)
      (fun _ => Done (done ++ (batch ++ transitions))) Fails := by
  induction transitions generalizing done batch batchBytes with
  | nil =>
    rw [append_nil] at hfits ⊢
    unfold Mempool.appendTransitionBatches
    by_cases hempty : batch = []
    · subst hempty
      rw [append_nil]
      exact Triple.ret fun s hs => hs
    · rw [if_neg hempty]
      exact rule.batch hfits
  | cons transition rest ih =>
    unfold Mempool.appendTransitionBatches
    dsimp only
    split
    · -- The batch is full: it is appended, and the transition starts the next one.
      rw [← append_assoc] at hfits ⊢
      exact Triple.bind (rule.batch (rule.front hfits)) fun _ => ih _ hfits
    · have hassoc : batch ++ transition :: rest = (batch ++ [transition]) ++ rest := by simp
      rw [hassoc] at hfits ⊢
      exact ih _ hfits

theorem BatchRule.appendTransitions (rule : BatchRule E Fits Done Fails) (batchEvents : Nat)
    {done transitions : List ObservedEvent} (hfits : Fits (done ++ transitions)) :
    Triple (Done done) (appendAndApplyReconciliationTransitionsLocked E batchEvents transitions)
      (fun _ => Done (done ++ transitions)) Fails :=
  Triple.get_bind fun _ hs => (rule.appendTransitionBatches batchEvents _ 0 hfits).start hs

/-! ## The events of a reconciliation -/

section Events

variable {live : MempoolIndex} {entries : List MempoolEntry} {id : TransactionId}

theorem isInMempool_eq (index : MempoolIndex) (id : TransactionId) :
    index.isInMempool id = (index.entryMap id).isSome := contains_eq_isSome id

theorem length_entriesAfter_none (index : MempoolIndex) :
    (index.entriesAfter none).length = index.entries.toList.length := by
  simp [MempoolIndex.entriesAfter]

theorem removals_append (a b : List MempoolEntry) :
    removals staged clock (a ++ b) = removals staged clock a ++ removals staged clock b := by
  simp [removals]

theorem additions_append (a b : List MempoolEntry) :
    additions live (a ++ b) = additions live a ++ additions live b := by
  simp [additions]

theorem transactionId_removalOf (hsound : staged.Sound) (id : TransactionId) :
    (removalOf staged clock id).1.transactionId = id := by
  rw [← MempoolEvent.change_key, removalOf_change hsound]

theorem removals_ids (hsound : staged.Sound) (entries : List MempoolEntry) :
    (removals staged clock entries).map (fun event => event.1.transactionId) =
      (entries.filter fun e => !staged.index.isInMempool e.transactionId).map
        MempoolEntry.transactionId := by
  rw [removals, map_map]
  refine map_congr_left fun e _ => ?_
  exact transactionId_removalOf hsound e.transactionId

theorem additions_ids (entries : List MempoolEntry) :
    (additions live entries).map (fun event => event.1.transactionId) =
      (entries.filter fun e => !live.isInMempool e.transactionId).map MempoolEntry.transactionId := by
  rw [additions, map_map]
  rfl

theorem mem_missing_ids {index other : MempoolIndex} (hids : index.OwnIds) (id : TransactionId) :
    id ∈ ((index.entriesAfter none).filter fun e => !other.isInMempool e.transactionId).map
        MempoolEntry.transactionId ↔ index.entryMap id ≠ none ∧ other.entryMap id = none := by
  simp only [mem_map, mem_filter, MempoolIndex.mem_entriesAfter hids, behind_none,
    and_true, isInMempool_eq, Bool.not_eq_true', Option.isSome_eq_false_iff,
    Option.isNone_iff_eq_none]
  constructor
  · rintro ⟨e, ⟨he, hother⟩, rfl⟩
    exact ⟨by rw [he]; exact Option.some_ne_none e, hother⟩
  · rintro ⟨hlisted, hother⟩
    obtain ⟨e, he⟩ := Option.ne_none_iff_exists'.mp hlisted
    have hid := hids id e he
    subst hid
    exact ⟨e, ⟨he, hother⟩, rfl⟩

theorem nodup_missing_ids {index other : MempoolIndex} (hids : index.OwnIds) :
    (((index.entriesAfter none).filter fun e => !other.isInMempool e.transactionId).map
      MempoolEntry.transactionId).Nodup := by
  refine pairwise_map.mpr (((MempoolIndex.pairwise_entriesAfter hids none).filter _).imp ?_)
  intro x y hlt heq
  rw [heq] at hlt
  exact not_lt_self _ hlt

theorem key_changes (events : List ObservedEvent) :
    (changes events).map Change.key = events.map fun event => event.1.transactionId := by
  simp [changes, MempoolEvent.change_key]

theorem mem_removals_key (hsound : staged.Sound)
    (h : id ∈ (changes (removals staged clock entries)).map Change.key) :
    id ∈ entries.map MempoolEntry.transactionId ∧ staged.index.entryMap id = none := by
  rw [key_changes, removals_ids hsound] at h
  obtain ⟨e, he, rfl⟩ := mem_map.mp h
  obtain ⟨hmem, hlacks⟩ := mem_filter.mp he
  rw [isInMempool_eq, Bool.not_eq_true', Option.isSome_eq_false_iff, Option.isNone_iff_eq_none]
    at hlacks
  exact ⟨mem_map_of_mem hmem, hlacks⟩

theorem mem_additions_key (h : id ∈ (changes (additions live entries)).map Change.key) :
    id ∈ entries.map MempoolEntry.transactionId := by
  rw [key_changes, additions_ids] at h
  exact map_subset _ (filter_subset_self _) h

theorem additions_congr {live' : MempoolIndex}
    (h : ∀ e ∈ entries, live'.entryMap e.transactionId = live.entryMap e.transactionId) :
    additions live' entries = additions live entries := by
  unfold additions
  rw [filter_congr fun e he => ?_]
  rw [isInMempool_eq, isInMempool_eq, h e he]

/-- The removals take out what the snapshot lacks. -/
theorem replay_removals (hsound : staged.Sound) (hids : live.OwnIds) (id : TransactionId) :
    replayFrom live.entryMap (changes (removals staged clock (live.entriesAfter none))) id =
      if staged.index.entryMap id = none then none else live.entryMap id := by
  have hnodup : ((changes (removals staged clock (live.entriesAfter none))).map Change.key).Nodup := by
    rw [key_changes, removals_ids hsound]
    exact nodup_missing_ids hids
  by_cases hmem : id ∈ (changes (removals staged clock (live.entriesAfter none))).map Change.key
  · rw [if_pos (mem_removals_key hsound hmem).2]
    obtain ⟨c, hc, rfl⟩ := mem_map.mp hmem
    rw [replayFrom_of_mem hnodup hc]
    obtain ⟨event, hevent, rfl⟩ := mem_map.mp hc
    obtain ⟨e, _, rfl⟩ := mem_map.mp hevent
    rw [removalOf_change hsound]
  · rw [replayFrom_of_untouched hmem]
    rw [key_changes, removals_ids hsound, mem_missing_ids hids] at hmem
    split
    · next hlacks => exact not_not.mp fun hlive => hmem ⟨hlive, hlacks⟩
    · rfl

/-- The additions put in what the live index lacks. -/
theorem replay_additions (hids : staged.index.OwnIds) (m : TransactionId → Option MempoolEntry)
    (id : TransactionId) :
    replayFrom m (changes (additions live (staged.index.entriesAfter none))) id =
      if staged.index.entryMap id ≠ none ∧ live.entryMap id = none then staged.index.entryMap id
      else m id := by
  have hnodup : ((changes (additions live (staged.index.entriesAfter none))).map Change.key).Nodup := by
    rw [key_changes, additions_ids]
    exact nodup_missing_ids hids
  have hkeys : id ∈ (changes (additions live (staged.index.entriesAfter none))).map Change.key ↔
      staged.index.entryMap id ≠ none ∧ live.entryMap id = none := by
    rw [key_changes, additions_ids, mem_missing_ids hids]
  split
  · next hnew =>
    obtain ⟨c, hc, rfl⟩ := mem_map.mp (hkeys.mpr hnew)
    rw [replayFrom_of_mem hnodup hc]
    obtain ⟨event, hevent, rfl⟩ := mem_map.mp hc
    obtain ⟨e, he, rfl⟩ := mem_map.mp hevent
    exact ((MempoolIndex.mem_entriesAfter hids).mp (mem_of_mem_filter he)).1.symm
  · next hold => rw [replayFrom_of_untouched fun hmem => hold (hkeys.mp hmem)]

/-- After its removals and additions the live index has the transactions of the snapshot. -/
theorem reconciled_ids (hsound : staged.Sound) (hids : live.OwnIds) (id : TransactionId) :
    (replayFrom (replayFrom live.entryMap
        (changes (removals staged clock (live.entriesAfter none))))
      (changes (additions live (staged.index.entriesAfter none))) id).isSome =
        (staged.index.entryMap id).isSome := by
  rw [replay_additions hsound.coherent.transactionId, replay_removals hsound hids]
  cases hstaged : staged.index.entryMap id with
  | none => simp
  | some e => cases hlive : live.entryMap id <;> simp

end Events

/-! ## Pages -/

section Pages

variable {live : MempoolIndex}

def RemovedUpTo (Done : List ObservedEvent → OwnerSystem → Prop) (staged : StagedMempoolGeneration)
    (clock : TransactionId → U64) (live : MempoolIndex) (after : Option TransactionId)
    (s : OwnerSystem) : Prop :=
  ∃ done, done ++ s.owner.index.entriesAfter after = live.entriesAfter none ∧
    Done (removals staged clock done) s

def AddedUpTo (Done : List ObservedEvent → OwnerSystem → Prop) (staged : StagedMempoolGeneration)
    (live : MempoolIndex) (after : Option TransactionId) (s : OwnerSystem) : Prop :=
  ∃ done, done ++ staged.index.entriesAfter after = staged.index.entriesAfter none ∧
    Done (additions live done) s

theorem IndexRule.removedTurn (rule : IndexRule E live Fits Done Fails) (hpos : 0 < pageSize)
    (batchEvents : Nat) (hsound : staged.Sound)
    (hall : Fits (removals staged clock (live.entriesAfter none))) (after : Option TransactionId)
    (n : Nat) :
    Triple (fun s => RemovedUpTo Done staged clock live after s ∧
        (s.owner.index.entriesAfter after).length = n)
      (reconcileRemovedTurn E pageSize batchEvents staged clock after)
      (AfterTurn (RemovedUpTo Done staged clock live)
        (fun after s => (s.owner.index.entriesAfter after).length) n
        (Done (removals staged clock (live.entriesAfter none)))) Fails := by
  refine Triple.get_bind ?_
  rintro s ⟨⟨done, hdone, hs⟩, rfl⟩
  have hids := rule.ownIds hs
  dsimp only
  rw [MempoolIndex.entries_snapshotPage]
  cases hlast : ((s.owner.index.entriesAfter after).take pageSize).getLast? with
  | none =>
    refine Triple.ret ?_
    rintro t rfl
    rw [getLast?_take_eq_none hpos hlast, append_nil] at hdone
    rw [← hdone]
    exact hs
  | some last =>
    have hsplit : live.entriesAfter none = (done ++ (s.owner.index.entriesAfter after).take pageSize)
        ++ (s.owner.index.entriesAfter after).drop pageSize := by
      rw [append_assoc, take_append_drop, hdone]
    rw [hsplit, removals_append, removals_append] at hall
    refine Triple.bind ((rule.appendTransitions batchEvents (rule.front hall)).start hs) fun _ =>
      Triple.ret fun t ht => ?_
    -- The page's removals leave what stands behind the page.
    have hrest : t.owner.index.entriesAfter (some last.transactionId) =
        (s.owner.index.entriesAfter after).drop pageSize := by
      rw [← MempoolIndex.entriesAfter_last hids hlast]
      refine MempoolIndex.entriesAfter_congr hids (rule.ownIds ht) fun id hbehind => ?_
      rw [rule.entries ht, rule.entries hs, changes_append, replayFrom_append,
        replayFrom_of_untouched fun hmem => MempoolIndex.notMem_page hids hlast hbehind
          (mem_removals_key hsound hmem).1]
    rw [← removals_append] at ht
    unfold turnAfter
    split
    · next hnext =>
      have hempty := MempoolIndex.next_eq_none hids hlast hnext
      rw [MempoolIndex.entriesAfter_last hids hlast] at hempty
      rw [hempty, append_nil] at hsplit
      rw [AfterTurn, hsplit]
      exact ht
    · refine ⟨⟨_, ?_, ht⟩, ?_⟩
      · rw [hrest, hsplit]
      · dsimp only
        rw [hrest, ← MempoolIndex.entriesAfter_last hids hlast]
        exact MempoolIndex.length_entriesAfter_last hids hpos hlast

theorem IndexRule.addedTurn (rule : IndexRule E live Fits Done Fails) (hpos : 0 < pageSize)
    (batchEvents : Nat) (hids : staged.index.OwnIds)
    (hall : Fits (additions live (staged.index.entriesAfter none))) (after : Option TransactionId)
    (n : Nat) :
    Triple (fun s => AddedUpTo Done staged live after s ∧
        (staged.index.entriesAfter after).length = n)
      (reconcileAddedTurn E pageSize batchEvents staged after)
      (AfterTurn (AddedUpTo Done staged live)
        (fun after _ => (staged.index.entriesAfter after).length) n
        (Done (additions live (staged.index.entriesAfter none)))) Fails := by
  refine Triple.get_bind ?_
  rintro s ⟨⟨done, hdone, hs⟩, rfl⟩
  dsimp only
  rw [MempoolIndex.entries_snapshotPage]
  cases hlast : ((staged.index.entriesAfter after).take pageSize).getLast? with
  | none =>
    refine Triple.ret ?_
    rintro t rfl
    rw [getLast?_take_eq_none hpos hlast, append_nil] at hdone
    rw [← hdone]
    exact hs
  | some last =>
    have hsplit : staged.index.entriesAfter none =
        (done ++ (staged.index.entriesAfter after).take pageSize) ++
          (staged.index.entriesAfter after).drop pageSize := by
      rw [append_assoc, take_append_drop, hdone]
    -- The page is new to the loop, so it is as live as it was at the start.
    have hpage : additions s.owner.index ((staged.index.entriesAfter after).take pageSize) =
        additions live ((staged.index.entriesAfter after).take pageSize) := by
      refine additions_congr fun e he => ?_
      rw [rule.entries hs, replayFrom_of_untouched fun hmem => ?_]
      obtain ⟨e', he', hid⟩ := mem_map.mp (mem_additions_key hmem)
      have hsorted := MempoolIndex.pairwise_entriesAfter hids none
      rw [hsplit] at hsorted
      have hlt := (pairwise_append.mp (pairwise_append.mp hsorted).1).2.2 e' he' e he
      rw [hid] at hlt
      exact not_lt_self _ hlt
    rw [hsplit, additions_append, additions_append] at hall
    rw [hpage]
    refine Triple.bind ((rule.appendTransitions batchEvents (rule.front hall)).start hs) fun _ =>
      Triple.ret fun t ht => ?_
    rw [← additions_append] at ht
    have hrest := MempoolIndex.entriesAfter_last hids hlast
    unfold turnAfter
    split
    · next hnext =>
      rw [← hrest, MempoolIndex.next_eq_none hids hlast hnext, append_nil] at hsplit
      rw [AfterTurn, hsplit]
      exact ht
    · refine ⟨⟨_, ?_, ht⟩, ?_⟩
      · rw [hrest, hsplit]
      · exact MempoolIndex.length_entriesAfter_last hids hpos hlast

/-- Every removal and then every addition is appended, whatever the limits are. -/
theorem IndexRule.reconcileOf {s₀ : OwnerSystem} (rule : IndexRule E s₀.owner.index Fits Done Fails)
    (hstart : Done [] s₀) (hpos : 0 < pageSize) (batchEvents : Nat) (hsound : staged.Sound)
    (hremovals : Fits (removals staged clock (s₀.owner.index.entriesAfter none)))
    {Q : OwnerSystem → Prop}
    (hadditions : ∀ s, Done (removals staged clock (s₀.owner.index.entriesAfter none)) s →
      ∃ Fits' Done', IndexRule E s.owner.index Fits' Done' Fails ∧ Done' [] s ∧
        Fits' (additions s₀.owner.index (staged.index.entriesAfter none)) ∧
        ∀ t, Done' (additions s₀.owner.index (staged.index.entriesAfter none)) t → Q t) :
    Triple (fun s => s = s₀) (Mempool.reconcileOf E pageSize batchEvents staged clock)
      (fun _ => Q) Fails := by
  have hids := hsound.coherent.transactionId
  refine Triple.bind (Q := fun _ => Done (removals staged clock (s₀.owner.index.entriesAfter none)))
    ?_ fun _ => Triple.of_states fun s hs => ?_
  · refine Triple.get_bind ?_
    rintro s rfl
    refine Triple.bind (Triple.start (Triple.repeatTurns _ _
      (rule.removedTurn hpos batchEvents hsound hremovals) _ none) ⟨⟨[], rfl, hstart⟩, ?_⟩)
      fun _ => Triple.ret fun _ => AfterLoop.goal
    rw [length_entriesAfter_none]
    exact Nat.lt_succ_self _
  · obtain ⟨Fits', Done', rule', hstart', hfits, hdone⟩ := hadditions s hs
    -- The removals took nothing that the snapshot has.
    have hsame : additions s.owner.index (staged.index.entriesAfter none) =
        additions s₀.owner.index (staged.index.entriesAfter none) := by
      refine additions_congr fun e he => ?_
      rw [rule.entries hs, replayFrom_of_untouched fun hmem => ?_]
      have hlacks := (mem_removals_key hsound hmem).2
      rw [((MempoolIndex.mem_entriesAfter hids).mp he).1] at hlacks
      cases hlacks
    rw [← hsame] at hfits hdone
    refine Triple.bind (Triple.start (Triple.repeatTurns _ _
      (rule'.addedTurn hpos batchEvents hids hfits) _ none) ⟨⟨[], rfl, hstart'⟩, ?_⟩)
      fun _ => Triple.ret fun t ht => hdone t ht.goal
    rw [length_entriesAfter_none]
    exact Nat.lt_succ_self _

end Pages

end Zinder.Mempool
