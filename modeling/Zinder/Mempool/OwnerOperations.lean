import Zinder.Mempool.OwnerInvariant

/-!
# Zinder.Mempool.OwnerOperations

Triples for the owner's operations: source transitions while serving and while hydrating, and the
reconciliation of a complete source snapshot.

Reconciliation checks every transition of a batch against the live index before any of them is
appended. The transitions of a page are independent of each other (`removals_independent`,
`additions_independent`), so the batch the log gets can be applied in order.
-/

namespace Zinder.Mempool

open LogHolds (envelopesFrom)
open List
open KeyedLog Stateful

variable {E : LogEnv} {settled : Prop}

/-! ## Updates that the invariant does not see -/

theorem Ready.setStatus {s : OwnerSystem} (h : Ready E settled s) (status : MempoolOwnerStatus) :
    Ready E settled { s with owner := { s.owner with status } } :=
  ⟨⟨h.1.writer, h.1.coherent, h.1.entries, h.1.staged⟩, h.2⟩

theorem Ready.setStaged {s : OwnerSystem} (h : Ready E settled s)
    {stagedGeneration : Option StagedMempoolGeneration}
    (hsound : ∀ staged, stagedGeneration = some staged → staged.Sound) :
    Ready E settled { s with owner := { s.owner with stagedGeneration } } :=
  ⟨⟨h.1.writer, h.1.coherent, h.1.entries, hsound⟩, h.2⟩

/-! ## Serving -/

variable (event : MempoolEvent) (observedAt : U64)

theorem appendAndApplyLocked_keeps :
    Triple (Ready E settled) (appendAndApplyLocked E event observedAt)
      (fun _ s => Ready E settled s) (fun _ s => Failed E settled s) := by
  refine Triple.get_bind fun s hs => ?_
  refine Triple.bind (preflightOrRebuild_spec fun _ _ _ => (hs.setStatus _).failed) fun p => ?_
  cases p with
  | noChange =>
    refine Triple.ret ?_
    rintro t ⟨rfl, _⟩
    exact hs
  | apply =>
    refine Triple.bind (Triple.pre
      (append_request (answersAppend_appendEvent (event, observedAt)) s.writer.log) ?_)
      fun envelope => ?_
    · rintro t ⟨rfl, hpreflight⟩
      rw [preflightEvent_eq_apply hs.1.coherent, hs.1.entries] at hpreflight
      exact ⟨hs, rfl, hpreflight, applies_nil⟩
    · refine Triple.bind (Triple.pre (apply_pending (event, observedAt) envelope.position _)
        (fun t ht => ht.2)) fun _ => ?_
      exact Triple.ret fun t ht => ht.ready

/-! ## Reconciliation batches -/

/-- Transitions that each change something pass their preflights, or the index is withdrawn. -/
theorem preflightTransitions_spec {index : MempoolIndex} {transitions : List ObservedEvent}
    {s : OwnerSystem} {R : Status → OwnerSystem → Prop}
    (hmoves : ∀ event ∈ transitions, index.preflightEvent event.1 ≠ .ok .noChange)
    (hfail : ∀ event ∈ transitions, ∀ error, index.preflightEvent event.1 = .error error →
      ∀ status, R status (s.withStatus .rebuildRequired)) :
    Triple (fun t => t = s) (preflightTransitions index transitions)
      (fun applicable t => t = s ∧ applicable = transitions ∧
        ∀ event ∈ transitions, index.preflightEvent event.1 = .ok .apply) R := by
  induction transitions with
  | nil => exact Triple.ret fun t ht => ⟨ht, rfl, by simp⟩
  | cons event rest ih =>
    rw [forall_mem_cons] at hmoves hfail
    refine Triple.bind (preflightOrRebuild_spec hfail.1) fun p => Triple.of_states ?_
    rintro t ⟨rfl, hp⟩
    refine Triple.bind (ih hmoves.2 hfail.2) fun applicable => Triple.ret ?_
    rintro t ⟨rfl, rfl, hall⟩
    cases p with
    | apply => exact ⟨rfl, if_pos rfl, forall_mem_cons.mpr ⟨hp, hall⟩⟩
    | noChange => exact absurd hp hmoves.1

theorem applyEnvelopes_keeps (log : List ObservedEvent) {events : List ObservedEvent}
    {envelopes : List MempoolEventEnvelope}
    (henvelopes : envelopes.map MempoolEventEnvelope.observed = events) :
    Triple (Pending E settled log events) (applyEnvelopes envelopes)
      (fun _ s => Ready E settled s ∧ s.owner.index.entryMap = liveEntries (log ++ events))
      (fun _ s => Failed E settled s) := by
  induction envelopes generalizing log events with
  | nil =>
    subst henvelopes
    refine Triple.ret fun s hs => ⟨hs.ready, ?_⟩
    rw [map_nil, append_nil]
    exact hs.entries
  | cons envelope rest ih =>
    subst henvelopes
    refine Triple.bind (apply_pending envelope.observed envelope.position _) fun _ => ?_
    have hrest := ih (log ++ [envelope.observed]) rfl
    rw [append_assoc] at hrest
    exact hrest

/-- A batch of independent transitions that each change something: the log and the index get all of
them, unless the batch fails. -/
theorem reconciliationBatch_keeps {transitions : List ObservedEvent}
    (hindependent : transitions.Pairwise fun a b => Independent a.1 b.1)
    {m : TransactionId → Option MempoolEntry} (hmoves : ∀ event ∈ transitions,
      ¬ ((m event.1.transactionId).isSome ↔ event.1.change.value ≠ none)) :
    Triple (fun s => Ready E settled s ∧ s.owner.index.entryMap = m)
      (appendAndApplyReconciliationBatchLocked E transitions)
      (fun _ s => Ready E settled s ∧ s.owner.index.entryMap = replayFrom m (changes transitions))
      (fun _ s => Failed E settled s) := by
  refine Triple.get_bind ?_
  rintro s ⟨hs, rfl⟩
  refine Triple.bind (preflightTransitions_spec
    (fun event hmem hp => hmoves event hmem (preflightEvent_eq_noChange.mp hp))
    fun _ _ _ _ _ => (hs.setStatus _).failed) fun applicable => Triple.of_states ?_
  rintro t ⟨rfl, rfl, hall⟩
  by_cases hempty : applicable = []
  · subst hempty
    refine Triple.ret ?_
    rintro t rfl
    exact ⟨hs, rfl⟩
  · rw [if_neg hempty]
    have happlies : Applies (liveEntries t.writer.log) applicable := by
      refine applies_of_independent (fun event hmem => ?_) hindependent
      rw [← hs.1.entries, ← preflightEvent_eq_apply hs.1.coherent]
      exact hall event hmem
    refine Triple.bind ((append_request (answersAppend_appendEvents _) t.writer.log).start
      ⟨hs, rfl, happlies⟩) fun envelopes => Triple.of_states ?_
    rintro u ⟨rfl, hpending⟩
    rw [if_neg (by simp [envelopesFrom])]
    refine Triple.post ((applyEnvelopes_keeps t.writer.log (observed_envelopesFrom E _ _)).start
      hpending) ?_
    rintro _ v ⟨hv, hentries⟩
    refine ⟨hv, ?_⟩
    rw [hentries, liveEntries, changes_append, replay_append, hs.1.entries]
    rfl

/-! ## Staging -/

theorem StagedMempoolGeneration.sound_new : StagedMempoolGeneration.new.Sound where
  coherent := MempoolIndex.coherent_new
  terminal id event h := by simp [new] at h

variable {id : TransactionId} {staged : StagedMempoolGeneration}

theorem StagedMempoolGeneration.Sound.insertTerminal (h : staged.Sound) {event : ObservedEvent}
    (hevent : event.1.change = ⟨id, none⟩) :
    { staged with terminalEvents := staged.terminalEvents.insert id event }.Sound := by
  refine ⟨h.coherent, fun id' event' h' => ?_⟩
  rw [Std.ExtTreeMap.getElem?_insert] at h'
  split at h'
  · next heq =>
    have hid : id = id' := Std.LawfulEqCmp.eq_of_compare heq
    cases h'
    rw [← hid]
    exact hevent
  · exact h.terminal id' event' h'

theorem StagedMempoolGeneration.Sound.noteTerminalEvent (h : staged.Sound) (event : ObservedEvent) :
    (staged.noteTerminalEvent event).Sound := by
  obtain ⟨event, observedAt⟩ := event
  cases event with
  | added entry =>
    refine ⟨h.coherent, fun id event' h' => h.terminal id event' ?_⟩
    simp only [StagedMempoolGeneration.noteTerminalEvent, Std.ExtTreeMap.getElem?_erase] at h'
    split at h'
    · cases h'
    · exact h'
  | invalidated id reason => exact h.insertTerminal rfl
  | mined id height hash => exact h.insertTerminal rfl

theorem StagedMempoolGeneration.nextPosition_index {staged staged' : StagedMempoolGeneration}
    {position : MempoolEventPosition} (h : staged.nextPosition id = .ok (position, staged')) :
    staged'.index = staged.index ∧ staged'.terminalEvents = staged.terminalEvents := by
  simp only [nextPosition, bind_eq_ok, okOr_eq_ok] at h
  obtain ⟨sequence, _, heq⟩ := h
  cases heq
  exact ⟨rfl, rfl⟩

theorem stageEventLocked_keeps :
    Triple (Ready E settled) (stageEventLocked event observedAt) (fun _ s => Ready E settled s)
      (fun _ s => Failed E settled s) := by
  refine Triple.get_bind fun s hs => ?_
  cases hstaged : s.owner.stagedGeneration with
  | none =>
    refine Triple.fail ?_
    rintro t rfl
    exact hs.failed
  | some staged =>
    have hsound := (hs.1.staged staged hstaged).noteTerminalEvent (event, observedAt)
    dsimp only
    refine Triple.bind (Q := fun _ => Ready E settled) (Triple.update ?_) fun _ => ?_
    · rintro t rfl
      refine hs.setStaged fun staged' h' => ?_
      cases h'
      exact hsound
    refine Triple.of_states fun t ht => ?_
    refine Triple.bind (preflightOrRebuild_spec fun _ _ _ => (ht.setStatus _).failed) fun p =>
      Triple.of_states ?_
    rintro t ⟨rfl, hp⟩
    cases p with
    | noChange =>
      refine Triple.ret ?_
      rintro t rfl
      exact ht
    | apply =>
      rw [preflightEvent_eq_apply hsound.coherent] at hp
      rw [if_neg (by decide)]
      split
      · refine Triple.fail ?_
        rintro t rfl
        exact ht.failed
      · next position staged' hnext =>
        obtain ⟨hindex, hterminal⟩ := StagedMempoolGeneration.nextPosition_index hnext
        rw [← hindex] at hp
        have hcoherent : staged'.index.Coherent := by
          rw [hindex]
          exact hsound.coherent
        obtain ⟨houtcome, hcoherent', _⟩ := applyToIndex_applicable hcoherent hp position
        rcases hrun : applyToIndex staged'.index event position with ⟨outcome, index⟩
        rw [hrun] at houtcome hcoherent'
        cases houtcome
        refine Triple.bind (Q := fun _ => Ready E settled) (Triple.update ?_) fun _ => Triple.ret
          fun _ h => h
        rintro t rfl
        refine ht.setStaged fun staged'' h' => ?_
        cases h'
        refine ⟨hcoherent', ?_⟩
        rw [hterminal]
        exact hsound.terminal

theorem applyEvent_keeps :
    Triple (Ready E settled) (applyEvent E event observedAt) (fun _ s => Ready E settled s)
      (fun _ s => Failed E settled s) := by
  refine Triple.get_bind fun s hs => ?_
  have hstart : ∀ t, t = s → Ready E settled t := by
    rintro t rfl
    exact hs
  cases s.owner.status with
  | hydrating =>
    exact Triple.pre (stageEventLocked_keeps event observedAt) hstart
  | serving sourceTip certifiedAt =>
    exact Triple.pre (appendAndApplyLocked_keeps event observedAt) hstart
  | rebuildRequired => exact Triple.fail fun t ht => (hstart t ht).failed

theorem beginHydration_keeps :
    Triple (Ready E settled) beginHydration (fun _ s => Ready E settled s)
      (fun _ s => Failed E settled s) := by
  refine Triple.bind (Q := fun _ => Ready E settled) (Triple.update fun s hs => hs.setStaged ?_)
    fun _ => Triple.update fun s hs => hs.setStatus _
  intro staged h
  cases h
  exact StagedMempoolGeneration.sound_new

theorem withdrawForRebuild_keeps :
    Triple (Ready E settled) withdrawForRebuild (fun _ s => Ready E settled s)
      (fun _ s => Failed E settled s) := by
  refine Triple.bind (Q := fun _ => Ready E settled) (Triple.update fun s hs => hs.setStaged ?_)
    fun _ => Triple.update fun s hs => hs.setStatus _
  intro staged h
  cases h

/-! ## Independent transitions -/

theorem independent_of_removal {a b : MempoolEvent} (ha : a.change = ⟨id, none⟩)
    (hne : id ≠ b.transactionId) : Independent a b := by
  have hid : a.transactionId = id := congrArg Change.key ha
  refine ⟨by rw [hid]; exact hne, ?_⟩
  rintro x y rfl _
  cases ha

theorem removalOf_change (h : staged.Sound) (clock : TransactionId → U64) (id : TransactionId) :
    (removalOf staged clock id).1.change = ⟨id, none⟩ := by
  unfold removalOf
  cases hterminal : staged.terminalEvents[id]? with
  | none => rfl
  | some event => exact h.terminal id event hterminal

theorem removals_independent (h : staged.Sound) (clock : TransactionId → U64)
    {entries : List MempoolEntry}
    (hsorted : entries.Pairwise fun x y => compare x.transactionId y.transactionId = .lt) :
    (removals staged clock entries).Pairwise fun a b => Independent a.1 b.1 := by
  refine pairwise_map.mpr ((hsorted.filter _).imp fun {x y} hlt => ?_)
  refine independent_of_removal (removalOf_change h clock x.transactionId) ?_
  have hy := congrArg Change.key (removalOf_change h clock y.transactionId)
  rw [MempoolEvent.change_key] at hy
  rw [hy]
  intro heq
  rw [heq] at hlt
  exact not_lt_self _ hlt

theorem additions_independent {staged : MempoolIndex} (h : staged.Coherent) (index : MempoolIndex)
    {entries : List MempoolEntry}
    (hsorted : entries.Pairwise fun x y => compare x.transactionId y.transactionId = .lt)
    (hentries : ∀ e ∈ entries, staged.entryMap e.transactionId = some e) :
    (additions index entries).Pairwise fun a b => Independent a.1 b.1 := by
  refine pairwise_map.mpr ((hsorted.filter _).imp_of_mem fun {x y} hx hy hlt => ?_)
  have hne : x.transactionId ≠ y.transactionId := by
    intro heq
    rw [heq] at hlt
    exact not_lt_self _ hlt
  refine ⟨hne, ?_⟩
  rintro x' y' hx' hy' o hoy hox
  cases hx'
  cases hy'
  have hspender := (h.spends o x.transactionId).mpr
    ⟨x, hentries x (mem_of_mem_filter hx), hox⟩
  have hspender' := (h.spends o y.transactionId).mpr
    ⟨y, hentries y (mem_of_mem_filter hy), hoy⟩
  rw [hspender] at hspender'
  exact hne (Option.some.inj hspender')

end Zinder.Mempool
