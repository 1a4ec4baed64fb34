import Zinder.ChainEvents.Cursors

/-!
# Zinder.ChainEvents.Resume

Where a page of chain events starts, and what it holds.

A resume position never lies below the retention floor (`floor_le_startSequence`), so the page after it
is a piece of what the retained events give (`walletChainEventHistory_eq`). The cursor of a retained
event resumes right after it, and the cursor of a synthetic reorg resumes at the floor.
-/

namespace Zinder.ChainEvents

open Canonical Format List
open Mempool (CursorAuthority StreamCursorTokenV1)

/-! ## Resume positions -/

section Positions

variable {D : Type} {A : CursorAuthority} {s : PrimaryStore D} {payload : ChainEventCursorPayload}
  {forkPoint : ChainEventCursorAnchor} {epoch : ChainEpoch} {current oldest : Nat}
  {resume : WalletEventResume}

theorem nextSequence_eq_ok {next : Nat} :
    nextSequence payload = .ok next ↔
      payload.eventSequence + 1 < u64Bound ∧ next = payload.eventSequence + 1 := by
  rw [nextSequence, okOr_eq_ok, checkedAdd_eq_some]
  exact and_congr_right fun _ => eq_comm

theorem resumeAtForkPoint_cases
    (h : resumeAtForkPoint A s payload forkPoint epoch oldest = .ok resume) :
    resume = ⟨payload.eventSequence + 1, payload.family, none⟩ ∧
        oldest ≤ payload.eventSequence + 1 ∨
      ∃ reorg, syntheticReorg A s payload forkPoint epoch oldest = .ok reorg ∧
        payload.eventSequence < oldest ∧ resume = ⟨oldest, payload.family, some reorg⟩ := by
  simp only [resumeAtForkPoint] at h
  split at h
  · simp only [bind_eq_ok, nextSequence_eq_ok, rejectIf_eq_ok, Except.ok.injEq] at h
    obtain ⟨_, ⟨_, rfl⟩, _, hfloor, rfl⟩ := h
    exact .inl ⟨rfl, Nat.not_lt.mp hfloor⟩
  · split at h
    · cases h
    · split at h
      · next hle =>
        simp only [bind_eq_ok, nextSequence_eq_ok, Except.ok.injEq] at h
        obtain ⟨_, ⟨_, rfl⟩, rfl⟩ := h
        exact .inl ⟨rfl, Nat.le_succ_of_le hle⟩
      · next hlt =>
        simp only [bind_eq_ok, Except.ok.injEq] at h
        obtain ⟨reorg, hreorg, rfl⟩ := h
        exact .inr ⟨reorg, hreorg, Nat.not_le.mp hlt, rfl⟩

variable {family : ChainEventStreamFamily}

variable {cursor : StreamCursorTokenV1}

/-- A cursor resumes at the first entry of its locator that is still visible. -/
theorem walletEventResume_eq_ok :
    walletEventResume A s (some cursor) family current oldest = .ok resume ↔
      ∃ payload forkPoint epoch, decodeCursor A cursor = .ok payload ∧
        payload.eventSequence ≠ 0 ∧ payload.eventSequence ≤ current ∧
        chainEpochAt s.canonical.db s.canonical.readyEvidence.visibleEpoch = .ok epoch ∧
        (entries payload.locator).find? (onVisibleChain s.canonical.db) = some forkPoint ∧
        resumeAtForkPoint A s payload forkPoint epoch oldest = .ok resume := by
  simp only [walletEventResume, bind_eq_ok, rejectIf_eq_ok, okOr_eq_ok, not_or, Nat.not_lt]
  constructor
  · rintro ⟨payload, hdecode, _, ⟨hne, hle⟩, epoch, hepoch, forkPoint, hfork, hresume⟩
    exact ⟨payload, forkPoint, epoch, hdecode, hne, hle, hepoch, hfork, hresume⟩
  · rintro ⟨payload, forkPoint, epoch, hdecode, hne, hle, hepoch, hfork, hresume⟩
    exact ⟨payload, hdecode, (), ⟨hne, hle⟩, epoch, hepoch, forkPoint, hfork, hresume⟩

theorem floor_le_startSequence {cursor : Option StreamCursorTokenV1}
    (h : walletEventResume A s cursor family current oldest = .ok resume) :
    oldest ≤ resume.startSequence := by
  cases cursor with
  | none =>
    cases h
    exact Nat.le_refl _
  | some cursor =>
    obtain ⟨_, _, _, _, _, _, _, _, hresume⟩ := walletEventResume_eq_ok.mp h
    rcases resumeAtForkPoint_cases hresume with ⟨rfl, hle⟩ | ⟨_, _, _, rfl⟩
    · exact hle
    · exact Nat.le_refl _

theorem resume_of_tip (hdecode : decodeCursor A cursor = .ok payload)
    (hpos : payload.eventSequence ≠ 0) (hle : payload.eventSequence ≤ current)
    (hroom : payload.eventSequence + 1 < u64Bound)
    (hepoch : chainEpochAt s.canonical.db s.canonical.readyEvidence.visibleEpoch = .ok epoch)
    (htip : onVisibleChain s.canonical.db payload.locator.tip = true)
    (hfloor : oldest ≤ payload.eventSequence + 1) :
    walletEventResume A s (some cursor) family current oldest =
      .ok ⟨payload.eventSequence + 1, payload.family, none⟩ := by
  refine walletEventResume_eq_ok.mpr ⟨payload, payload.locator.tip, epoch, hdecode, hpos, hle, hepoch,
    find?_cons_of_pos htip, ?_⟩
  simp only [resumeAtForkPoint, if_true, nextSequence_eq_ok.mpr ⟨hroom, rfl⟩, ok_bind]
  rw [rejectIf_of_not (Nat.not_lt.mpr hfloor)]
  rfl

/-! ## Synthetic reorgs -/

/-- A minted cursor has a locator of its anchor and lower blocks. -/
theorem decodeCursor_mintAtAnchor {db : Db D} {sequence : Nat} {tip : ChainEventCursorAnchor}
    (h : mintWalletEventCursorAtAnchor A db family sequence tip = .ok cursor)
    (hsequence : sequence < u64Bound) (hheight : tip.height < u32Bound) :
    ∃ locator : ChainEventLocator, locator.tip = tip ∧
      decodeCursor A cursor = .ok ⟨family, sequence, locator⟩ := by
  simp only [mintWalletEventCursorAtAnchor, bind_eq_ok, mapError_ok_iff, chainEvent_eq,
    Except.ok.injEq] at h
  obtain ⟨found, hfound, locator, hlocator, rfl⟩ := h
  have hnew : locator.tip = tip ∧ locator.ancestors = found.filterMap id := by
    simp only [ChainEventLocator.new] at hlocator
    split at hlocator
    · cases hlocator
      exact ⟨rfl, rfl⟩
    · cases hlocator
  refine ⟨locator, hnew.1, decodeCursor_minted hsequence fun anchor hmem => ?_⟩
  rcases mem_cons.mp hmem with rfl | hmem
  · rw [hnew.1]
    exact hheight
  rw [hnew.2, mem_filterMap] at hmem
  obtain ⟨entry, hentry, hsome⟩ := hmem
  obtain ⟨height, hle, hread⟩ := exists_of_mem_collect hfound hentry
  simp only [locatorEntry, bind_eq_ok, Except.ok.injEq] at hread
  obtain ⟨_, _, rfl⟩ := hread
  simp only [id_eq, Option.map_eq_some_iff] at hsome
  obtain ⟨_, _, rfl⟩ := hsome
  exact (le_of_mem_locatorHeights hle).trans_lt hheight

theorem syntheticReorg_eq_ok {reorg : ChainEventEnvelope}
    (h : syntheticReorg A s payload forkPoint epoch oldest = .ok reorg) :
    mintWalletEventCursorAtAnchor A s.canonical.db payload.family (oldest - 1) forkPoint =
        .ok reorg.cursor ∧
      ∃ reverted committed, reorg.event = .chainReorged reverted committed := by
  simp only [syntheticReorg, bind_eq_ok, Except.ok.injEq] at h
  obtain ⟨_, _, _, _, _, _, _, hcursor, rfl⟩ := h
  exact ⟨hcursor, _, _, rfl⟩

end Positions

/-! ## Pages -/

variable {family : ChainEventStreamFamily}

/-- The page loop takes what the sequences project to, up to the size of a page. -/
theorem historyPage_eq {D : Type} {A : CursorAuthority} {db : Db D}
    {maxEvents : Nat} {project : Nat → List ChainEventEnvelope} {sequences : List Nat}
    (hproject : ∀ n ∈ sequences, projectEvent A db family n = .ok (project n))
    (hone : ∀ n, (project n).length ≤ 1) (hroom : ∀ n ∈ sequences, n + 1 < u64Bound)
    {envelopes : List ChainEventEnvelope} (hfits : envelopes.length ≤ maxEvents) :
    historyPage A db family maxEvents sequences envelopes =
      .ok ((envelopes ++ sequences.flatMap project).take maxEvents) := by
  induction sequences generalizing envelopes with
  | nil =>
    rw [historyPage, flatMap_nil, append_nil, take_of_length_le hfits]
  | cons n sequences ih =>
    rw [historyPage]
    by_cases hfull : maxEvents ≤ envelopes.length
    · rw [if_pos hfull, take_append_of_le_length hfull, take_of_length_le hfits]
    · have hadd : checkedAdd u64Bound n 1 = some (n + 1) :=
        checkedAdd_eq_some.mpr ⟨hroom n mem_cons_self, rfl⟩
      have hlength := hone n
      rw [if_neg hfull, hproject n mem_cons_self, ok_bind, hadd, okOr_some, ok_bind,
        ih (fun m hm => hproject m (mem_cons_of_mem _ hm))
          (fun m hm => hroom m (mem_cons_of_mem _ hm))
          (by rw [length_append]; omega),
        flatMap_cons, append_assoc]

/-- The times of the stored epochs are `u64` values. -/
def TimesFit {D : Type} (s : PrimaryStore D) : Prop :=
  ∀ id ≤ s.currentEventSequence, ∀ record ∈ s.canonical.db.lookup (Key.chainEpoch id),
    ChainEpochRecord.createdAt record < u64Bound

instance {D : Type} (s : PrimaryStore D) : Decidable (TimesFit s) :=
  inferInstanceAs (Decidable (∀ id ≤ s.currentEventSequence, ∀ record ∈ _, _ < u64Bound))

theorem TimesFit.past {D : Type} {E : Env D} {st : PrimaryState E} {floor : Nat}
    {past : List (HistoryEntry E)} (h : TimesFit st.primary)
    (inv : HistoryInvariant st.live floor past) : ∀ h ∈ past, h.createdAt < u64Bound := by
  intro entry hmem
  obtain ⟨i, hi⟩ := mem_iff_getElem?.mp hmem
  have hlt := (List.getElem?_eq_some_iff.mp hi).1
  rw [inv.length] at hlt
  exact h (i + 1) hlt _ (inv.epochs i entry hi)

section Reachable

variable {D : Type} {E : Env D}

def deliverable (A : CursorAuthority) (plan : CanonicalStoreBuildPlan)
    (past : List (HistoryEntry E)) (family : ChainEventStreamFamily) (first last : Nat) :
    List ChainEventEnvelope :=
  (List.range' first (last + 1 - first)).flatMap (envelopesOf A plan past family)

theorem length_envelopesOf_le (A : CursorAuthority) (plan : CanonicalStoreBuildPlan)
    (past : List (HistoryEntry E)) (family : ChainEventStreamFamily) (sequence : Nat) :
    (envelopesOf A plan past family sequence).length ≤ 1 := by
  rw [envelopesOf]
  split
  · simp
  · split <;> simp

variable [DecidableEq D] {st : PrimaryState E} {floor : Nat} {past : List (HistoryEntry E)}
  {ds : List (Displacement E)} (inv : EventsInvariant st floor past ds)
  (htimes : ∀ h ∈ past, h.createdAt < u64Bound) {A : CursorAuthority}
include inv

theorem exists_visibleEpoch : ∃ epoch,
    chainEpochAt st.live.store.db st.live.store.readyEvidence.visibleEpoch = .ok epoch := by
  obtain ⟨_, _, _, live⟩ := inv.primary.history.current
  obtain ⟨record, hrecord, _, _⟩ := live.epoch
  rw [chainEpochAt, hrecord, okOr_some, ok_bind]
  exact ⟨_, rfl⟩

theorem onVisibleChain_eq (anchor : ChainEventCursorAnchor) :
    onVisibleChain st.live.store.db anchor = true ↔
      hashAt st.live.start st.live.chain anchor.height = some anchor.hash := by
  rw [onVisibleChain, blockHashAt_eq inv, decide_eq_true_eq]

theorem height_lt_of_visible {anchor : ChainEventCursorAnchor}
    (h : onVisibleChain st.live.store.db anchor = true) : anchor.height < u32Bound := by
  obtain ⟨_, _, _, live⟩ := inv.primary.history.current
  exact height_lt_of_hashAt live.holds.linked ((onVisibleChain_eq inv anchor).mp h)

include htimes in
/-- A page is the start of what comes after its cursor. -/
theorem walletChainEventHistory_eq {request : ChainEventHistoryRequest} {resume : WalletEventResume}
    (hroom : st.primary.currentEventSequence + 1 < u64Bound)
    (hresume : walletEventResume A st.primary request.fromCursor request.family
      st.primary.currentEventSequence floor = .ok resume) :
    walletChainEventHistory A st.primary request =
      .ok ((resume.syntheticReorg.toList ++ deliverable A st.live.store.buildPlan past resume.family
        resume.startSequence st.primary.currentEventSequence).take request.maxEvents) := by
  rw [walletChainEventHistory, inv.primary.floor_eq, ok_bind, hresume, ok_bind]
  have hfloor := floor_le_startSequence hresume
  have hpos := request.maxEvents_pos
  refine historyPage_eq (fun n hn => ?_) (length_envelopesOf_le _ _ _ _) (fun n hn => ?_) ?_
  · rw [mem_range'_1] at hn
    exact projectEvent_eq inv htimes A resume.family (by omega) (by omega)
  · rw [mem_range'_1] at hn
    omega
  · have : resume.syntheticReorg.toList.length ≤ 1 := by
      cases resume.syntheticReorg <;> simp
    omega

theorem resume_syntheticReorg {payload : ChainEventCursorPayload}
    {forkPoint : ChainEventCursorAnchor} {epoch : ChainEpoch} {reorg : ChainEventEnvelope}
    (hreorg : syntheticReorg A st.primary payload forkPoint epoch floor = .ok reorg)
    (hfork : onVisibleChain st.live.store.db forkPoint = true) (hfloor : 1 < floor) :
    walletEventResume A st.primary (some reorg.cursor) family st.primary.currentEventSequence floor =
      .ok ⟨floor, payload.family, none⟩ := by
  obtain ⟨visible, hvisible⟩ := exists_visibleEpoch inv
  have hle := inv.primary.floor_le
  have hlt : st.primary.currentEventSequence < u64Bound := inv.sequence_lt
  obtain ⟨locator, htip, hdecode⟩ := decodeCursor_mintAtAnchor (syntheticReorg_eq_ok hreorg).1
    (by omega) (height_lt_of_visible inv hfork)
  have hnext : floor - 1 + 1 = floor := by omega
  have hresume : walletEventResume A st.primary (some reorg.cursor) family
      st.primary.currentEventSequence floor = .ok ⟨floor - 1 + 1, payload.family, none⟩ :=
    resume_of_tip hdecode (by simp only; omega) (by simp only; omega) (by simp only; omega) hvisible
      (htip ▸ hfork) (by simp only; omega)
  rw [hresume, hnext]

theorem settled_kept {i j : Nat} (hij : i ≤ j) {h h' : HistoryEntry E} (hi : past[i]? = some h)
    (hj : past[j]? = some h') {height : Nat} (hle : height ≤ st.live.start.height + h.settled) :
    h.settled ≤ h'.settled ∧
      hashAt st.live.start h'.chain height = hashAt st.live.start h.chain height := by
  induction j, hij using Nat.le_induction generalizing h' with
  | base =>
    cases hi.symm.trans hj
    exact ⟨Nat.le_refl _, rfl⟩
  | succ j hij ih =>
    obtain ⟨previous, hprevious, hevolves⟩ := exists_previous inv.primary.history hj
    obtain ⟨hsettled, heq⟩ := ih hprevious
    have hvalid := inv.primary.history.valid previous (mem_of_getElem? hprevious)
    have hlength := hvalid.settled_le
    have hle' : height ≤ st.live.start.height + previous.chain.length := by omega
    obtain ⟨_, heq'⟩ := hevolves.hashAt_eq hle' fun kept hkind => by
      cases hevolves with
      | append _ hkind' => cases hkind.symm.trans hkind'
      | replacement hkind' _ _ hkept =>
        cases hkind.symm.trans hkind'
        omega
    refine ⟨?_, heq'.trans heq⟩
    cases hevolves with
    | append _ _ _ hmono => exact hsettled.trans hmono
    | replacement _ _ _ _ _ _ hsame => exact hsame ▸ hsettled

theorem settledTip_visible {i : Nat} {h : HistoryEntry E} (hi : past[i]? = some h)
    (hsettled : h.chain.length ≤ h.settled) :
    onVisibleChain st.live.store.db (branchLocator st.live.start h.chain).tip = true := by
  obtain ⟨last, hlast, hchain, _⟩ := inv.primary.history.current
  obtain ⟨hlt, _⟩ := List.getElem?_eq_some_iff.mp hi
  rw [getLast?_eq_getElem?] at hlast
  have hlinked := (inv.primary.history.valid h (mem_of_getElem? hi)).linked
  have hheight : (tipId st.live.start h.chain).height ≤ st.live.start.height + h.settled := by
    rw [hlinked.tipId_height]
    omega
  rw [onVisibleChain_eq inv, ← hchain]
  exact (settled_kept inv (by omega : i ≤ past.length - 1) hi hlast hheight).2.trans
    (hashAt_tip hlinked (chain_ne_nil inv hi))

/-- The cursor of a retained event resumes right after it, if some block of its locator is visible. -/
theorem resume_branch {i : Nat} {h : HistoryEntry E} (hi : past[i]? = some h)
    (hfloor : floor ≤ i + 1)
    (hroom : st.primary.currentEventSequence + 1 < u64Bound)
    (hsettled : family = .settled → h.chain.length ≤ h.settled) (requested : ChainEventStreamFamily)
    (hfork : family = .visible → ∃ anchor ∈ entries (branchLocator st.live.start h.chain),
      onVisibleChain st.live.store.db anchor = true) :
    walletEventResume A st.primary
        (some (mintedCursor A family (i + 1) (branchLocator st.live.start h.chain))) requested
        st.primary.currentEventSequence floor = .ok ⟨i + 2, family, none⟩ := by
  obtain ⟨epoch, hepoch⟩ := exists_visibleEpoch inv
  have hdecode := decodeCursor_branch inv A family hi
  have hle : i + 1 ≤ st.primary.currentEventSequence := by
    have hlt := (List.getElem?_eq_some_iff.mp hi).1
    rw [inv.primary.history.length] at hlt
    exact hlt
  by_cases htip : onVisibleChain st.live.store.db (branchLocator st.live.start h.chain).tip = true
  · exact resume_of_tip hdecode (by simp) hle (by simp only; omega) hepoch htip (by simp only; omega)
  · cases family with
    | settled => exact absurd (settledTip_visible inv hi (hsettled rfl)) htip
    | visible =>
      obtain ⟨anchor, hmem, hvisible⟩ := hfork rfl
      obtain ⟨forkPoint, hfind⟩ := Option.isSome_iff_exists.mp
        (find?_isSome.mpr ⟨anchor, hmem, hvisible⟩)
      have hne : forkPoint ≠ (branchLocator st.live.start h.chain).tip := by
        rintro rfl
        exact htip (find?_some hfind)
      refine walletEventResume_eq_ok.mpr ⟨_, forkPoint, epoch, hdecode, by simp, hle, hepoch, hfind, ?_⟩
      simp only [resumeAtForkPoint, if_neg hne, reduceCtorEq, if_false, if_pos hfloor]
      rw [nextSequence_eq_ok.mpr ⟨by simp only; omega, rfl⟩]
      rfl

end Reachable

end Zinder.ChainEvents
