import Zinder.ChainEvents.Resume

/-!
# Zinder.ChainEvents.MintedCursors

The cursors a server hands out, and what becomes of them later in a run.

The cursor of an event names the branch that was visible right after it, and later commits, replacements
and pruning leave it resumable or expired. The cursor of a synthetic reorg is made of two parts that need
not belong together: the fork point, which is visible now, and the number of the last pruned event, whose
branch gives the ancestors. So its locator may mix two branches (`synthetic_locator_mixes`), and once the
fork point is displaced it does not match its epoch (`synthetic_cursor_malformed`). A settled live tail
names the visible tip, settled or not (`settled_live_tail_lost`).
-/

namespace Zinder.ChainEvents

open Canonical Format List
open Mempool (CursorAuthority StreamCursorTokenV1)

/-! ## Minting -/

section Minting

variable {D : Type} (A : CursorAuthority) (s : PrimaryStore D) (cursor : StreamCursorTokenV1)

def MintedOnPage : Prop :=
  ∃ request page, walletChainEventHistory A s request = .ok page ∧
    cursor ∈ page.map ChainEventEnvelope.cursor

def MintedAtLiveTail : Prop :=
  ∃ family, resolveWalletChainEventStreamStart A s .liveTail family = .ok ⟨some cursor, family⟩

/-- The cursor's event is retained. The cursor of a synthetic reorg has a number below the floor. -/
def NamesRetained : Prop :=
  ∃ payload ∈ (decodeCursor A cursor).toOption, ∃ floor ∈ s.retentionFloor.toOption,
    floor ≤ payload.eventSequence

instance : Decidable (NamesRetained A s cursor) :=
  inferInstanceAs (Decidable (∃ payload ∈ _, ∃ floor ∈ Except.toOption _, floor ≤ _))

end Minting

variable {family : ChainEventStreamFamily}

theorem mem_historyPage {D : Type} {A : CursorAuthority} {db : Db D}
    {maxEvents : Nat} {sequences : List Nat} {envelopes page : List ChainEventEnvelope}
    {envelope : ChainEventEnvelope}
    (h : historyPage A db family maxEvents sequences envelopes = .ok page)
    (hmem : envelope ∈ page) :
    envelope ∈ envelopes ∨ ∃ n ∈ sequences, ∃ projected,
      projectEvent A db family n = .ok projected ∧ envelope ∈ projected := by
  induction sequences generalizing envelopes with
  | nil =>
    cases h
    exact .inl hmem
  | cons n sequences ih =>
    rw [historyPage] at h
    split at h
    · cases h
      exact .inl hmem
    · simp only [bind_eq_ok] at h
      obtain ⟨projected, hprojected, _, _, h⟩ := h
      rcases ih h with hlead | ⟨m, hm, hrest⟩
      · rcases mem_append.mp hlead with hlead | hnew
        · exact .inl hlead
        · exact .inr ⟨n, mem_cons_self, projected, hprojected, hnew⟩
      · exact .inr ⟨m, mem_cons_of_mem _ hm, hrest⟩

section Cases

variable {D : Type} {E : Env D} [DecidableEq D] {st : PrimaryState E} {floor : Nat}
  {past : List (HistoryEntry E)} {ds : List (Displacement E)}
  (inv : EventsInvariant st floor past ds) (htimes : ∀ h ∈ past, h.createdAt < u64Bound)
  {A : CursorAuthority} {cursor : StreamCursorTokenV1}

variable (st past A cursor) in
/-- The cursor of event `i + 1`. -/
def OfEvent (family : ChainEventStreamFamily) (i : Nat) (h : HistoryEntry E) : Prop :=
  past[i]? = some h ∧ cursor = mintedCursor A family (i + 1) (branchLocator st.live.start h.chain)

include inv

theorem OfEvent.payload {i : Nat} {h : HistoryEntry E}
    (hevent : OfEvent st past A cursor family i h) {payload : ChainEventCursorPayload}
    (hdecode : decodeCursor A cursor = .ok payload) :
    payload = ⟨family, i + 1, branchLocator st.live.start h.chain⟩ := by
  obtain ⟨hi, rfl⟩ := hevent
  exact Except.ok.inj (hdecode.symm.trans (decodeCursor_branch inv A family hi))

include htimes in
/-- A page hands out the cursors of retained events and that of its synthetic reorg. -/
theorem MintedOnPage.cases (h : MintedOnPage A st.primary cursor) :
    (∃ family i h, OfEvent st past A cursor family i h ∧ floor ≤ i + 1 ∧ inFamily family h = true) ∨
      ∃ family forkPoint, 1 < floor ∧ onVisibleChain st.live.store.db forkPoint = true ∧
        mintWalletEventCursorAtAnchor A st.live.store.db family (floor - 1) forkPoint =
          .ok cursor := by
  obtain ⟨request, page, hpage, hmem⟩ := h
  obtain ⟨envelope, henvelope, rfl⟩ := mem_map.mp hmem
  simp only [walletChainEventHistory, inv.primary.floor_eq, ok_bind, bind_eq_ok] at hpage
  obtain ⟨resume, hresume, hpage⟩ := hpage
  rcases mem_historyPage hpage henvelope with hlead | ⟨n, hn, projected, hprojected, hnew⟩
  · right
    cases hfrom : request.fromCursor with
    | none =>
      rw [hfrom] at hresume
      cases hresume
      cases hlead
    | some from' =>
      rw [hfrom] at hresume
      obtain ⟨payload, forkPoint, _, _, hne, _, _, hfind, hresume⟩ := walletEventResume_eq_ok.mp hresume
      rcases resumeAtForkPoint_cases hresume with ⟨rfl, _⟩ | ⟨reorg, hreorg, hlt, rfl⟩
      · cases hlead
      · obtain rfl : envelope = reorg := by simpa using hlead
        exact ⟨_, forkPoint, by omega, find?_some hfind, (syntheticReorg_eq_ok hreorg).1⟩
  · left
    have hstart := floor_le_startSequence hresume
    have hpos := inv.primary.floor_pos
    rw [mem_range'_1] at hn
    obtain ⟨i, rfl⟩ : ∃ i, n = i + 1 := ⟨n - 1, by omega⟩
    obtain ⟨h, hi⟩ := inv.exists_entry (by omega : i < st.primary.currentEventSequence)
    cases (projectEvent_eq inv htimes A resume.family (by omega) (by omega)).symm.trans hprojected
    rw [envelopesOf, Nat.add_sub_cancel, hi] at hnew
    simp only at hnew
    split at hnew
    · next hfamily =>
      rw [mem_singleton.mp hnew]
      exact ⟨_, i, h, ⟨hi, rfl⟩, by omega, hfamily⟩
    · cases hnew

include htimes in
/-- A live tail hands out the cursor of the last event. -/
theorem MintedAtLiveTail.cases (h : MintedAtLiveTail A st.primary cursor) :
    ∃ family i h, OfEvent st past A cursor family i h ∧ i + 1 = st.primary.currentEventSequence ∧
      h.chain = st.live.chain ∧ LiveInvariant st.live h.settled := by
  obtain ⟨family, h⟩ := h
  obtain ⟨last, hlast, hchain, live⟩ := inv.primary.history.current
  have hlength := inv.primary.history.length
  have hcurrent : st.primary.currentEventSequence = past.length := hlength.symm
  have hpos : 0 < past.length := length_pos_iff.mpr fun hnil => by simp [hnil] at hlast
  rw [getLast?_eq_getElem?] at hlast
  obtain ⟨i, hi⟩ : ∃ i, past.length = i + 1 := ⟨past.length - 1, by omega⟩
  rw [hi] at hlast
  have hepoch : st.primary.canonical.readyEvidence.visibleEpoch = i + 1 := by
    rw [← hi, hlength]
    exact live.fence
  simp only [resolveWalletChainEventStreamStart, hcurrent, hi, Nat.add_one_ne_zero, if_false,
    hepoch, bind_eq_ok, Except.ok.injEq] at h
  obtain ⟨epoch, hread, minted, hminted, heq⟩ := h
  cases (chainEpochAt_eq inv hlast).symm.trans hread
  cases (mintCursor_eq inv htimes A family hlast).symm.trans hminted
  cases heq
  exact ⟨family, i, last, ⟨hlast, rfl⟩, by rw [hcurrent, hi], hchain, live⟩

include htimes in
/-- The payload of a minted cursor: the branch of its event, or a fork point with what the branch of the
last pruned event has below it. -/
theorem minted_cases (hminted : MintedOnPage A st.primary cursor ∨
      MintedAtLiveTail A st.primary cursor)
    {payload : ChainEventCursorPayload} (hdecode : decodeCursor A cursor = .ok payload) :
    ∃ i h, past[i]? = some h ∧ payload.eventSequence = i + 1 ∧
      (OfEvent st past A cursor payload.family i h ∧
          payload.locator = branchLocator st.live.start h.chain ∨
        ¬ NamesRetained A st.primary cursor ∧
          (hashAt st.live.start h.chain payload.locator.tip.height = some payload.locator.tip.hash →
            payload.locator = locatorAt st.live.start h.chain payload.locator.tip)) := by
  rcases hminted with hpage | htail
  · rcases hpage.cases inv htimes with ⟨_, i, h, hof, _⟩ | ⟨family, forkPoint, hfloor, hfork, hmint⟩
    · obtain rfl := hof.payload inv hdecode
      exact ⟨i, h, hof.1, rfl, .inl ⟨hof, rfl⟩⟩
    · have hlt : st.primary.currentEventSequence < u64Bound := inv.sequence_lt
      have hcurrent := inv.primary.floor_le
      obtain ⟨locator, rfl, hdecode'⟩ := decodeCursor_mintAtAnchor hmint (by omega)
        (height_lt_of_visible inv hfork)
      cases hdecode'.symm.trans hdecode
      obtain ⟨i, rfl⟩ : ∃ i, floor = i + 2 := ⟨floor - 2, by omega⟩
      obtain ⟨h, hi⟩ := inv.exists_entry (by omega : i < st.primary.currentEventSequence)
      refine ⟨i, h, hi, rfl, .inr ⟨?_, fun htip => ?_⟩⟩
      · -- The number of a synthetic cursor is below the floor.
        rintro ⟨payload, hpayload, floor', hfloor', hle⟩
        cases inv.primary.floor_eq.symm.trans (toOption_eq_some.mp hfloor')
        cases hdecode.symm.trans (toOption_eq_some.mp hpayload)
        simp only at hle
        omega
      · have hlinked := (inv.primary.history.valid h (mem_of_getElem? hi)).linked
        cases (mintAtAnchor_eq inv htimes A family hi (height_le_of_hashAt hlinked htip)).symm.trans hmint
        have hfits := fun anchor hmem =>
          height_lt_of_hashAt hlinked ((entries_locatorAt htip).2 anchor hmem)
        have hsame := (decodeCursor_minted (by omega) hfits).symm.trans hdecode'
        exact (congrArg ChainEventCursorPayload.locator (Except.ok.inj hsame)).symm
  · obtain ⟨_, i, h, hof, _⟩ := htail.cases inv htimes
    obtain rfl := hof.payload inv hdecode
    exact ⟨i, h, hof.1, rfl, .inl ⟨hof, rfl⟩⟩

/-! ## Resuming -/

include htimes in
theorem exists_mintAtAnchor (family : ChainEventStreamFamily) (sequence : Nat)
    (tip : ChainEventCursorAnchor) : ∃ minted,
    mintWalletEventCursorAtAnchor A st.live.store.db family sequence tip = .ok minted := by
  have hcollect : collect (locatorEntry st.live.store.db sequence) (locatorHeights tip.height).tail =
      .ok ((locatorHeights tip.height).tail.map fun height => ((firstDisplaced ds sequence height).or
        (blockHashAt st.live.store.db height)).map (ChainEventCursorAnchor.mk height)) := by
    rw [collect_eq_ok, List.forall₂_map_right_iff, List.forall₂_same]
    intro height _
    rw [locatorEntry, (inv.archive.sound (displacedAt_lt inv htimes)).firstDisplaced]
    rfl
  have hlength : (locatorHeights tip.height).length ≤ chainEventLocatorMax :=
    length_locatorHeightsFrom_le _ _ _
  rw [mintWalletEventCursorAtAnchor, hcollect, ok_bind, ChainEventLocator.new, dif_pos]
  · simp only [Except.mapError, chainEvent_eq]
    exact ⟨_, rfl⟩
  · refine (length_filterMap_le _ _).trans_lt ?_
    rw [length_map]
    exact hlength

include htimes in
/-- The cursor of an event resumes or has expired. -/
theorem resume_of_event {i : Nat} {h : HistoryEntry E}
    (hevent : OfEvent st past A cursor family i h)
    (hroom : st.primary.currentEventSequence + 1 < u64Bound) (requested : ChainEventStreamFamily) :
    (∃ resume, walletEventResume A st.primary (some cursor) requested st.primary.currentEventSequence
        floor = .ok resume) ∨
      walletEventResume A st.primary (some cursor) requested st.primary.currentEventSequence floor =
        .error (.canonicalEventCursorExpired (i + 1) floor) := by
  obtain ⟨hi, rfl⟩ := hevent
  obtain ⟨epoch, hepoch⟩ : ∃ epoch, chainEpochAt st.primary.canonical.db
    st.primary.canonical.readyEvidence.visibleEpoch = .ok epoch := exists_visibleEpoch inv
  have hle := (List.getElem?_eq_some_iff.mp hi).1
  rw [inv.primary.history.length] at hle
  have hnext : nextSequence ⟨family, i + 1, branchLocator st.live.start h.chain⟩ = .ok (i + 2) :=
    nextSequence_eq_ok.mpr ⟨lt_of_le_of_lt (Nat.succ_le_succ hle) hroom, rfl⟩
  rw [walletEventResume, decodeCursor_branch inv A family hi, ok_bind,
    rejectIf_of_not (by simp only [not_or]; exact ⟨Nat.succ_ne_zero i, Nat.not_lt.mpr hle⟩), ok_bind,
    hepoch, ok_bind]
  cases hfind : (entries (branchLocator st.live.start h.chain)).find?
      (onVisibleChain st.primary.canonical.db) with
  | none => exact .inr rfl
  | some forkPoint =>
    rw [okOr_some, ok_bind, resumeAtForkPoint]
    simp only [hnext, ok_bind]
    split
    · by_cases hexpired : i + 2 < floor
      · exact .inr (by rw [rejectIf, if_pos hexpired]; rfl)
      · exact .inl ⟨_, by rw [rejectIf_of_not hexpired]; rfl⟩
    · next hne =>
      split
      · exact .inr rfl
      · split
        · exact .inl ⟨_, rfl⟩
        · -- The fork point is an ancestor, so the block above it has a height.
          have hmem : forkPoint ∈ (branchLocator st.live.start h.chain).ancestors :=
            (mem_cons.mp (mem_of_find?_eq_some hfind)).resolve_left hne
          have hbelow : forkPoint.height < (tipId st.live.start h.chain).height :=
            (pairwise_cons.mp (locatorHeights_descending _)).1 _ (mem_branchEntries.mp hmem).1
          have hlinked := (inv.primary.history.valid h (mem_of_getElem? hi)).linked
          have hlt := height_lt_of_hashAt hlinked (hashAt_tip hlinked (chain_ne_nil inv hi))
          have hreverted : chainEpochAt st.primary.canonical.db (i + 1) = .ok _ := chainEpochAt_eq inv hi
          obtain ⟨minted, hminted⟩ : ∃ minted, mintWalletEventCursorAtAnchor A
              st.primary.canonical.db family (floor - 1) forkPoint = .ok minted :=
            exists_mintAtAnchor inv htimes family (floor - 1) forkPoint
          left
          rw [syntheticReorg, nextHeight_eq_some.mpr ⟨by omega, rfl⟩, okOr_some, ok_bind, hreverted,
            ok_bind, rejectIf_of_not (fun hne => hne rfl), ok_bind]
          simp only [hminted]
          exact ⟨_, rfl⟩

end Cases

section Runs

variable {D : Type} {E : Env D} [DecidableEq D] {st₀ st st' : PrimaryState E}
  {operations operations' : List PrimaryOperation} {A : CursorAuthority} {cursor : StreamCursorTokenV1}

omit [DecidableEq D] in
theorem OfEvent.later {floor floor' : Nat} {past past' : List (HistoryEntry E)} {i : Nat}
    {h : HistoryEntry E} (hevent : OfEvent st past A cursor family i h)
    (hext : EventsInvariant.Extends st floor past operations st' floor' past') :
    OfEvent st' past' A cursor family i h := by
  refine ⟨getElem?_of_isPrefix hext.past hevent.1, ?_⟩
  rw [hext.start]
  exact hevent.2

/-- The cursor of an event that was retained when it was handed out resumes at any later time, or it has
expired. -/
theorem retained_cursor_resumes_or_expires (hpublished : PrimaryPublished st₀)
    (run : PrimaryRun st₀ operations st) (run' : PrimaryRun st operations' st')
    (hminted : MintedOnPage A st.primary cursor ∨ MintedAtLiveTail A st.primary cursor)
    (hretained : NamesRetained A st.primary cursor) (htimes : TimesFit st'.primary)
    (hroom : st'.primary.currentEventSequence + 1 < u64Bound) {request : ChainEventHistoryRequest}
    (hrequest : request.fromCursor = some cursor) :
    (∃ page, walletChainEventHistory A st'.primary request = .ok page) ∨
      ∃ sequence oldest, walletChainEventHistory A st'.primary request =
        .error (.canonicalEventCursorExpired sequence oldest) := by
  obtain ⟨floor, past, ds, inv⟩ := hpublished.run_events run
  obtain ⟨floor', past', ds', hext, inv'⟩ := inv.run run'
  have htimes' := htimes.past inv'.primary.history
  obtain ⟨payload, hdecode, _⟩ := id hretained
  obtain ⟨i, h, _, _, hcases⟩ := minted_cases inv (fun h hmem => htimes' h (hext.past.subset hmem))
    hminted (toOption_eq_some.mp hdecode)
  obtain ⟨hevent, _⟩ := hcases.resolve_right fun hnot => hnot.1 hretained
  rcases resume_of_event inv' htimes' (hevent.later hext) hroom request.family with
    ⟨resume, hresume⟩ | hexpired
  · rw [← hrequest] at hresume
    exact .inl ⟨_, walletChainEventHistory_eq inv' htimes' hroom hresume⟩
  · refine .inr ⟨i + 1, floor', ?_⟩
    rw [walletChainEventHistory, inv'.primary.floor_eq, ok_bind, hrequest, hexpired]
    rfl

/-- The locator of a cursor lists blocks of one branch from the top down: the branch `st` has right after
the cursor's event. For the cursor of a synthetic reorg this needs its fork point to be on that branch. -/
theorem minted_locator_of_one_branch (hpublished : PrimaryPublished st₀)
    (run : PrimaryRun st₀ operations st) (run' : PrimaryRun st operations' st')
    (htimes : TimesFit st'.primary)
    (hminted : MintedOnPage A st'.primary cursor ∨ MintedAtLiveTail A st'.primary cursor)
    {payload : ChainEventCursorPayload} (hdecode : decodeCursor A cursor = .ok payload)
    (hafter : payload.eventSequence = st.primary.currentEventSequence)
    (hfork : NamesRetained A st'.primary cursor ∨
      onVisibleChain st.live.store.db payload.locator.tip = true) :
    ((entries payload.locator).map ChainEventCursorAnchor.height).Pairwise (· > ·) ∧
      (∀ anchor ∈ entries payload.locator, onVisibleChain st.live.store.db anchor = true) ∧
      (NamesRetained A st'.primary cursor →
        payload.locator.tip = tipAnchor st.live.start st.live.chain) := by
  obtain ⟨floor, past, ds, inv⟩ := hpublished.run_events run
  obtain ⟨floor', past', ds', hext, inv'⟩ := inv.run run'
  have htimes' := htimes.past inv'.primary.history
  obtain ⟨last, hlast, hchain, live⟩ := inv.primary.history.current
  have hcurrent : st.primary.currentEventSequence = past.length := inv.primary.history.length.symm
  rw [getLast?_eq_getElem?] at hlast
  have hlast' := getElem?_of_isPrefix hext.past hlast
  obtain ⟨i, h, hi, hsequence, hcases⟩ := minted_cases inv' htimes' hminted hdecode
  obtain rfl : i = past.length - 1 := by omega
  cases hlast'.symm.trans hi
  rw [hext.start, hchain] at hcases
  have htip : hashAt st.live.start st.live.chain (tipAnchor st.live.start st.live.chain).height =
      some (tipAnchor st.live.start st.live.chain).hash :=
    hashAt_tip live.holds.linked (hchain ▸ chain_ne_nil inv hlast)
  -- Either way the locator is read off the branch of `st`, from a block of it.
  obtain ⟨tip, hon, hlocator, hretained⟩ : ∃ tip,
      hashAt st.live.start st.live.chain tip.height = some tip.hash ∧
        payload.locator = locatorAt st.live.start st.live.chain tip ∧
        (NamesRetained A st'.primary cursor → tip = tipAnchor st.live.start st.live.chain) := by
    rcases hcases with ⟨_, heq⟩ | ⟨hnot, heq⟩
    · exact ⟨_, htip, heq, fun _ => rfl⟩
    · have hvisible := (onVisibleChain_eq inv _).mp (hfork.resolve_left hnot)
      exact ⟨_, hvisible, heq hvisible, fun h => absurd h hnot⟩
  rw [hlocator]
  obtain ⟨hdescending, hbranch⟩ := entries_locatorAt hon
  exact ⟨hdescending, fun anchor hmem => (onVisibleChain_eq inv anchor).mpr (hbranch anchor hmem),
    hretained⟩

/-- Whatever a store does after an event, the block it showed at a height right after it is found. -/
theorem past_blocks_found (hpublished : PrimaryPublished st₀) (run : PrimaryRun st₀ operations st)
    (run' : PrimaryRun st operations' st') (htimes : TimesFit st'.primary) {height : Nat}
    (hle : height ≤ st.live.store.readyEvidence.visibleTip.height) :
    locatorEntry st'.live.store.db st.primary.currentEventSequence height =
      .ok ((blockHashAt st.live.store.db height).map (ChainEventCursorAnchor.mk height)) := by
  obtain ⟨floor, past, ds, inv⟩ := hpublished.run_events run
  obtain ⟨floor', past', ds', hext, inv'⟩ := inv.run run'
  obtain ⟨last, hlast, hchain, live⟩ := inv.primary.history.current
  obtain ⟨front, rfl⟩ := getLast?_eq_some_iff.mp hlast
  have hlast' := getElem?_of_isPrefix hext.past getElem?_concat_length
  have hcurrent : front.length + 1 = st.primary.currentEventSequence :=
    length_append.symm.trans inv.primary.history.length
  rw [live.tip_height, ← hchain, ← hext.start] at hle
  rw [← hcurrent, locatorEntry_eq inv' (htimes.past inv'.primary.history) hlast' hle, hext.start,
    hchain, blockHashAt_eq inv]

/-- Without pruning, a settled cursor of a page, or of a live tail at a settled tip, can be resumed at
any later time, and what follows has no reorg. -/
theorem settled_cursor_resumes (hpublished : PrimaryPublished st₀)
    (run : PrimaryRun st₀ operations st)
    (run' : PrimaryRun st operations' st')
    (hunpruned : ∀ now, .prune now ∉ operations ++ operations')
    (hminted : MintedOnPage A st.primary cursor ∨ MintedAtLiveTail A st.primary cursor ∧
      st.live.store.readyEvidence.visibleTip =
        st.live.store.readyEvidence.sequenceCheckpoint.through)
    {payload : ChainEventCursorPayload} (hdecode : decodeCursor A cursor = .ok payload)
    (hfamily : payload.family = .settled) (htimes : TimesFit st'.primary)
    (hroom : st'.primary.currentEventSequence + 1 < u64Bound) {request : ChainEventHistoryRequest}
    (hrequest : request.fromCursor = some cursor) :
    ∃ page, walletChainEventHistory A st'.primary request = .ok page ∧
      ∀ envelope ∈ page, ∃ committed, envelope.event = .chainCommitted committed := by
  simp only [mem_append, not_or] at hunpruned
  obtain ⟨entry, inv₀⟩ := hpublished.events
  obtain ⟨floor, past, ds, hext₀, inv⟩ := inv₀.run run
  obtain ⟨floor', past', ds', hext, inv'⟩ := inv.run run'
  obtain rfl := hext₀.floor_eq fun now => (hunpruned now).1
  obtain rfl := hext.floor_eq fun now => (hunpruned now).2
  have htimes' := htimes.past inv'.primary.history
  have hearlier : ∀ h ∈ past, h.createdAt < u64Bound := fun h hmem => htimes' h (hext.past.subset hmem)
  obtain ⟨family, i, h, hevent, hsettled⟩ : ∃ family i h, OfEvent st past A cursor family i h ∧
      (family = .settled → h.chain.length ≤ h.settled) := by
    rcases hminted with hpage | ⟨htail, htip⟩
    · rcases hpage.cases inv hearlier with ⟨family, i, h, hof, _, hin⟩ | ⟨_, _, hfloor, _⟩
      · exact ⟨family, i, h, hof, settled_of_inFamily hin⟩
      · exact absurd hfloor (Nat.lt_irrefl 1)
    · obtain ⟨family, i, h, hof, _, hchain, live⟩ := htail.cases inv hearlier
      refine ⟨family, i, h, hof, fun _ => ?_⟩
      have hheight := congrArg BlockId.height htip
      rw [live.tip_height, live.settled_height, ← hchain] at hheight
      omega
  obtain rfl := hevent.payload inv hdecode
  obtain rfl : family = .settled := hfamily
  obtain ⟨hi, rfl⟩ := hevent.later hext
  have hresume := resume_branch (A := A) inv' hi (by omega) hroom hsettled request.family
    fun h => by cases h
  rw [← hrequest] at hresume
  refine ⟨_, walletChainEventHistory_eq inv' htimes' hroom hresume, fun envelope hmem => ?_⟩
  have hmem := mem_of_mem_take hmem
  obtain ⟨n, _, hmem⟩ := mem_flatMap.mp hmem
  rw [envelopesOf] at hmem
  split at hmem
  · cases hmem
  · next h' _ =>
    split at hmem
    · next hin =>
      rw [mem_singleton.mp hmem]
      simp only [inFamily, decide_eq_true_eq] at hin
      simp only [entryEnvelope, entryEvent, HistoryEntry.revertedRange]
      rcases hin.1 with hkind | hkind <;> exact ⟨_, by rw [hkind]⟩
    · cases hmem

end Runs

/-! ## A store that returns to an earlier branch -/

section Sample

/-- Blocks 2 to 4 of one branch, of another one, and a last block that takes the first one's place. -/
def firstBranch : List CanonicalBlockFacts :=
  [plainFacts 2 2 1 12, plainFacts 3 3 2 13, plainFacts 4 4 3 14]

def secondBranch : List CanonicalBlockFacts :=
  [plainFacts 2 5 1 15, plainFacts 3 6 5 16, plainFacts 4 7 6 17]

def returnBranch : List CanonicalBlockFacts :=
  [plainFacts 2 2 1 12, plainFacts 3 3 2 13, plainFacts 4 8 3 18]

def forkedFacts : List CanonicalBlockFacts :=
  plainFacts 1 1 0 11 :: firstBranch ++ secondBranch ++ [plainFacts 4 8 3 18]

noncomputable def forkedEnv : Env Nat :=
  ⟨listedFactsHash forkedFacts, listedReplayCodec forkedFacts (listedRecords 8), plainTrees⟩

noncomputable def forkedBaseline : CanonicalBaseline forkedEnv where
  workload := .wallet
  plan :=
    { sampleBaseline.plan with
      reorgWindowBlocks := 3, reorgWindowBlocks_pos := by decide,
      reorgWindowBlocks_lt := by decide }
  blocks := [plainBlock forkedEnv (plainFacts 1 1 0 11)]
  roots := .retainedRange []
  sourceTipCheckpoint := ⟨⟨1, repeatedByte 1⟩, 0, .absent⟩
  settledTip := ⟨1, repeatedByte 1⟩
  createdAt := 0

noncomputable def grow : List (PrimaryRequest forkedEnv) :=
  firstBranch.map fun facts => .append (plainBlock forkedEnv facts) [] ⟨1, repeatedByte 1⟩ 0

noncomputable def switchTo (branch : List CanonicalBlockFacts) : PrimaryRequest forkedEnv :=
  .replace (branch.map fun facts => ⟨plainBlock forkedEnv facts, []⟩) 0

/-- Three stores of one run, and what is done before each. -/
structure ForkedRun (o₁ o₂ o₃ : List PrimaryOperation) (st₁ st₂ st₃ : PrimaryState forkedEnv) :
    Prop where
  first : ∃ st₀, PrimaryPublished st₀ ∧ PrimaryRun st₀ o₁ st₁
  second : PrimaryRun st₁ o₂ st₂
  third : PrimaryRun st₂ o₃ st₃

noncomputable def forkedStores (first second third : List (PrimaryRequest forkedEnv)) :
    Option ((PrimaryStore Nat × PrimaryStore Nat × PrimaryStore Nat) × List (List PrimaryOperation)) := do
  let s ← (publishBaseline forkedBaseline).toOption
  let (s₁, o₁) ← PrimaryStore.performAll sampleActivations ⟨s, ⟨none, none, ∅⟩⟩ first
  let (s₂, o₂) ← s₁.performAll sampleActivations second
  let (s₃, o₃) ← s₂.performAll sampleActivations third
  some ((s₁, s₂, s₃), [o₁, o₂, o₃])

theorem forked_runs (first second third : List (PrimaryRequest forkedEnv))
    {P : PrimaryStore Nat → PrimaryStore Nat → PrimaryStore Nat → Prop}
    [∀ s₁ s₂ s₃, Decidable (P s₁ s₂ s₃)] {o₁ o₂ o₃ : List PrimaryOperation}
    (h : (forkedStores first second third).map (fun r => (decide (P r.1.1 r.1.2.1 r.1.2.2), r.2)) =
      some (true, [o₁, o₂, o₃])) :
    ∃ st₁ st₂ st₃, ForkedRun o₁ o₂ o₃ st₁ st₂ st₃ ∧ P st₁.primary st₂.primary st₃.primary := by
  obtain ⟨⟨⟨s₁, s₂, s₃⟩, operations⟩, hstores, heq⟩ := Option.map_eq_some_iff.mp h
  simp only [Prod.mk.injEq, decide_eq_true_eq] at heq
  obtain ⟨hp, rfl⟩ := heq
  simp only [forkedStores, Option.bind_eq_bind, Option.bind_eq_some_iff, Option.some.injEq,
    Prod.mk.injEq, List.cons.injEq, and_true] at hstores
  obtain ⟨s, hs, ⟨_, _⟩, h₁, ⟨_, _⟩, h₂, ⟨_, _⟩, h₃, ⟨rfl, rfl, rfl⟩, rfl, rfl, rfl⟩ := hstores
  obtain ⟨st₀, st₁, hpublished, run₁, rfl⟩ := published_run (toOption_eq_some.mp hs) h₁
  obtain ⟨st₂, run₂, rfl⟩ := performAll_run h₂
  obtain ⟨st₃, run₃, rfl⟩ := performAll_run h₃
  exact ⟨st₁, st₂, st₃, ⟨⟨st₀, hpublished, run₁⟩, run₂, run₃⟩, hp⟩

def oneEvent (cursor : StreamCursorTokenV1) : ChainEventHistoryRequest :=
  ⟨some cursor, .visible, 1, Nat.one_pos⟩

def liveTailCursor (s : PrimaryStore Nat) (family : ChainEventStreamFamily) :
    Option StreamCursorTokenV1 :=
  match resolveWalletChainEventStreamStart sampleAuthority s .liveTail family with
  | .ok resume => if resume.family = family then resume.cursor else none
  | .error _ => none

theorem mintedAtLiveTail_of_mem {s : PrimaryStore Nat}
    {cursor : StreamCursorTokenV1} (h : cursor ∈ liveTailCursor s family) :
    MintedAtLiveTail sampleAuthority s cursor := by
  refine ⟨family, ?_⟩
  rw [Option.mem_def, liveTailCursor] at h
  split at h
  · next resume hresume =>
    rw [Option.ite_none_right_eq_some] at h
    rw [hresume, ← h.1, ← h.2]
  · cases h

/-- The first cursor a client of `s` gets that was at the live tail of an earlier store. -/
def leadCursor (earlier s : PrimaryStore Nat) : Option StreamCursorTokenV1 := do
  let cursor ← liveTailCursor earlier .visible
  let page ← (walletChainEventHistory sampleAuthority s (oneEvent cursor)).toOption
  page.head?.map ChainEventEnvelope.cursor

/-- The cursor is on the page that answers a live-tail cursor of an earlier store. -/
def AnsweredTo (earlier s : PrimaryStore Nat) (cursor : StreamCursorTokenV1) : Prop :=
  ∃ first page, MintedAtLiveTail sampleAuthority earlier first ∧
    walletChainEventHistory sampleAuthority s (oneEvent first) = .ok page ∧
    cursor ∈ page.map ChainEventEnvelope.cursor

theorem answeredTo_of_mem {earlier s : PrimaryStore Nat} {cursor : StreamCursorTokenV1}
    (h : cursor ∈ leadCursor earlier s) : AnsweredTo earlier s cursor := by
  simp only [Option.mem_def, leadCursor, Option.bind_eq_bind, Option.bind_eq_some_iff] at h
  obtain ⟨first, hfirst, page, hpage, hhead⟩ := h
  rw [← head?_map] at hhead
  exact ⟨first, page, mintedAtLiveTail_of_mem hfirst, toOption_eq_some.mp hpage,
    mem_of_mem_head? hhead⟩

def commits (count : Nat) : List PrimaryOperation := List.replicate count .commit

/-- The locator's tip is a visible block, and the entry right below it is not the parent. -/
def Mixes (db : Db Nat) (locator : ChainEventLocator) : Prop :=
  ∃ header ∈ db.lookup (Key.blockHeader locator.tip.height),
    BlockHeaderArtifact.blockHash header = locator.tip.hash ∧
      ∃ parent ∈ locator.ancestors, parent.height + 1 = locator.tip.height ∧
        parent.hash ≠ BlockHeaderArtifact.parentHash header

instance (db : Db Nat) (locator : ChainEventLocator) : Decidable (Mixes db locator) :=
  inferInstanceAs (Decidable (∃ header ∈ db.lookup (Key.blockHeader _), _ ∧ ∃ parent ∈ _, _ ∧ _))

def tipMismatch : CanonicalEventError :=
  .canonicalEventCursorMalformed "cursor tip does not match its historical chain epoch"

/-- What can be checked of a run that leaves the first branch, returns to it below its tip, prunes and
leaves it again. -/
def Returning (s₁ s₂ s₃ : PrimaryStore Nat) : Prop :=
  TimesFit s₂ ∧ s₂.currentEventSequence + 1 < u64Bound ∧
    (∃ cursor ∈ liveTailCursor s₁ .visible, NamesRetained sampleAuthority s₁ cursor) ∧
    ∃ cursor ∈ leadCursor s₁ s₂,
      walletChainEventHistory sampleAuthority s₃ (oneEvent cursor) = .error tipMismatch ∧
      ∃ payload ∈ (decodeCursor sampleAuthority cursor).toOption, Mixes s₂.canonical.db payload.locator

instance (s₁ s₂ s₃ : PrimaryStore Nat) : Decidable (Returning s₁ s₂ s₃) :=
  inferInstanceAs (Decidable (_ ∧ _ ∧ (∃ cursor ∈ _, _) ∧ ∃ cursor ∈ _, _ ∧ ∃ payload ∈ _, _))

theorem returning_run : ∃ st₁ st₂ st₃,
    ForkedRun (commits 3) (commits 2 ++ [.prune 0]) (commits 1) st₁ st₂ st₃ ∧
      Returning st₁.primary st₂.primary st₃.primary :=
  forked_runs grow [switchTo secondBranch, switchTo returnBranch, .prune 6 0]
    [switchTo secondBranch] (by decide +kernel)

theorem retained_cursor_resumes_or_expires_sample : ∃ st₁ st₂ st₃,
    ForkedRun (commits 3) (commits 2 ++ [.prune 0]) (commits 1) st₁ st₂ st₃ ∧
      ∃ cursor, MintedAtLiveTail sampleAuthority st₁.primary cursor ∧
        NamesRetained sampleAuthority st₁.primary cursor ∧
        ((∃ page, walletChainEventHistory sampleAuthority st₂.primary (oneEvent cursor) =
          .ok page) ∨
          ∃ sequence oldest, walletChainEventHistory sampleAuthority st₂.primary (oneEvent cursor) =
            .error (.canonicalEventCursorExpired sequence oldest)) := by
  obtain ⟨st₁, st₂, st₃, run, htimes, hroom, ⟨cursor, hcursor, hretained⟩, _⟩ := returning_run
  obtain ⟨st₀, hpublished, run₁⟩ := run.first
  have hminted := mintedAtLiveTail_of_mem hcursor
  exact ⟨st₁, st₂, st₃, run, cursor, hminted, hretained, retained_cursor_resumes_or_expires hpublished
    run₁ run.second (.inr hminted) hretained htimes hroom rfl⟩

theorem past_blocks_found_sample : ∃ st₁ st₂ st₃,
    ForkedRun (commits 3) (commits 2 ++ [.prune 0]) (commits 1) st₁ st₂ st₃ ∧ ∃ entry,
      locatorEntry st₂.live.store.db st₁.primary.currentEventSequence
        st₁.live.store.readyEvidence.visibleTip.height = .ok entry := by
  obtain ⟨st₁, st₂, st₃, run, htimes, _⟩ := returning_run
  obtain ⟨st₀, hpublished, run₁⟩ := run.first
  exact ⟨st₁, st₂, st₃, run, _, past_blocks_found hpublished run₁ run.second htimes le_rfl⟩

/-- The cursor of a synthetic reorg is malformed once its fork point has been displaced. -/
theorem synthetic_cursor_malformed : ∃ st₁ st₂ st₃,
    ForkedRun (commits 3) (commits 2 ++ [.prune 0]) (commits 1) st₁ st₂ st₃ ∧
      ∃ cursor, AnsweredTo st₁.primary st₂.primary cursor ∧
        walletChainEventHistory sampleAuthority st₃.primary (oneEvent cursor) =
          .error tipMismatch := by
  obtain ⟨st₁, st₂, st₃, run, _, _, _, cursor, hcursor, hmalformed, _⟩ := returning_run
  exact ⟨st₁, st₂, st₃, run, cursor, answeredTo_of_mem hcursor, hmalformed⟩

/-- The locator of a synthetic reorg whose second entry is not the parent of its first. -/
theorem synthetic_locator_mixes : ∃ st₁ st₂ st₃,
    ForkedRun (commits 3) (commits 2 ++ [.prune 0]) (commits 1) st₁ st₂ st₃ ∧
      ∃ cursor payload, AnsweredTo st₁.primary st₂.primary cursor ∧
        decodeCursor sampleAuthority cursor = .ok payload ∧
        Mixes st₂.primary.canonical.db payload.locator := by
  obtain ⟨st₁, st₂, st₃, run, _, _, _, cursor, hcursor, _, payload, hdecode, hmixes⟩ := returning_run
  exact ⟨st₁, st₂, st₃, run, cursor, payload, answeredTo_of_mem hcursor, toOption_eq_some.mp hdecode,
    hmixes⟩

/-- A settled live tail at the baseline, where the tip is settled, and one after three appends, where it
is not; then the branch is left. -/
def Settling (s₁ s₂ s₃ : PrimaryStore Nat) : Prop :=
  TimesFit s₂ ∧ s₂.currentEventSequence + 1 < u64Bound ∧
    s₁.canonical.readyEvidence.visibleTip = s₁.canonical.readyEvidence.sequenceCheckpoint.through ∧
    (∃ cursor ∈ liveTailCursor s₁ .settled, ∃ payload ∈ (decodeCursor sampleAuthority cursor).toOption,
      payload.family = .settled) ∧
    ∃ cursor ∈ liveTailCursor s₂ .settled,
      walletChainEventHistory sampleAuthority s₃ (oneEvent cursor) =
        .error (.canonicalEventCursorExpired 4 1) ∧
      ∃ payload ∈ (decodeCursor sampleAuthority cursor).toOption, payload.family = .settled ∧
        payload.eventSequence = s₂.currentEventSequence ∧ NamesRetained sampleAuthority s₂ cursor

instance (s₁ s₂ s₃ : PrimaryStore Nat) : Decidable (Settling s₁ s₂ s₃) :=
  inferInstanceAs (Decidable (_ ∧ _ ∧ _ ∧ (∃ cursor ∈ _, ∃ payload ∈ _, _ = _) ∧
    ∃ cursor ∈ _, _ ∧ ∃ payload ∈ _, _ ∧ _ ∧ _))

theorem settling_run : ∃ st₁ st₂ st₃, ForkedRun [] (commits 3) (commits 1) st₁ st₂ st₃ ∧
    Settling st₁.primary st₂.primary st₃.primary :=
  forked_runs [] grow [switchTo secondBranch] (by decide +kernel)

theorem settled_cursor_resumes_sample : ∃ st₁ st₂ st₃,
    ForkedRun [] (commits 3) (commits 1) st₁ st₂ st₃ ∧ ∃ cursor,
      MintedAtLiveTail sampleAuthority st₁.primary cursor ∧
      ∃ page, walletChainEventHistory sampleAuthority st₂.primary (oneEvent cursor) = .ok page ∧
        ∀ envelope ∈ page, ∃ committed, envelope.event = .chainCommitted committed := by
  obtain ⟨st₁, st₂, st₃, run, htimes, hroom, htip, ⟨cursor, hcursor, payload, hdecode, hfamily⟩, _⟩ :=
    settling_run
  obtain ⟨st₀, hpublished, run₁⟩ := run.first
  have hminted := mintedAtLiveTail_of_mem hcursor
  exact ⟨st₁, st₂, st₃, run, cursor, hminted, settled_cursor_resumes hpublished run₁ run.second
    (fun now => by simp [commits]) (.inr ⟨hminted, htip⟩) (toOption_eq_some.mp hdecode) hfamily htimes
    hroom rfl⟩

/-- A settled live tail at an unsettled tip expires when the tip is displaced. -/
theorem settled_live_tail_lost : ∃ st₁ st₂ st₃,
    ForkedRun [] (commits 3) (commits 1) st₁ st₂ st₃ ∧
      ∃ cursor payload, MintedAtLiveTail sampleAuthority st₂.primary cursor ∧
        decodeCursor sampleAuthority cursor = .ok payload ∧ payload.family = .settled ∧
        walletChainEventHistory sampleAuthority st₃.primary (oneEvent cursor) =
          .error (.canonicalEventCursorExpired 4 1) := by
  obtain ⟨st₁, st₂, st₃, run, _, _, _, _, cursor, hcursor, hlost, payload, hdecode, hfamily, _⟩ :=
    settling_run
  exact ⟨st₁, st₂, st₃, run, cursor, payload, mintedAtLiveTail_of_mem hcursor,
    toOption_eq_some.mp hdecode, hfamily, hlost⟩

theorem minted_locator_of_one_branch_sample : ∃ st₁ st₂ st₃,
    ForkedRun [] (commits 3) (commits 1) st₁ st₂ st₃ ∧ ∃ cursor payload,
      MintedAtLiveTail sampleAuthority st₂.primary cursor ∧
      decodeCursor sampleAuthority cursor = .ok payload ∧
      ((entries payload.locator).map ChainEventCursorAnchor.height).Pairwise (· > ·) ∧
      ∀ anchor ∈ entries payload.locator, onVisibleChain st₂.live.store.db anchor = true := by
  obtain ⟨st₁, st₂, st₃, run, htimes, _, _, _, cursor, hcursor, _, payload, hdecode, _, hafter,
    hretained⟩ := settling_run
  obtain ⟨st₀, hpublished, run₁⟩ := run.first
  have hminted := mintedAtLiveTail_of_mem hcursor
  have hdecode := toOption_eq_some.mp hdecode
  obtain ⟨hdescending, hvisible, _⟩ := minted_locator_of_one_branch hpublished (run₁.trans run.second)
    (.nil st₂) htimes (.inr hminted) hdecode hafter (.inl hretained)
  exact ⟨st₁, st₂, st₃, run, cursor, payload, hminted, hdecode, hdescending, hvisible⟩

end Sample

end Zinder.ChainEvents
