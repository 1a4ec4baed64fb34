import Zinder.Canonical.DisplacedHistory
import Zinder.ChainEvents.History

/-!
# Zinder.ChainEvents.Cursors

The cursors and envelopes of a reachable store.

The locator of an event's cursor is read off the branch that was visible right after the event
(`branchLocator`), no matter how much of it has been displaced since: the archive gives back what the
headers no longer have. `projectEvent_eq` says what a page gets from a retained event.
-/

namespace Zinder.ChainEvents

open Canonical Format List
open Mempool (CursorAuthority StreamCursorTokenV1 sign)

/-! ## Locator heights -/

theorem le_of_mem_locatorHeightsFrom {room current step height : Nat}
    (h : height ∈ locatorHeightsFrom room current step) : height ≤ current := by
  induction room generalizing current step with
  | zero => simp [locatorHeightsFrom] at h
  | succ room ih =>
    rw [locatorHeightsFrom, mem_cons] at h
    rcases h with rfl | h
    · exact le_rfl
    · split at h
      · simp at h
      · exact (ih h).trans (Nat.sub_le _ _)

theorem locatorHeightsFrom_descending {room current step : Nat} (hstep : 0 < step) :
    (locatorHeightsFrom room current step).Pairwise (· > ·) := by
  induction room generalizing current step with
  | zero => exact .nil
  | succ room ih =>
    rw [locatorHeightsFrom]
    split
    · exact pairwise_singleton _ _
    · next hpos =>
      refine .cons (fun height hmem => ?_) (ih ?_)
      · have := le_of_mem_locatorHeightsFrom hmem
        omega
      · have : 1 < u32Bound := by decide
        omega

theorem length_locatorHeightsFrom_le (room current step : Nat) :
    (locatorHeightsFrom room current step).length ≤ room := by
  induction room generalizing current step with
  | zero => exact le_rfl
  | succ room ih =>
    rw [locatorHeightsFrom, length_cons]
    split
    · simp
    · exact Nat.succ_le_succ (ih _ _)

theorem le_of_mem_locatorHeights {tip height : Nat} (h : height ∈ (locatorHeights tip).tail) :
    height ≤ tip :=
  le_of_mem_locatorHeightsFrom (mem_of_mem_tail h)

theorem locatorHeights_eq_cons (tip : Nat) :
    locatorHeights tip = tip :: (locatorHeights tip).tail :=
  rfl

theorem locatorHeights_descending (tip : Nat) :
    (tip :: (locatorHeights tip).tail).Pairwise (· > ·) := by
  rw [← locatorHeights_eq_cons]
  exact locatorHeightsFrom_descending Nat.one_pos

/-! ## Locators of a branch -/

section Branch

variable {D : Type} {E : Env D} (start : BlockId) (chain : Chain E)

def branchEntries (heights : List Nat) : List ChainEventCursorAnchor :=
  heights.filterMap fun height => (hashAt start chain height).map (ChainEventCursorAnchor.mk height)

def locatorAt (tip : ChainEventCursorAnchor) : ChainEventLocator where
  tip
  ancestors := branchEntries start chain (locatorHeights tip.height).tail
  length_lt := by
    have hle : (locatorHeights tip.height).length ≤ chainEventLocatorMax :=
      length_locatorHeightsFrom_le _ _ _
    rw [locatorHeights_eq_cons, length_cons] at hle
    exact (length_filterMap_le _ _).trans_lt hle

def tipAnchor : ChainEventCursorAnchor := ⟨(tipId start chain).height, (tipId start chain).hash⟩

def branchLocator : ChainEventLocator := locatorAt start chain (tipAnchor start chain)

variable {start chain}

theorem mem_branchEntries {heights : List Nat} {anchor : ChainEventCursorAnchor} :
    anchor ∈ branchEntries start chain heights ↔
      anchor.height ∈ heights ∧ hashAt start chain anchor.height = some anchor.hash := by
  simp only [branchEntries, mem_filterMap, Option.map_eq_some_iff]
  constructor
  · rintro ⟨height, hmem, hash, hhash, rfl⟩
    exact ⟨hmem, hhash⟩
  · rintro ⟨hmem, hhash⟩
    exact ⟨anchor.height, hmem, anchor.hash, hhash, rfl⟩

theorem hashAt_tip (h : Linked start chain) (hne : chain ≠ []) :
    hashAt start chain (tipId start chain).height = some (tipId start chain).hash := by
  obtain ⟨front, last, rfl⟩ := (eq_nil_or_concat' chain).resolve_left hne
  rw [tipId_concat]
  exact h.hashAt_of_mem (by simp)

theorem heights_branchEntries (heights : List Nat) :
    ((branchEntries start chain heights).map ChainEventCursorAnchor.height).Sublist heights := by
  induction heights with
  | nil => exact .slnil
  | cons height heights ih =>
    rw [branchEntries, filterMap_cons]
    cases hashAt start chain height with
    | none => exact ih.cons _
    | some hash => exact ih.cons_cons _

/-- A locator whose tip is on the branch lists blocks of the branch, from the top down. -/
theorem entries_locatorAt {tip : ChainEventCursorAnchor}
    (htip : hashAt start chain tip.height = some tip.hash) :
    ((entries (locatorAt start chain tip)).map ChainEventCursorAnchor.height).Pairwise (· > ·) ∧
      ∀ anchor ∈ entries (locatorAt start chain tip),
        hashAt start chain anchor.height = some anchor.hash := by
  refine ⟨(locatorHeights_descending tip.height).sublist
    ((heights_branchEntries (locatorHeights tip.height).tail).cons_cons tip.height), ?_⟩
  intro anchor hmem
  rcases mem_cons.mp hmem with rfl | hmem
  · exact htip
  · exact (mem_branchEntries.mp hmem).2

section

variable {height : Nat} {hash : BlockHash} (h : Linked start chain)
  (hsome : hashAt start chain height = some hash)
include h hsome

theorem height_lt_of_hashAt : height < u32Bound := by
  obtain ⟨v, _, rfl, _⟩ := h.hashAt_eq_some.mp hsome
  exact v.block.height_lt

theorem height_le_of_hashAt : height ≤ start.height + chain.length := by
  obtain ⟨v, hv, rfl, _⟩ := h.hashAt_eq_some.mp hsome
  obtain ⟨i, hi⟩ := mem_iff_getElem?.mp hv
  have hlt := (List.getElem?_eq_some_iff.mp hi).1
  rw [h.height_of_getElem? hi]
  omega

end

end Branch

/-! ## Cursors -/

section Cursors

variable {A : CursorAuthority} {family : ChainEventStreamFamily} {sequence : Nat}
  {locator : ChainEventLocator}

variable (A family sequence locator) in
def mintedCursor : StreamCursorTokenV1 := sign A (chainEventBody A.network family sequence locator)

theorem chainEvent_eq : chainEvent A family sequence locator =
    .ok (mintedCursor A family sequence locator) := by
  have hlt : locator.ancestors.length < 32 := locator.length_lt
  rw [chainEvent, rejectIf_of_not (by omega)]
  rfl

theorem decodeCursor_minted (hsequence : sequence < u64Bound)
    (hfits : ∀ anchor ∈ entries locator, anchor.height < u32Bound) :
    decodeCursor A (mintedCursor A family sequence locator) = .ok ⟨family, sequence, locator⟩ := by
  rw [decodeCursor, mintedCursor, decodeChainEvent_sign hsequence hfits]
  rfl

end Cursors

/-! ## Retained events -/

section Events

variable {D : Type} {E : Env D}

def entryEpoch (plan : CanonicalStoreBuildPlan) (i : Nat) (h : HistoryEntry E) : ChainEpoch where
  id := i + 1
  visibleTip := (h.epoch plan).visibleTip
  settledTip := (h.epoch plan).settledTip
  tipMetadata := (h.epoch plan).tipMetadata
  createdAt := h.createdAt

def entryRetained (start : BlockId) (past : List (HistoryEntry E)) (i : Nat) (h : HistoryEntry E) :
    CanonicalRetainedEvent D where
  eventSequence := i + 1
  resultingEpochId := i + 1
  previousEpochId := if i = 0 then none else some i
  kind := if (h.revertedRange start (previousLength past i)).isSome then .reorg else .committed
  revertedRange := h.revertedRange start (previousLength past i)
  committedRange := h.committedRange start
  resultingFence := ⟨i + 1, i + 1, tipId start h.chain,
    ⟨h.chain.length, (sequenceSummary start h.chain).sequenceDigest.bytes⟩⟩

def entryEvent (plan : CanonicalStoreBuildPlan) (i : Nat) (previous h : HistoryEntry E) :
    ChainEvent :=
  let start := plan.historyPredecessor.blockId
  let committed : ChainEpochCommitted := ⟨entryEpoch plan i h, h.committedRange start⟩
  match h.revertedRange start previous.chain.length with
  | some range => .chainReorged ⟨entryEpoch plan (i - 1) previous, range⟩ committed
  | none => .chainCommitted committed

/-- The entry is in the family: the settled family has the commits whose tip is settled. -/
def inFamily (family : ChainEventStreamFamily) (h : HistoryEntry E) : Bool :=
  match family with
  | .visible => true
  | .settled => (h.kind = .baseline ∨ h.kind = .append) ∧ h.chain.length ≤ h.settled

theorem settled_of_inFamily {family : ChainEventStreamFamily} {h : HistoryEntry E}
    (hin : inFamily family h = true) (hfamily : family = .settled) :
    h.chain.length ≤ h.settled := by
  subst hfamily
  exact (of_decide_eq_true hin).2

def entryEnvelope (A : CursorAuthority) (plan : CanonicalStoreBuildPlan)
    (family : ChainEventStreamFamily) (i : Nat) (previous h : HistoryEntry E) :
    ChainEventEnvelope where
  cursor := mintedCursor A family (i + 1)
    (branchLocator plan.historyPredecessor.blockId h.chain)
  eventSequence := i + 1
  chainEpoch := entryEpoch plan i h
  settledTipHeight := (entryEpoch plan i h).settledTip.height
  event := entryEvent plan i previous h

def envelopesOf (A : CursorAuthority) (plan : CanonicalStoreBuildPlan)
    (past : List (HistoryEntry E))
    (family : ChainEventStreamFamily) (sequence : Nat) : List ChainEventEnvelope :=
  match past[sequence - 1]? with
  | none => []
  | some h =>
    if inFamily family h then
      [entryEnvelope A plan family (sequence - 1) ((past[sequence - 2]?).getD h) h]
    else []

section Reads

variable [DecidableEq D] {st : PrimaryState E} {floor : Nat} {past : List (HistoryEntry E)}
  {ds : List (Displacement E)} (inv : EventsInvariant st floor past ds)
include inv

theorem displacedAt_lt (htimes : ∀ h ∈ past, h.createdAt < u64Bound) :
    ∀ d ∈ ds, d.displacedAt < u64Bound := by
  intro d hd
  obtain ⟨i, _, _, next, hat⟩ := inv.archived.of_mem d hd
  rw [hat.time]
  exact htimes next (mem_of_getElem? hat.next_at)

theorem blockHashAt_eq (height : Nat) :
    blockHashAt st.live.store.db height = hashAt st.live.start st.live.chain height := by
  obtain ⟨_, _, _, live⟩ := inv.primary.history.current
  exact live.holds.headerHash_eq height

variable {h : HistoryEntry E} {i : Nat}

theorem chain_ne_nil (hi : past[i]? = some h) : h.chain ≠ [] := by
  have hvalid := inv.primary.history.valid h (mem_of_getElem? hi)
  have hpos := hvalid.settled_pos
  have hle := hvalid.settled_le
  exact length_pos_iff.mp (by omega)

theorem chainEpochAt_eq (hi : past[i]? = some h) :
    chainEpochAt st.live.store.db (i + 1) = .ok (entryEpoch st.live.store.buildPlan i h) := by
  rw [chainEpochAt, inv.primary.history.epochs i h hi]
  rfl

theorem locatorEntry_eq (htimes : ∀ h ∈ past, h.createdAt < u64Bound) (hi : past[i]? = some h)
    {height : Nat} (hle : height ≤ st.live.start.height + h.chain.length) :
    locatorEntry st.live.store.db (i + 1) height =
      .ok ((hashAt st.live.start h.chain height).map (ChainEventCursorAnchor.mk height)) := by
  rw [locatorEntry, (inv.archive.sound (displacedAt_lt inv htimes)).firstDisplaced]
  change (.ok _ : Except CanonicalEventError _) = _
  rw [blockHashAt_eq inv, inv.hashAfter hi hle]

section

variable (htimes : ∀ h ∈ past, h.createdAt < u64Bound) (A : CursorAuthority)
  (family : ChainEventStreamFamily) (hi : past[i]? = some h)
include htimes A family hi

theorem mintAtAnchor_eq {tip : ChainEventCursorAnchor}
    (hle : tip.height ≤ st.live.start.height + h.chain.length) :
    mintWalletEventCursorAtAnchor A st.live.store.db family (i + 1) tip =
      .ok (mintedCursor A family (i + 1) (locatorAt st.live.start h.chain tip)) := by
  have hcollect : collect (locatorEntry st.live.store.db (i + 1)) (locatorHeights tip.height).tail =
      .ok ((locatorHeights tip.height).tail.map fun height =>
        (hashAt st.live.start h.chain height).map (ChainEventCursorAnchor.mk height)) := by
    rw [collect_eq_ok, List.forall₂_map_right_iff, List.forall₂_same]
    intro height hmem
    exact locatorEntry_eq inv htimes hi ((le_of_mem_locatorHeights hmem).trans hle)
  have hancestors : ((locatorHeights tip.height).tail.map fun height =>
      (hashAt st.live.start h.chain height).map (ChainEventCursorAnchor.mk height)).filterMap id =
      (locatorAt st.live.start h.chain tip).ancestors := by
    rw [filterMap_map]
    rfl
  have hnew : ChainEventLocator.new (tip :: (locatorAt st.live.start h.chain tip).ancestors) =
      .ok (locatorAt st.live.start h.chain tip) := by
    rw [ChainEventLocator.new, dif_pos (locatorAt st.live.start h.chain tip).length_lt]
    rfl
  rw [mintWalletEventCursorAtAnchor, hcollect, ok_bind, hancestors, hnew]
  simp only [Except.mapError, ok_bind, chainEvent_eq]

theorem mintCursor_eq :
    mintWalletEventCursor A st.live.store.db (entryEpoch st.live.store.buildPlan i h) family (i + 1) =
      .ok (mintedCursor A family (i + 1) (branchLocator st.live.start h.chain)) := by
  have hlinked := (inv.primary.history.valid h (mem_of_getElem? hi)).linked
  exact mintAtAnchor_eq inv htimes A family hi (Nat.le_of_eq hlinked.tipId_height)

end

theorem decodeCursor_branch (A : CursorAuthority) (family : ChainEventStreamFamily)
    (hi : past[i]? = some h) :
    decodeCursor A (mintedCursor A family (i + 1) (branchLocator st.live.start h.chain)) =
      .ok ⟨family, i + 1, branchLocator st.live.start h.chain⟩ := by
  have hlinked := (inv.primary.history.valid h (mem_of_getElem? hi)).linked
  have hlt := (List.getElem?_eq_some_iff.mp hi).1
  rw [inv.primary.history.length] at hlt
  refine decodeCursor_minted (lt_of_le_of_lt hlt inv.sequence_lt) fun anchor hmem => ?_
  exact height_lt_of_hashAt hlinked
    ((entries_locatorAt (hashAt_tip hlinked (chain_ne_nil inv hi))).2 anchor hmem)

theorem kept_lt (hi : past[i]? = some h) {kept : Nat} (hkind : h.kind = .replacement kept) :
    0 < i ∧ kept < previousLength past i ∧ kept < h.chain.length := by
  cases i with
  | zero =>
    have hbaseline := inv.primary.history.baseline h (by rw [head?_eq_getElem?]; exact hi)
    rw [hkind] at hbaseline
    cases hbaseline
  | succ i =>
    obtain ⟨previous, hprevious, hevolves⟩ := exists_previous inv.primary.history hi
    rw [previousLength_succ hprevious]
    cases hevolves with
    | append _ hkind' =>
      rw [hkind] at hkind'
      cases hkind'
    | @replacement kept' new hkind' hchain hnew _ hkept _ _ =>
      cases hkind.symm.trans hkind'
      have hlength := length_pos_iff.mpr hnew
      rw [hchain, length_append, length_take, Nat.min_eq_left (Nat.le_of_lt hkept)]
      omega

theorem validateEventRecordShape_entry (hi : past[i]? = some h) :
    validateEventRecordShape (i + 1) (h.event st.live.start i (previousLength past i)) =
      .ok () := by
  have hpos := length_pos_iff.mpr (chain_ne_nil inv hi)
  cases hkind : h.kind with
  | baseline =>
    simp only [validateEventRecordShape, HistoryEntry.event, HistoryEntry.revertedRange, hkind,
      HistoryEntry.committedRange, validateEventRange, Option.isSome_none, Bool.false_eq_true, if_false]
    rw [rejectIf_of_not (by omega), ok_bind, rejectIf_of_not (by simp)]
    rfl
  | append =>
    simp only [validateEventRecordShape, HistoryEntry.event, HistoryEntry.revertedRange, hkind,
      HistoryEntry.committedRange, validateEventRange, Option.isSome_none, Bool.false_eq_true, if_false]
    rw [rejectIf_of_not (by omega), ok_bind, rejectIf_of_not (by simp)]
    rfl
  | replacement kept =>
    obtain ⟨hi', hprevious, hchain⟩ := kept_lt inv hi hkind
    simp only [validateEventRecordShape, HistoryEntry.event, HistoryEntry.revertedRange, hkind,
      HistoryEntry.committedRange, validateEventRange, Option.isSome_some, if_true]
    rw [rejectIf_of_not (by omega), ok_bind, rejectIf_of_not (by omega), ok_bind,
      rejectIf_of_not (by simp [hi'])]

theorem readRetainedEvent_eq (hi : past[i]? = some h) (hfloor : floor ≤ i + 1) :
    readRetainedEvent st.live.store.db (i + 1) = .ok (entryRetained st.live.start past i h) := by
  rw [readRetainedEvent, inv.primary.history.events i h hi (.inr hfloor), okOr_some, ok_bind,
    validateEventRecordShape_entry inv hi, ok_bind]
  rw [rejectIf_of_not, ok_bind, rejectIf_of_not, ok_bind]
  · rfl
  · simp [HistoryEntry.event]
  · simp [validateEventTransition, HistoryEntry.event]

theorem matchesFamily_eq (family : ChainEventStreamFamily) (hi : past[i]? = some h) :
    walletEventMatchesFamily st.live.store.db (entryRetained st.live.start past i h) family =
      .ok (inFamily family h) := by
  cases family with
  | visible => rfl
  | settled =>
    have hvalid := inv.primary.history.valid h (mem_of_getElem? hi)
    have hvisible : (entryEpoch st.live.store.buildPlan i h).visibleTip.height =
        st.live.start.height + h.chain.length := hvalid.linked.tipId_height
    have hsettled : (entryEpoch st.live.store.buildPlan i h).settledTip.height =
        st.live.start.height + h.settled := hvalid.linked.tipId_take_height hvalid.settled_le
    rw [walletEventMatchesFamily]
    simp only [entryRetained, chainEpochAt_eq inv hi, ok_bind, hvisible, hsettled, inFamily,
      HistoryEntry.revertedRange, Nat.add_le_add_iff_left]
    obtain ⟨kind, hkind⟩ : ∃ kind, h.kind = kind := ⟨_, rfl⟩
    cases kind <;> simp [hkind]

theorem walletEvent_eq (hi : past[i]? = some h) :
    walletEvent st.live.store.db (entryRetained st.live.start past i h)
        ⟨entryEpoch st.live.store.buildPlan i h, h.committedRange st.live.start⟩ =
      .ok (entryEvent st.live.store.buildPlan i ((past[i - 1]?).getD h) h) := by
  cases hkind : h.kind with
  | baseline =>
    simp only [walletEvent, entryRetained, entryEvent, HistoryEntry.revertedRange, hkind]
    rfl
  | append =>
    simp only [walletEvent, entryRetained, entryEvent, HistoryEntry.revertedRange, hkind]
    rfl
  | replacement kept =>
    obtain ⟨hpos, _, _⟩ := kept_lt inv hi hkind
    obtain ⟨j, rfl⟩ : ∃ j, i = j + 1 := ⟨i - 1, by omega⟩
    obtain ⟨previous, hprevious, _⟩ := exists_previous inv.primary.history hi
    simp only [walletEvent, entryRetained, entryEvent, HistoryEntry.revertedRange, hkind,
      Nat.add_sub_cancel, hprevious, Option.getD_some, previousLength_succ hprevious,
      Option.isSome_some, if_true, Nat.add_one_ne_zero, if_false, okOr_some, ok_bind,
      chainEpochAt_eq inv hprevious]
    rfl

theorem projectEvent_eq (htimes : ∀ h ∈ past, h.createdAt < u64Bound) (A : CursorAuthority)
    (family : ChainEventStreamFamily) {sequence : Nat} (hfloor : floor ≤ sequence)
    (hle : sequence ≤ st.primary.currentEventSequence) :
    projectEvent A st.live.store.db family sequence =
      .ok (envelopesOf A st.live.store.buildPlan past family sequence) := by
  have hpos := inv.primary.floor_pos
  obtain ⟨i, rfl⟩ : ∃ i, sequence = i + 1 := ⟨sequence - 1, by omega⟩
  obtain ⟨h, hi⟩ := inv.exists_entry hle
  rw [projectEvent, readRetainedEvent_eq inv hi hfloor, ok_bind, matchesFamily_eq inv family hi,
    ok_bind, envelopesOf, Nat.add_sub_cancel, hi]
  simp only
  by_cases hfamily : inFamily family h = true
  · rw [if_pos hfamily, if_pos hfamily, walletEventEnvelope]
    have hepoch : chainEpochAt st.live.store.db
        (entryRetained st.live.start past i h).resultingEpochId =
        .ok (entryEpoch st.live.store.buildPlan i h) := chainEpochAt_eq inv hi
    have hcursor : mintWalletEventCursor A st.live.store.db
        (entryEpoch st.live.store.buildPlan i h) family
        (entryRetained st.live.start past i h).eventSequence =
        .ok (mintedCursor A family (i + 1) (branchLocator st.live.start h.chain)) :=
      mintCursor_eq inv htimes A family hi
    have hevent := walletEvent_eq inv hi
    rw [hepoch, ok_bind]
    change (walletEvent _ _ ⟨_, h.committedRange st.live.start⟩ >>= _ : Except _ _) >>= _ = _
    rw [hevent, ok_bind, hcursor, ok_bind]
    rfl
  · rw [if_neg hfamily, if_neg hfamily]

end Reads

end Events

end Zinder.ChainEvents
