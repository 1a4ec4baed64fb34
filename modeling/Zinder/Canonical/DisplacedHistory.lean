import Zinder.Canonical.ArchiveValidation
import Zinder.Canonical.PrimaryRun

/-!
# Zinder.Canonical.DisplacedHistory

What the archive says about the chain after an earlier event.

The archive keeps every displaced block under the event that displaced it. So the block at a height
after event `n` is the first one displaced there by a later event and, where no later event has
displaced one, the visible one (`EventsInvariant.hashAfter`).

* `ArchiveSound.firstDisplaced`: what `first_displaced_block_hash_after_event` reads.
* `Archived`: the displacements are those of the history.
* `EventsInvariant`: what holds of a primary store over whole runs, pruning included.
-/

namespace Zinder.Canonical

open KeyValue OrderedRows BigEndian List

variable {D : Type} {E : Env D}

/-! ## The first displacement after an event -/

namespace Displacement

def Covers (d : Displacement E) (height : Nat) : Prop :=
  d.revertedRange.start ≤ height ∧ height ≤ d.revertedRange.stop

instance (d : Displacement E) (height : Nat) : Decidable (d.Covers height) :=
  inferInstanceAs (Decidable (_ ∧ _))

def hashAt (d : Displacement E) (height : Nat) : Option BlockHash :=
  (d.blocks.find? fun v => v.block.height = height).map fun v => v.block.hash

namespace Valid

variable [DecidableEq D] {window : Nat} {d : Displacement E} (h : d.Valid window)
include h

theorem eq_of_height {v w : VisibleBlock E} (hv : v ∈ d.blocks) (hw : w ∈ d.blocks)
    (heq : v.block.height = w.block.height) : v = w := by
  have hnodup : (d.blocks.map fun v => v.block.height).Nodup := by
    rw [h.heights]
    exact nodup_range'
  exact inj_on_of_nodup_map hnodup hv hw heq

theorem covers_iff {height : Nat} : d.Covers height ↔ ∃ v ∈ d.blocks, v.block.height = height := by
  rw [← mem_map, h.heights, BlockHeightRange.mem_heights]
  rfl

theorem hashAt_of_mem {v : VisibleBlock E} (hv : v ∈ d.blocks) :
    d.hashAt v.block.height = some v.block.hash := by
  obtain ⟨w, hw⟩ : ∃ w, d.blocks.find? (fun w => w.block.height = v.block.height) = some w := by
    rw [← Option.isSome_iff_exists, find?_isSome]
    exact ⟨v, hv, by simp⟩
  have hheight : w.block.height = v.block.height := by simpa using find?_some hw
  rw [hashAt, hw, h.eq_of_height (mem_of_find?_eq_some hw) hv hheight]
  rfl

end Valid

end Displacement

def firstDisplaced (ds : List (Displacement E)) (eventSequence height : Nat) : Option BlockHash :=
  (ds.find? fun d => eventSequence < d.eventSequence ∧ d.Covers height).bind (·.hashAt height)

variable {d : Displacement E}

section Archive

variable [DecidableEq D] {db : Db D} {window : Nat} {ds : List (Displacement E)}

namespace ArchiveSound

section

variable (h : ArchiveSound db window ds)
include h

theorem eq_of_sequence {d e : Displacement E} (hd : d ∈ ds) (he : e ∈ ds)
    (heq : d.eventSequence = e.eventSequence) : d = e := by
  have hnodup : (ds.map fun d => d.eventSequence).Nodup :=
    (pairwise_map.mpr h.ascending).imp fun hlt => Nat.ne_of_lt hlt
  exact inj_on_of_nodup_map hnodup hd he heq

theorem seek_order (hd : d ∈ ds) {v : VisibleBlock E} (hv : v ∈ d.blocks) :
    (seek (orderKeyTag :: (toBytes 8 d.eventSequence ++
      (toBytes 4 v.block.height ++ List.replicate 32 0))) (archiveFamily db)).head? =
      some (d.orderRow v) := by
  let lowest : ArchivePosition := ⟨d.eventSequence, v.block.height, ⟨List.replicate 32 0, by simp⟩⟩
  have hvalid := h.valid d hd
  have hlowest : lowest.Fits := ⟨hvalid.sequence_lt, v.block.height_lt⟩
  have hkey : orderKeyTag :: (toBytes 8 d.eventSequence ++
      (toBytes 4 v.block.height ++ List.replicate 32 0)) = encodeOrderKey lowest := rfl
  have hzero : ∀ hash : BlockHash, ¬ hash.bytes < List.replicate 32 0 := by
    intro hash
    rw [lt_iff_ofBytes_lt (by simp [Bytes32.length_eq]),
      show ofBytes (List.replicate 32 0) = 0 by decide]
    exact Nat.not_lt_zero _
  rw [hkey]
  refine head?_seek (keysSorted_archiveFamily h.fits) ?_ ?_ ?_
  · rw [h.archiveFamily_eq]
    exact mem_append_right _ (mem_append_left _
      (mem_flatMap.mpr ⟨d, hd, mem_map_of_mem hv⟩))
  · rw [Displacement.orderRow, encodeOrderKey_lt (hvalid.position_fits v) hlowest]
    simp only [lowest, Displacement.position, lt_irrefl, hzero, and_false, or_false,
      not_false_eq_true]
  · intro q hq hlt
    rw [h.archiveFamily_eq] at hq
    simp only [mem_append] at hq
    have horder : (d.orderRow v).1.head? = some orderKeyTag := rfl
    rcases hq with hq | hq | hq | hq
    · exact lt_of_tag_lt (tag_of_mem_stateRows hq) rfl (by decide)
    · obtain ⟨e, he, hq⟩ := mem_flatMap.mp hq
      obtain ⟨w, hw, rfl⟩ := mem_map.mp hq
      have hfits := (h.valid e he).position_fits w
      rw [Displacement.orderRow, Displacement.orderRow,
        encodeOrderKey_lt hfits (hvalid.position_fits v)] at hlt
      rw [Displacement.orderRow, encodeOrderKey_lt hfits hlowest]
      rcases hlt with hlt | ⟨heq, hlt | ⟨hheight, hlt⟩⟩
      · exact .inl hlt
      · exact .inr ⟨heq, .inl hlt⟩
      · -- Within one event a height names one block.
        cases h.eq_of_sequence he hd heq
        cases hvalid.eq_of_height hw hv hheight
        exact absurd hlt (List.lt_irrefl _)
    · exact absurd hlt (List.lt_asymm (lt_of_tag_lt horder (tag_of_mem_pointerRows hq) (by decide)))
    · exact absurd hlt (List.lt_asymm (lt_of_tag_lt horder (tag_of_mem_contextRows hq) (by decide)))

theorem firstDisplacedFrom {a b : List (Displacement E)} (hsplit : ds = a ++ b) (height : Nat) :
    firstDisplacedBlockHashFrom (archiveFamily db) height (contextRows (displacedCount a) b) =
      .ok ((b.find? fun d => d.Covers height).bind (·.hashAt height)) := by
  induction b generalizing a with
  | nil => rfl
  | cons d b ih =>
    have hd : d ∈ ds := by simp [hsplit]
    have hvalid := h.valid d hd
    have hcount : displacedCount (a ++ [d]) = displacedCount a + d.blocks.length := by simp
    have hrest := ih (a := a ++ [d]) (by simp [hsplit])
    rw [hcount] at hrest
    have htag : (encodeEventContextKey d.eventSequence).head? = some eventContextKeyTag := rfl
    rw [contextRows, Displacement.contextRow, firstDisplacedBlockHashFrom,
      if_neg (not_not.mpr htag)]
    simp only [bind_eq_ok]
    refine ⟨(), by simp [encodeEventContextKey], _, readArray_eventContextKey _, ?_⟩
    rw [ofBytes_u64 hvalid.sequence_lt]
    refine ⟨_, decodeEventContext_encode (h.context_fits hsplit), ?_⟩
    change (if d.Covers height then _ else _) = _
    by_cases hcovers : d.Covers height
    · obtain ⟨v, hv, rfl⟩ := hvalid.covers_iff.mp hcovers
      rw [if_pos hcovers, find?_cons_of_pos (by simpa using hcovers)]
      simp only [bind_eq_ok, okOr_eq_ok, Option.bind_some]
      refine ⟨_, h.seek_order hd hv, _, decodeOrderKey_encode (hvalid.position_fits v), (), ?_, ?_⟩
      · simp [Displacement.position]
      · rw [hvalid.hashAt_of_mem hv]
        rfl
    · rw [if_neg hcovers, find?_cons_of_neg (by simpa using hcovers)]
      exact hrest

theorem firstDisplaced (eventSequence height : Nat) :
    firstDisplacedBlockHashAfterEvent db eventSequence height =
      .ok (firstDisplaced ds eventSequence height) := by
  -- Displacements are listed by event, so those after the event are a final segment.
  obtain ⟨a, b, hsplit, ha, hb⟩ : ∃ a b, ds = a ++ b ∧ (∀ d ∈ a, d.eventSequence ≤ eventSequence) ∧
      ∀ d ∈ b, eventSequence < d.eventSequence := by
    refine ⟨ds.takeWhile fun d => d.eventSequence ≤ eventSequence,
      ds.dropWhile fun d => d.eventSequence ≤ eventSequence,
      (takeWhile_append_dropWhile ..).symm, fun d hd => by simpa using mem_takeWhile_imp hd,
      fun d hd => ?_⟩
    rw [(OrderedRows.takeWhile_dropWhile_eq_filter (h.ascending.imp fun hlt hle => by
      rw [decide_eq_true_eq] at *
      omega)).2] at hd
    simpa using (mem_filter.mp hd).2
  have hfind : Canonical.firstDisplaced ds eventSequence height =
      (b.find? fun d => d.Covers height).bind (·.hashAt height) := by
    rw [Canonical.firstDisplaced, hsplit, find?_append, find?_eq_none.mpr]
    · rw [Option.none_or]
      rw [← head?_filter, ← head?_filter, filter_congr fun d hd => ?_]
      simp [hb d hd]
    · intro d hd
      have := ha d hd
      simp only [decide_eq_true_eq]
      omega
  rw [hfind, firstDisplacedBlockHashAfterEvent]
  cases hnext : checkedAdd u64Bound eventSequence 1 with
  | none =>
    have hbnil : b = [] := by
      refine eq_nil_iff_forall_not_mem.mpr fun d hd => ?_
      have hlt := (h.valid d (by simp [hsplit, hd])).sequence_lt
      have := hb d hd
      have hsome : checkedAdd u64Bound eventSequence 1 = some (eventSequence + 1) :=
        checkedAdd_eq_some.mpr ⟨by omega, rfl⟩
      rw [hnext] at hsome
      cases hsome
    rw [hbnil]
    rfl
  | some next =>
    obtain ⟨hlt, rfl⟩ := checkedAdd_eq_some.mp hnext
    have hseek : seek (encodeEventContextKey (eventSequence + 1)) (archiveFamily db) =
        contextRows (displacedCount a) b := by
      rw [h.archiveFamily_eq, hsplit, contextRows_append, Nat.zero_add, ← hsplit]
      have hreorder : stateRows ds ++ (ds.flatMap Displacement.orderRows ++ (pointerRows db ++
          (contextRows 0 a ++ contextRows (displacedCount a) b))) =
          (stateRows ds ++ (ds.flatMap Displacement.orderRows ++ (pointerRows db ++
            contextRows 0 a))) ++ contextRows (displacedCount a) b := by
        simp only [append_assoc]
      have htag : (encodeEventContextKey (eventSequence + 1)).head? = some eventContextKeyTag := rfl
      rw [hreorder, seek_append]
      · intro r hr
        simp only [mem_append] at hr
        rcases hr with hr | hr | hr | hr
        · exact lt_of_tag_lt (tag_of_mem_stateRows hr) htag (by decide)
        · exact lt_of_tag_lt (tag_of_mem_orderRows hr) htag (by decide)
        · exact lt_of_tag_lt (tag_of_mem_pointerRows hr) htag (by decide)
        · obtain ⟨a₁, d, a₂, rfl, rfl⟩ := mem_contextRows.mp hr
          have hd : d ∈ ds := by simp [hsplit]
          have := ha d (by simp)
          rw [Displacement.contextRow, encodeEventContextKey_lt (h.valid d hd).sequence_lt hlt]
          omega
      · intro r hr
        obtain ⟨b₁, d, b₂, rfl, rfl⟩ := mem_contextRows.mp hr
        have hd : d ∈ ds := by simp [hsplit]
        have := hb d (by simp)
        rw [Displacement.contextRow, encodeEventContextKey_lt (h.valid d hd).sequence_lt hlt]
        omega
    simp only [hseek]
    exact h.firstDisplacedFrom hsplit height

end

end ArchiveSound

end Archive

/-! ## The displacements of a history -/

/-- Entry `i + 1` of the history is a replacement that keeps `kept` blocks of the one before, and `d` is
what it displaced. -/
structure ReplacedAt (past : List (HistoryEntry E)) (i kept : Nat) (previous next : HistoryEntry E)
    (d : Displacement E) : Prop where
  previous_at : past[i]? = some previous
  next_at : past[i + 1]? = some next
  kind : next.kind = .replacement kept
  sequence : d.eventSequence = i + 2
  blocks : d.blocks = previous.chain.drop kept
  time : d.displacedAt = next.createdAt

structure Archived (past : List (HistoryEntry E)) (ds : List (Displacement E)) : Prop where
  of_mem : ∀ d ∈ ds, ∃ i kept previous next, ReplacedAt past i kept previous next d
  of_replacement : ∀ i kept previous next, past[i]? = some previous → past[i + 1]? = some next →
    next.kind = .replacement kept → ∃ d ∈ ds, ReplacedAt past i kept previous next d

theorem getElem?_of_isPrefix {α : Type} {l l' : List α} (h : l <+: l') {i : Nat} {a : α}
    (hi : l[i]? = some a) : l'[i]? = some a := by
  obtain ⟨rest, rfl⟩ := h
  rw [getElem?_append_left (List.getElem?_eq_some_iff.mp hi).1, hi]

variable {previous next : HistoryEntry E}

theorem ReplacedAt.mono {past past' : List (HistoryEntry E)} {i kept : Nat}
    (h : ReplacedAt past i kept previous next d) (hpast : past <+: past') :
    ReplacedAt past' i kept previous next d :=
  { h with
    previous_at := getElem?_of_isPrefix hpast h.previous_at
    next_at := getElem?_of_isPrefix hpast h.next_at }

namespace Archived

variable {past : List (HistoryEntry E)} {ds : List (Displacement E)}

theorem single (h : HistoryEntry E) : Archived [h] [] where
  of_mem := by simp
  of_replacement i _ _ _ _ hnext := by simp at hnext

theorem append (h : Archived past ds) {next : HistoryEntry E} (hkind : next.kind = .append) :
    Archived (past ++ [next]) ds where
  of_mem d hd := by
    obtain ⟨i, kept, previous, next, hat⟩ := h.of_mem d hd
    exact ⟨i, kept, previous, next, hat.mono (prefix_append _ _)⟩
  of_replacement i kept previous next' hprevious hnext hreplacement := by
    have hlt : i + 1 < past.length := by
      by_contra hge
      obtain ⟨hbound, heq⟩ := List.getElem?_eq_some_iff.mp hnext
      rw [getElem_append_right (by omega), getElem_singleton] at heq
      rw [← heq, hkind] at hreplacement
      cases hreplacement
    rw [getElem?_append_left (by omega)] at hprevious hnext
    obtain ⟨d, hd, hat⟩ := h.of_replacement i kept previous next' hprevious hnext hreplacement
    exact ⟨d, hd, hat.mono (prefix_append _ _)⟩

theorem replacement (h : Archived past ds) {last next : HistoryEntry E} {kept : Nat}
    (hlast : past.getLast? = some last) (hkind : next.kind = .replacement kept)
    (hsequence : d.eventSequence = past.length + 1) (hblocks : d.blocks = last.chain.drop kept)
    (htime : d.displacedAt = next.createdAt) : Archived (past ++ [next]) (ds ++ [d]) := by
  obtain ⟨front, rfl⟩ := getLast?_eq_some_iff.mp hlast
  have hat : ReplacedAt (front ++ [last] ++ [next]) front.length kept last next d :=
    { previous_at := by simp
      next_at := by simp
      kind := hkind
      sequence := by simpa using hsequence
      blocks := hblocks
      time := htime }
  refine ⟨fun d' hd' => ?_, fun i kept' previous next' hprevious hnext hreplacement => ?_⟩
  · rcases mem_append.mp hd' with hd' | hd'
    · obtain ⟨i, kept', previous, next', hat'⟩ := h.of_mem d' hd'
      exact ⟨i, kept', previous, next', hat'.mono (prefix_append _ _)⟩
    · rw [mem_singleton.mp hd']
      exact ⟨_, _, _, _, hat⟩
  · by_cases hlt : i + 1 < (front ++ [last]).length
    · rw [getElem?_append_left (by omega)] at hprevious hnext
      obtain ⟨d', hd', hat'⟩ := h.of_replacement i kept' previous next' hprevious hnext hreplacement
      exact ⟨d', mem_append_left _ hd', hat'.mono (prefix_append _ _)⟩
    · obtain ⟨hbound, _⟩ := List.getElem?_eq_some_iff.mp hnext
      simp only [length_append, length_singleton] at hbound hlt
      obtain rfl : i = front.length := by omega
      cases hprevious.symm.trans hat.previous_at
      cases hnext.symm.trans hat.next_at
      cases hreplacement.symm.trans hat.kind
      exact ⟨d, by simp, hat⟩

end Archived

/-! ## The block at a height -/

def hashAt (start : BlockId) (chain : Chain E) (height : Nat) : Option BlockHash :=
  if start.height < height then
    (chain[height - (start.height + 1)]?).map fun v => v.block.hash
  else none

section HashAt

variable {start : BlockId} {chain : Chain E} {height : Nat}

theorem hashAt_append_left {a b : Chain E} (h : height ≤ start.height + a.length) :
    hashAt start (a ++ b) height = hashAt start a height := by
  unfold hashAt
  split
  · rw [getElem?_append_left (by omega)]
  · rfl

theorem hashAt_take {n : Nat} (hn : n ≤ chain.length) (h : height ≤ start.height + n) :
    hashAt start (chain.take n) height = hashAt start chain height := by
  have hlength : (chain.take n).length = n := by rw [length_take, Nat.min_eq_left hn]
  conv_rhs => rw [← take_append_drop n chain]
  exact (hashAt_append_left (by rw [hlength]; exact h)).symm

theorem Linked.hashAt_of_mem (h : Linked start chain) {v : VisibleBlock E} (hv : v ∈ chain) :
    hashAt start chain v.block.height = some v.block.hash := by
  obtain ⟨i, hi⟩ := mem_iff_getElem?.mp hv
  have hheight := h.height_of_getElem? hi
  have hindex : v.block.height - (start.height + 1) = i := by omega
  rw [hashAt, if_pos (by omega), hindex, hi]
  rfl

theorem Linked.hashAt_eq_some (h : Linked start chain) {hash : BlockHash} :
    hashAt start chain height = some hash ↔
      ∃ v ∈ chain, v.block.height = height ∧ v.block.hash = hash := by
  constructor
  · intro hsome
    unfold hashAt at hsome
    split at hsome
    · obtain ⟨v, hv, rfl⟩ := Option.map_eq_some_iff.mp hsome
      have hheight := h.height_of_getElem? hv
      exact ⟨v, mem_of_getElem? hv, by omega, rfl⟩
    · cases hsome
  · rintro ⟨v, hv, rfl, rfl⟩
    exact h.hashAt_of_mem hv

theorem HoldsChain.headerHash_eq {plan : CanonicalStoreBuildPlan}
    {earlier : List SubtreeRootArtifact} {db : Db D} (h : HoldsChain plan earlier chain db)
    (height : Nat) :
    (db.lookup (Key.blockHeader height)).map BlockHeaderArtifact.blockHash =
      hashAt plan.historyPredecessor.blockId chain height := by
  refine Option.ext fun hash => ?_
  rw [h.linked.hashAt_eq_some]
  constructor
  · intro hsome
    refine h.block_of_retainedBlockHash ?_
    obtain ⟨header, hheader, rfl⟩ := Option.map_eq_some_iff.mp hsome
    simp only [retainedBlockHash, hheader, okOr_some, ok_bind]
  · rintro ⟨v, hv, rfl, rfl⟩
    rw [h.lookup_header hv]
    rfl

theorem Evolves.hashAt_eq {window : Nat}
    (h : Evolves window previous next) (hle : height ≤ start.height + previous.chain.length)
    (hkept : ∀ kept, next.kind = .replacement kept → height ≤ start.height + kept) :
    height ≤ start.height + next.chain.length ∧
      hashAt start next.chain height = hashAt start previous.chain height := by
  cases h with
  | append v _ hchain _ =>
    rw [hchain, length_append]
    exact ⟨by omega, hashAt_append_left hle⟩
  | @replacement kept new hkind hchain _ _ hlt _ _ =>
    have hheight := hkept kept hkind
    have hlength : (previous.chain.take kept).length = kept := by
      rw [length_take, Nat.min_eq_left (Nat.le_of_lt hlt)]
    rw [hchain, length_append, hlength,
      hashAt_append_left (by rw [hlength]; exact hheight), hashAt_take (Nat.le_of_lt hlt) hheight]
    exact ⟨by omega, rfl⟩

end HashAt

/-! ## Runs -/

section Runs

variable [DecidableEq D]

theorem commitLiveAppend_sequence_lt {s s' : RocksDbCanonicalStore D} {a : CanonicalLiveAppend E}
    {activations : NetworkUpgradeActivations} {fence : CanonicalEventFence D}
    (h : commitLiveAppend s a activations = .ok (s', fence)) :
    s'.readyEvidence.visibleEventSequence < u64Bound := by
  obtain ⟨_, _, p, spec, hready, _, rfl, _⟩ := commitLiveAppend_eq_ok h
  simp only [hready]
  exact spec.epoch_lt

/-- What holds of every reachable primary state: its history, its archive, and that the archive is the
one of the history. -/
structure EventsInvariant (st : PrimaryState E) (floor : Nat) (past : List (HistoryEntry E))
    (ds : List (Displacement E)) : Prop where
  primary : PrimaryInvariant st floor past
  archive : ArchiveInvariant st.live ds
  ready : StoreReady st.live
  archived : Archived past ds
  sequence_lt : st.live.store.readyEvidence.visibleEventSequence < u64Bound

structure SameChain (s s' : RocksDbCanonicalStore D) : Prop where
  workload : s'.workload = s.workload
  plan : s'.buildPlan = s.buildPlan
  ready : s'.readyEvidence = s.readyEvidence
  lookup : ∀ k : Key, (∀ i, k ≠ .chainEvent i) → s'.db.lookup k = s.db.lookup k

omit [DecidableEq D] in
theorem SameChain.refl (s : RocksDbCanonicalStore D) : SameChain s s :=
  ⟨rfl, rfl, rfl, fun _ _ => rfl⟩

omit [DecidableEq D] in
theorem SameChain.lookup_archive {s s' : RocksDbCanonicalStore D} (h : SameChain s s') (k : Key)
    (hk : k.isArchive = true) : s'.db.lookup k = s.db.lookup k := by
  refine h.lookup k ?_
  rintro i rfl
  cases hk

omit [DecidableEq D] in
theorem sameChain_prunedTo (s : PrimaryStore D) (oldest floor now : Nat) :
    SameChain s.canonical (s.prunedTo oldest floor now).canonical := by
  refine ⟨rfl, rfl, rfl, fun k hk => ?_⟩
  refine lookup_write_of_untouched (fun hmem => ?_) _
  rw [map_map] at hmem
  obtain ⟨i, _, heq⟩ := mem_map.mp hmem
  exact hk i heq.symm

namespace EventsInvariant

variable {st st' : PrimaryState E} {floor : Nat} {past : List (HistoryEntry E)}
  {ds : List (Displacement E)}

theorem lifecycle (inv : EventsInvariant st floor past ds) {s' : PrimaryStore D} {floor' : Nat}
    (primary : PrimaryInvariant (st.withPrimary s') floor' past)
    (same : SameChain st.live.store s'.canonical) :
    EventsInvariant (st.withPrimary s') floor' past ds where
  primary := primary
  archive :=
    { holds := inv.archive.holds.of_untouched same.lookup_archive
      ascending := inv.archive.ascending
      past := fun d hd => by
        simp only [PrimaryState.withPrimary, same.ready]
        exact inv.archive.past d hd
      valid := fun d hd => by
        simp only [PrimaryState.withPrimary, RocksDbCanonicalStore.window, same.plan]
        exact inv.archive.valid d hd
      count_lt := inv.archive.count_lt }
  ready :=
    { workload := same.workload.trans inv.ready.workload
      valid := by
        simp only [PrimaryState.withPrimary, same.plan]
        exact inv.ready.valid
      tip_valid := by
        simp only [PrimaryState.withPrimary, same.plan]
        exact inv.ready.tip_valid
      advance := inv.ready.advance
      first := by
        simp only [PrimaryState.withPrimary, LiveState.start, same.plan, same.ready]
        exact inv.ready.first
      archive := by
        simp only [PrimaryState.withPrimary, RocksDbCanonicalStore.window, same.plan, same.ready]
        exact inv.ready.archive.of_untouched same.lookup_archive le_rfl }
  archived := inv.archived
  sequence_lt := by
    simp only [PrimaryState.withPrimary, same.ready]
    exact inv.sequence_lt

theorem commit (inv : EventsInvariant st floor past ds) {live : LiveState E}
    (step : LiveStep st.live live) :
    ∃ next ds', EventsInvariant ⟨live, st.lifecycle⟩ floor (past ++ [next]) ds' := by
  obtain ⟨last, hlast, hchain, hlive⟩ := inv.primary.history.current
  have hready := step.ready hlive inv.ready
  cases step with
  | append h =>
    obtain ⟨settled, history⟩ := inv.primary.history.append h
    exact ⟨_, ds, inv.primary.extend history, inv.archive.append hlive h, hready,
      inv.archived.append rfl, commitLiveAppend_sequence_lt h⟩
  | @replacement r first _ _ _ hfirst h =>
    obtain ⟨kept, settled, hheight, history⟩ := inv.primary.history.replacement hfirst h
    have archive := inv.archive.replacement hlive inv.ready hfirst h
    have hlength := history.length
    rw [length_append, inv.primary.history.length] at hlength
    refine ⟨_, ds ++ [displacement st.live r first], inv.primary.extend history, archive, hready,
      inv.archived.replacement hlast rfl ?_ ?_ rfl,
      hlength ▸ (archive.valid (displacement st.live r first) (by simp)).sequence_lt⟩
    · rw [inv.primary.history.length]
      rfl
    · have hbelow := hlive.holds.linked.below_eq_take first.block.height
      have hkept : first.block.height - (st.live.start.height + 1) = kept := by omega
      rw [hchain]
      refine fromHeight_eq_drop (hbelow.trans ?_)
      exact congrArg (fun n => st.live.chain.take n) hkept

/-- What the operations leave of the history: the plan, the events so far and, unless some are pruned,
the floor. -/
structure Extends (st : PrimaryState E) (floor : Nat) (past : List (HistoryEntry E))
    (operations : List PrimaryOperation) (st' : PrimaryState E) (floor' : Nat)
    (past' : List (HistoryEntry E)) : Prop where
  plan : st'.live.store.buildPlan = st.live.store.buildPlan
  floor_le : floor ≤ floor'
  floor_eq : (∀ now, .prune now ∉ operations) → floor' = floor
  past : past <+: past'

omit [DecidableEq D] in
theorem Extends.start {floor' : Nat} {past' : List (HistoryEntry E)}
    {operations : List PrimaryOperation}
    (h : Extends st floor past operations st' floor' past') : st'.live.start = st.live.start :=
  congrArg (fun plan => plan.historyPredecessor.blockId) h.plan

section

variable (inv : EventsInvariant st floor past ds)
include inv

theorem step {operation : PrimaryOperation} (h : PrimaryStep st operation st') :
    ∃ floor' past' ds', Extends st floor past [operation] st' floor' past' ∧
      EventsInvariant st' floor' past' ds' := by
  have hsame : ∀ {s' : PrimaryStore D}, PrimaryInvariant (st.withPrimary s') floor past →
      s'.canonical = st.live.store → ∃ floor' past' ds',
        Extends st floor past [operation] (st.withPrimary s') floor' past' ∧
          EventsInvariant (st.withPrimary s') floor' past' ds' := by
    intro s' primary hcanonical
    have hchain : SameChain st.live.store s'.canonical := hcanonical ▸ .refl _
    exact ⟨floor, past, ds, ⟨hchain.plan, le_rfl, fun _ => rfl, prefix_rfl⟩,
      inv.lifecycle primary hchain⟩
  have hprune : ∀ {s' : PrimaryStore D} {requested now : Nat} {report : CanonicalEventRetentionReport},
      operation = .prune now → st.primary.pruneCanonicalEventsBefore requested now = .ok (s', report) →
      ∃ floor' past' ds', Extends st floor past [operation] (st.withPrimary s') floor' past' ∧
        EventsInvariant (st.withPrimary s') floor' past' ds' := by
    rintro s' requested now report rfl h
    obtain ⟨floor', hle, primary⟩ := inv.primary.prune h
    obtain ⟨_, _, _, _, rfl⟩ := prune_eq_ok h
    exact ⟨floor', past, ds, ⟨rfl, hle, fun hnone => absurd mem_cons_self (hnone now),
      prefix_rfl⟩, inv.lifecycle primary (sameChain_prunedTo st.primary _ _ _)⟩
  cases h with
  | commit h =>
    obtain ⟨next, ds', inv'⟩ := inv.commit h
    exact ⟨floor, _, ds', ⟨h.buildPlan_eq, le_rfl, fun _ => rfl, prefix_append _ _⟩, inv'⟩
  | acquire h =>
    have primary := (inv.primary.acquire h).1
    obtain ⟨_, _, _, rfl⟩ := acquire_eq_ok h
    exact hsame primary rfl
  | renew h =>
    have primary := inv.primary.renew h
    obtain ⟨_, _, _, _, _, _, _, rfl⟩ := renew_eq_ok h
    exact hsame primary rfl
  | release h =>
    have primary := inv.primary.release h
    rcases release_eq_ok h with ⟨_, rfl⟩ | ⟨_, rfl⟩ <;> exact hsame primary rfl
  | prune h => exact hprune rfl h
  | pruneBefore h =>
    obtain ⟨requested, h⟩ := pruneBefore_eq_ok h
    exact hprune rfl h

theorem run {operations : List PrimaryOperation} (h : PrimaryRun st operations st') :
    ∃ floor' past' ds', Extends st floor past operations st' floor' past' ∧
      EventsInvariant st' floor' past' ds' := by
  induction h with
  | nil => exact ⟨floor, past, ds, ⟨rfl, le_rfl, fun _ => rfl, prefix_rfl⟩, inv⟩
  | snoc _ hstep ih =>
    obtain ⟨floor₁, past₁, ds₁, h₁, inv₁⟩ := ih
    obtain ⟨floor₂, past₂, ds₂, h₂, inv₂⟩ := inv₁.step hstep
    refine ⟨floor₂, past₂, ds₂, ⟨h₂.plan.trans h₁.plan, h₁.floor_le.trans h₂.floor_le, fun hnone => ?_,
      h₁.past.trans h₂.past⟩, inv₂⟩
    simp only [mem_append, not_or] at hnone
    exact (h₂.floor_eq fun now => (hnone now).2).trans (h₁.floor_eq fun now => (hnone now).1)

/-! ### The chain after an event -/

theorem exists_entry {i : Nat} (hi : i < st.primary.currentEventSequence) :
    ∃ h, past[i]? = some h :=
  ⟨_, getElem?_eq_getElem (by rw [inv.primary.history.length]; exact hi)⟩

end

variable {height : Nat}

section

variable (inv : EventsInvariant st floor past ds)
include inv

theorem covers_iff (hd : d ∈ ds) {i kept : Nat} (hat : ReplacedAt past i kept previous next d) :
    d.Covers height ↔ st.live.start.height + kept < height ∧
      height ≤ st.live.start.height + previous.chain.length := by
  have hlinked := (inv.primary.history.valid previous (mem_of_getElem? hat.previous_at)).linked
  have hheights := hlinked.drop_heights kept
  rw [(inv.archive.valid d hd).covers_iff, ← mem_map, hat.blocks, hheights,
    BlockHeightRange.mem_heights]
  simp only
  omega

theorem hashAt_kept {i j : Nat} (hij : i ≤ j) {h h' : HistoryEntry E} (hi : past[i]? = some h)
    (hj : past[j]? = some h') (hle : height ≤ st.live.start.height + h.chain.length)
    (hkept : ∀ d ∈ ds, i + 1 < d.eventSequence → d.eventSequence ≤ j + 1 → ¬ d.Covers height) :
    height ≤ st.live.start.height + h'.chain.length ∧
      hashAt st.live.start h'.chain height = hashAt st.live.start h.chain height := by
  induction j, hij using Nat.le_induction generalizing h' with
  | base =>
    cases hi.symm.trans hj
    exact ⟨hle, rfl⟩
  | succ j hij ih =>
    obtain ⟨previous, hprevious, hevolves⟩ := exists_previous inv.primary.history hj
    obtain ⟨hle', heq⟩ := ih hprevious fun d hd hafter hbefore => hkept d hd hafter (by omega)
    obtain ⟨hle'', heq'⟩ := hevolves.hashAt_eq hle' fun kept hkind => by
      obtain ⟨d, hd, hat⟩ := inv.archived.of_replacement j kept previous h' hprevious hj hkind
      have hsequence := hat.sequence
      have hnot := hkept d hd (by omega) (by omega)
      rw [inv.covers_iff hd hat] at hnot
      omega
    exact ⟨hle'', heq'.trans heq⟩

/-- The block at a height after event `i + 1` is the first one displaced there later, or else the
visible one. -/
theorem hashAfter {i : Nat} {h : HistoryEntry E} (hi : past[i]? = some h)
    (hle : height ≤ st.live.start.height + h.chain.length) :
    (firstDisplaced ds (i + 1) height).or (hashAt st.live.start st.live.chain height) =
      hashAt st.live.start h.chain height := by
  cases hfind : ds.find? fun d => i + 1 < d.eventSequence ∧ d.Covers height with
  | none =>
    have hnone : ∀ d ∈ ds, i + 1 < d.eventSequence → ¬ d.Covers height := by
      simpa using hfind
    obtain ⟨last, hlast, hchain, _⟩ := inv.primary.history.current
    obtain ⟨hlt, _⟩ := List.getElem?_eq_some_iff.mp hi
    rw [getLast?_eq_getElem?] at hlast
    obtain ⟨_, heq⟩ := inv.hashAt_kept (by omega : i ≤ past.length - 1) hi hlast hle
      fun d hd hafter _ => hnone d hd hafter
    rw [firstDisplaced, hfind, ← hchain, heq]
    rfl
  | some d =>
    obtain ⟨hp, before, after, hsplit, hbefore⟩ := find?_eq_some_iff_append.mp hfind
    simp only [decide_eq_true_eq] at hp
    have hd : d ∈ ds := by simp [hsplit]
    obtain ⟨j, kept, previous, next, hat⟩ := inv.archived.of_mem d hd
    have hsequence := hat.sequence
    -- An earlier displacement at this height would have been found first.
    have hearlier : ∀ e ∈ ds, i + 1 < e.eventSequence → e.eventSequence ≤ j + 1 →
        ¬ e.Covers height := by
      intro e he hafter hle' hcovers
      have hascending := inv.archive.ascending
      rw [hsplit] at he hascending
      rcases mem_append.mp he with he | he
      · have := hbefore e he
        simp [hafter, hcovers] at this
      · rcases mem_cons.mp he with rfl | he
        · omega
        · have := (pairwise_cons.mp (pairwise_append.mp hascending).2.1).1 e he
          omega
    obtain ⟨_, heq⟩ := inv.hashAt_kept (by omega : i ≤ j) hi hat.previous_at hle hearlier
    have hvalid := inv.archive.valid d hd
    have hlinked := (inv.primary.history.valid previous
      (mem_of_getElem? hat.previous_at)).linked
    obtain ⟨v, hv, rfl⟩ := hvalid.covers_iff.mp hp.2
    have hmem : v ∈ previous.chain := mem_of_mem_drop (hat.blocks ▸ hv)
    rw [firstDisplaced, hfind, Option.bind_some, hvalid.hashAt_of_mem hv, ← heq,
      hlinked.hashAt_of_mem hmem]
    rfl

end

end EventsInvariant

theorem PrimaryPublished.events {st : PrimaryState E} (h : PrimaryPublished st) :
    ∃ entry, EventsInvariant st 1 [entry] [] := by
  obtain ⟨entry, primary⟩ := h.invariant
  have hlength := primary.history.length
  have hlt : [entry].length < u64Bound := (by decide : 1 < u64Bound)
  rw [hlength] at hlt
  obtain ⟨hpublished⟩ := h
  exact ⟨entry, primary, hpublished.archive, hpublished.ready, .single entry, hlt⟩

theorem PrimaryPublished.run_events {st₀ st : PrimaryState E} (h : PrimaryPublished st₀)
    {operations : List PrimaryOperation} (run : PrimaryRun st₀ operations st) :
    ∃ floor past ds, EventsInvariant st floor past ds := by
  obtain ⟨entry, inv⟩ := h.events
  obtain ⟨floor, past, ds, _, inv'⟩ := inv.run run
  exact ⟨floor, past, ds, inv'⟩

end Runs

end Zinder.Canonical
