import Zinder.Canonical.ArchiveRows

/-!
# Zinder.Canonical.ArchiveValidation

The archive a run of live transitions leaves is the record of what the run displaced, and the
validation of the permanent archive on reopen accepts it.

* `Displacement.Valid.decode` — an archived row decodes to the block it was written for.
* `ArchiveSound.event_rows` — the rows of an event cover its reverted range.
* `ArchiveSound.validate` — the whole validation.
-/

namespace Zinder.Canonical

open OrderedRows BigEndian List

variable {D : Type} {E : Env D}

section Records

variable [DecidableEq D]

def ArchivedAs (d : Displacement E) (v : VisibleBlock E) (block : DisplacedBlock) : Prop :=
  ∃ replay, decodeCanonicalBlockReplay E.hash E.replay v.displaced.replayBytes = .ok replay ∧
    replay.facts.height = v.block.height ∧
    deriveDisplacedBlock (d.position v) (d.record v) replay.facts = .ok block

def DisplacedBlock.position (block : DisplacedBlock) : ArchivePosition :=
  ⟨block.displacementEventSequence, block.header.height, block.blockHash⟩

theorem ArchivedAs.position {d : Displacement E} {v : VisibleBlock E} {block : DisplacedBlock}
    (h : ArchivedAs d v block) : block.position = d.position v := by
  obtain ⟨replay, _, hheight, hderive⟩ := h
  simp only [deriveDisplacedBlock, bind_eq_ok] at hderive
  obtain ⟨_, _, _, _, hderive⟩ := hderive
  cases hderive
  simp only [DisplacedBlock.position, Displacement.position]
  rw [show replay.facts.blockHeader.height = v.block.height from hheight]

theorem Displacement.Valid.decode {window : Nat} {d : Displacement E} (h : d.Valid window)
    (htime : d.displacedAt < u64Bound) {v : VisibleBlock E} (hv : v ∈ d.blocks) (before : Nat) :
    ∃ block, decodeAndValidateRecordWithContext E (encodeOrderKey (d.position v))
      (encodeArchiveRecord (d.record v)) (d.context before) = .ok block ∧
      ArchivedAs d v block := by
  have hwritable := h.writable v hv
  simp only [validateDisplacedWriteBlock, bind_eq_ok, mapError_ok_iff, rejectIf_eq_ok,
    okOr_eq_ok] at hwritable
  obtain ⟨replay, hreplay, _, hidentity, coinbase, hcoinbase, _, hunique, _, hraw, _⟩ := hwritable
  simp only [not_or, not_not] at hidentity
  obtain ⟨hbytes, hheight, hhash⟩ := hidentity
  have hmem : v.block.height ∈ d.revertedRange.heights := by
    rw [← h.heights]
    exact mem_map_of_mem hv
  obtain ⟨hstart, hstop⟩ := BlockHeightRange.mem_heights.mp hmem
  have hderive : ∃ block, deriveDisplacedBlock (d.position v) (d.record v) replay.facts =
      .ok block := by
    simp only [deriveDisplacedBlock, bind_eq_ok, okOr_eq_ok, rejectIf_eq_ok]
    exact ⟨_, coinbase, hcoinbase, (), hunique, rfl⟩
  obtain ⟨block, hblock⟩ := hderive
  refine ⟨block, ?_, replay, hreplay, hheight, hblock⟩
  simp only [decodeAndValidateRecordWithContext, bind_eq_ok, rejectIf_eq_ok, mapError_ok_iff]
  refine ⟨_, decodeOrderKey_encode (h.position_fits v), (), not_not.mpr rfl, _,
    decodeArchiveRecord_encode (h.record_fits htime hv), replay, hreplay, (), not_not.mpr hbytes,
    (), ?_, (), hraw, (), ?_, (), ?_, hblock⟩
  · rw [not_or, not_not, not_not]
    exact ⟨hheight, hhash⟩
  · simp [Displacement.record]
  · simp only [not_or, not_lt, not_not]
    exact ⟨hstart, hstop, rfl, rfl⟩

end Records

/-! ## Hash pointers -/

section Pointers

/-- A block hash names one height: the header a hash is computed from commits to its parent. -/
def HashNamesHeight (ds : List (Displacement E)) : Prop :=
  ∀ p ∈ displacedPositions ds, ∀ q ∈ displacedPositions ds,
    p.blockHash = q.blockHash → p.height = q.height

section

variable {ds : List (Displacement E)}
  (h : ds.Pairwise fun d d' => d.eventSequence < d'.eventSequence)
include h

theorem displacedPositions_ascending :
    (displacedPositions ds).Pairwise fun p q => p.eventSequence ≤ q.eventSequence := by
  refine pairwise_flatMap.mpr ⟨fun d _ => ?_, h.imp fun {d d'} hlt p hp q hq => ?_⟩
  · exact pairwise_map.mpr (pairwise_of_forall fun _ _ => le_rfl)
  · obtain ⟨_, _, rfl⟩ := mem_map.mp hp
    obtain ⟨_, _, rfl⟩ := mem_map.mp hq
    exact hlt.le

theorem newestPosition_of_mem {q : ArchivePosition} (hq : q ∈ displacedPositions ds) :
    ∃ p ∈ displacedPositions ds, newestPosition ds q.blockHash = some p ∧
      p.blockHash = q.blockHash ∧ q.eventSequence ≤ p.eventSequence := by
  obtain ⟨p, hp⟩ : ∃ p, newestPosition ds q.blockHash = some p := by
    rw [← Option.isSome_iff_exists, newestPosition, find?_isSome]
    exact ⟨q, mem_reverse.mpr hq, decide_eq_true rfl⟩
  obtain ⟨hhash, newer, older, hsplit, hnewer⟩ := find?_eq_some_iff_append.mp hp
  have hmem : p ∈ displacedPositions ds := by
    rw [← mem_reverse, hsplit]
    simp
  refine ⟨p, hmem, hp, of_decide_eq_true hhash, ?_⟩
  have hsorted : (newer ++ p :: older).Pairwise fun p q => q.eventSequence ≤ p.eventSequence := by
    rw [← hsplit]
    exact pairwise_reverse.mpr (displacedPositions_ascending h)
  have hin : q ∈ newer ++ p :: older := by
    rw [← hsplit]
    exact mem_reverse.mpr hq
  rcases mem_append.mp hin with hin | hin
  · simpa using hnewer q hin
  · rcases mem_cons.mp hin with rfl | hin
    · exact le_rfl
    · exact (pairwise_cons.mp (pairwise_append.mp hsorted).2.1).1 q hin

end

variable [DecidableEq D] {db : Db D} {window : Nat} {ds : List (Displacement E)}

theorem ArchiveSound.mem_fits (h : ArchiveSound db window ds) {p : ArchivePosition}
    (hp : p ∈ displacedPositions ds) : p.Fits := by
  obtain ⟨d, hd, v, _, rfl⟩ := mem_displacedPositions.mp hp
  exact (h.valid d hd).position_fits v

theorem ArchiveSound.pointer_ok (h : ArchiveSound db window ds) (hnames : HashNamesHeight ds)
    {q : ArchivePosition} (hq : q ∈ displacedPositions ds) :
    validateLatestHashPointer (archiveFamily db) q = .ok () := by
  obtain ⟨p, hp, hnewest, hhash, hle⟩ := newestPosition_of_mem h.ascending hq
  have hpointer : readExactRow (archiveFamily db) (encodeHashPointerKey q.blockHash) =
      some (encodeHashPointer p) := by
    rw [readExactRow_eq h.fits (k := .displacedHashPointer q.blockHash) trivial rfl,
      h.holds.pointers, hnewest]
    rfl
  have hrow : readExactRow (archiveFamily db) (encodeOrderKey p) ≠ none := by
    obtain ⟨d, hd, v, hv, rfl⟩ := mem_displacedPositions.mp hp
    rw [readExactRow_eq h.fits (k := .displacedOrder (d.position v)) (h.mem_fits hp) rfl,
      (h.holds.order _ _).mpr ⟨d, hd, v, hv, rfl, rfl⟩]
    simp [archiveRowBytes]
  have hdecode := decodeHashPointer_encode (h.mem_fits hp)
  rw [hhash] at hdecode
  simp only [validateLatestHashPointer, bind_eq_ok, okOr_eq_ok, rejectIf_eq_ok]
  refine ⟨_, hpointer, p, hdecode, (), ?_, (), by omega, ?_⟩
  · exact not_not.mpr (hnames p hp q hq hhash)
  · exact hrow

end Pointers

/-! ## The rows of one event -/

theorem le_lastOrderKey {p : ArchivePosition} (hp : p.Fits) {sequence : Nat}
    (hsequence : sequence < u64Bound) :
    encodeOrderKey p ≤ lastOrderKey sequence ↔ p.eventSequence ≤ sequence := by
  have hlast : (⟨sequence, u32Bound - 1, ⟨List.replicate 32 0xff, length_replicate⟩⟩ :
      ArchivePosition).Fits := ⟨hsequence, by simp [u32Bound]⟩
  have hheight := hp.height
  rw [← List.not_lt, lastOrderKey, encodeOrderKey_lt hlast hp]
  have hmax : ¬ List.replicate 32 (0xff : UInt8) < p.blockHash.bytes :=
    not_replicate_lt 32 p.blockHash.length_eq
  simp only [hmax, and_false, or_false]
  omega

section Events

variable [DecidableEq D] {db : Db D} {window : Nat} {ds : List (Displacement E)}

variable {d : Displacement E} {a b : List (Displacement E)}

/-- A backward walk from an event's last key visits its rows, then those of earlier events, then
the state. -/
theorem ArchiveSound.seek_event (h : ArchiveSound db window ds) (hsplit : ds = a ++ d :: b) :
    seekForPrev (lastOrderKey d.eventSequence) (archiveFamily db) =
      d.orderRows.reverse ++ ((a.flatMap Displacement.orderRows).reverse ++
        (stateRows ds).reverse) := by
  have hd : d ∈ ds := by simp [hsplit]
  have hascending := h.ascending
  rw [hsplit] at hascending
  obtain ⟨_, hsuffix, hbefore⟩ := pairwise_append.mp hascending
  have hafter := (pairwise_cons.mp hsuffix).1
  have hkey : ∀ {e : Displacement E} {r : ByteRow}, e ∈ ds → r ∈ e.orderRows →
      (r.1 ≤ lastOrderKey d.eventSequence ↔ e.eventSequence ≤ d.eventSequence) := by
    intro e r he hr
    obtain ⟨v, _, rfl⟩ := mem_map.mp hr
    exact le_lastOrderKey ((h.valid e he).position_fits v) (h.valid d hd).sequence_lt
  have hfamily : archiveFamily db =
      (stateRows ds ++ (a.flatMap Displacement.orderRows ++ d.orderRows)) ++
        (b.flatMap Displacement.orderRows ++ (pointerRows db ++ contextRows 0 ds)) := by
    rw [h.archiveFamily_eq, hsplit, flatMap_append, flatMap_cons]
    simp only [append_assoc]
  rw [hfamily, seekForPrev_append]
  · simp only [reverse_append, append_assoc]
  · intro r hr
    rcases mem_append.mp hr with hr | hr
    · exact List.le_of_lt (lt_of_tag_lt (tag_of_mem_stateRows hr) rfl (by decide))
    · rcases mem_append.mp hr with hr | hr
      · obtain ⟨e, he, hr⟩ := mem_flatMap.mp hr
        exact (hkey (by simp [hsplit, he]) hr).mpr (hbefore e he d mem_cons_self).le
      · exact (hkey hd hr).mpr le_rfl
  · intro r hr
    rcases mem_append.mp hr with hr | hr
    · obtain ⟨e, he, hr⟩ := mem_flatMap.mp hr
      rw [hkey (by simp [hsplit, he]) hr, not_le]
      exact hafter e he
    · have hlast : (lastOrderKey d.eventSequence).head? = some orderKeyTag := rfl
      rw [List.not_le]
      rcases mem_append.mp hr with hr | hr
      · exact lt_of_tag_lt hlast (tag_of_mem_pointerRows hr) (by decide)
      · exact lt_of_tag_lt hlast (tag_of_mem_contextRows hr) (by decide)

theorem observeEventRows_stop {family : List ByteRow} {context : ArchiveEventContext}
    {rest : List ByteRow}
    (hrest : ∀ r ∈ rest.head?, r.1.head? ≠ some orderKeyTag ∨
      ∃ p, decodeOrderKey r.1 = .ok p ∧ p.eventSequence ≠ context.eventSequence) :
    observeEventRows E family context rest = .ok [] := by
  cases rest with
  | nil => rfl
  | cons r rest =>
    obtain ⟨key, encoded⟩ := r
    rw [observeEventRows]
    rcases hrest (key, encoded) rfl with htag | ⟨p, hdecode, hne⟩
    · rw [if_pos htag]
    · split
      · rfl
      · simp only [bind_eq_ok]
        refine ⟨p, hdecode, ?_⟩
        rw [if_pos hne]

section

variable (h : ArchiveSound db window ds) (hnames : HashNamesHeight ds)
include h hnames

theorem ArchiveSound.observe (hd : d ∈ ds) (before : Nat) {blocks : Chain E}
    (hblocks : ∀ v ∈ blocks, v ∈ d.blocks) {rest : List ByteRow}
    (hrest : ∀ r ∈ rest.head?, r.1.head? ≠ some orderKeyTag ∨ ∃ p, decodeOrderKey r.1 = .ok p ∧
      p.eventSequence ≠ d.eventSequence) :
    observeEventRows E (archiveFamily db) (d.context before) (blocks.map d.orderRow ++ rest) =
      .ok (blocks.map fun v => v.block.height) := by
  induction blocks with
  | nil => exact observeEventRows_stop hrest
  | cons v blocks ih =>
    have hv : v ∈ d.blocks := hblocks v mem_cons_self
    have hmem : d.position v ∈ displacedPositions ds :=
      mem_displacedPositions.mpr ⟨d, hd, v, hv, rfl⟩
    obtain ⟨block, hblock, _⟩ := (h.valid d hd).decode (h.time_lt d hd) hv before
    have htag : (encodeOrderKey (d.position v)).head? = some orderKeyTag := rfl
    have hsequence : (d.position v).eventSequence = (d.context before).eventSequence := rfl
    rw [map_cons, cons_append, Displacement.orderRow, observeEventRows,
      if_neg (not_not.mpr htag)]
    simp only [bind_eq_ok]
    refine ⟨d.position v, decodeOrderKey_encode (h.mem_fits hmem), ?_⟩
    rw [if_neg (not_not.mpr hsequence)]
    simp only [bind_eq_ok]
    exact ⟨block, hblock, (), h.pointer_ok hnames hmem, _,
      ih fun w hw => hblocks w (mem_cons_of_mem _ hw), rfl⟩

theorem ArchiveSound.event_rows (hsplit : ds = a ++ d :: b) (before : Nat) :
    validateLatestEventRows E (archiveFamily db) (d.context before) d.blocks.length = .ok () := by
  have hd : d ∈ ds := by simp [hsplit]
  have hlength : d.orderRows.reverse.length = d.blocks.length := by simp [Displacement.orderRows]
  have htake : (d.orderRows.reverse ++ ((a.flatMap Displacement.orderRows).reverse ++
      (stateRows ds).reverse)).take (d.blocks.length + 1) =
      d.blocks.reverse.map d.orderRow ++ ((a.flatMap Displacement.orderRows).reverse ++
        (stateRows ds).reverse).take 1 := by
    rw [← hlength, take_length_add_append, Displacement.orderRows, map_reverse]
  have hobserve : observeEventRows E (archiveFamily db) (d.context before)
      (d.blocks.reverse.map d.orderRow ++ ((a.flatMap Displacement.orderRows).reverse ++
        (stateRows ds).reverse).take 1) = .ok (d.blocks.reverse.map fun v => v.block.height) := by
    refine h.observe hnames hd before (fun v hv => mem_reverse.mp hv) fun r hr => ?_
    have hmem : r ∈ (a.flatMap Displacement.orderRows).reverse ++ (stateRows ds).reverse :=
      mem_of_mem_take (mem_of_mem_head? hr)
    rcases mem_append.mp hmem with hmem | hmem
    · obtain ⟨e, he, hr⟩ := mem_flatMap.mp (mem_reverse.mp hmem)
      obtain ⟨v, _, rfl⟩ := mem_map.mp hr
      refine .inr ⟨e.position v, decodeOrderKey_encode ((h.valid e ?_).position_fits v), ?_⟩
      · simp [hsplit, he]
      · have hascending := h.ascending
        rw [hsplit] at hascending
        exact ((pairwise_append.mp hascending).2.2 e he d mem_cons_self).ne
    · refine .inl ?_
      rw [tag_of_mem_stateRows (mem_reverse.mp hmem)]
      decide
  simp only [validateLatestEventRows, bind_eq_ok, rejectIf_eq_ok]
  refine ⟨d.blocks.reverse.map fun v => v.block.height, ?_, ?_⟩
  · rw [← hobserve, ← htake, ← h.seek_event hsplit]
    rfl
  · have hheights := (h.valid d hd).heights
    rw [not_or, not_not, not_not, map_reverse, length_reverse, length_map, hheights]
    exact ⟨rfl, rfl⟩

/-! ## The whole archive -/

theorem ArchiveSound.context_loop {sequence : Nat} (hpast : ∀ d ∈ ds, d.eventSequence ≤ sequence)
    (hsplit : ds = a ++ b) (first latest : Option ArchiveEventContext) :
    ∃ scan, loop (validateContextRow E (archiveFamily db) window sequence)
        ⟨first, latest, displacedCount a⟩ (contextRows (displacedCount a) b) = .ok scan ∧
      scan.first = first.or (b.head?.map fun d => d.context (displacedCount a)) ∧
      (∀ d ∈ b.getLast?, ∃ before, scan.latest = some (d.context before)) ∧
      (b = [] → scan.latest = latest) ∧
      scan.cumulativeBlockCount = displacedCount ds := by
  induction b generalizing a first latest with
  | nil =>
    refine ⟨_, rfl, by simp, by simp, fun _ => rfl, ?_⟩
    rw [hsplit, append_nil]
  | cons d b ih =>
    have hd : d ∈ ds := by simp [hsplit]
    have hvalid := h.valid d hd
    have hlt := h.before_lt hsplit
    have hcount : displacedCount (a ++ [d]) = displacedCount a + d.blocks.length := by simp
    obtain ⟨scan, hloop, hfirst, hlatest, hnone, htotal⟩ := ih (a := a ++ [d]) (by simp [hsplit])
      (some (first.getD (d.context (displacedCount a)))) (some (d.context (displacedCount a)))
    rw [hcount] at hloop
    have hstep : validateContextRow E (archiveFamily db) window sequence
        ⟨first, latest, displacedCount a⟩ (d.contextRow (displacedCount a)) =
        .ok ⟨some (first.getD (d.context (displacedCount a))),
          some (d.context (displacedCount a)), displacedCount a + d.blocks.length⟩ := by
      simp only [validateContextRow, Displacement.contextRow, bind_eq_ok, rejectIf_eq_ok,
        okOr_eq_ok, checkedAdd_eq_some]
      refine ⟨(), by simp [encodeEventContextKey], _, readArray_eventContextKey _, ?_⟩
      rw [ofBytes_u64 hvalid.sequence_lt]
      refine ⟨(), ?_, _, decodeEventContext_encode (h.context_fits hsplit), (), ?_, _,
        hvalid.count, (), not_not.mpr rfl, _, ⟨hlt, rfl⟩, (), not_not.mpr rfl, (),
        h.event_rows hnames hsplit _, rfl⟩
      · have := hvalid.sequence_pos
        have := hpast d hd
        omega
      · exact not_not.mpr hvalid.epoch_eq
    refine ⟨scan, loop_cons_eq_ok.mpr ⟨_, hstep, hloop⟩, ?_, ?_, by simp, htotal⟩
    · rw [hfirst]
      cases first <;> simp
    · intro e he
      cases b with
      | nil =>
        cases he
        exact ⟨_, hnone rfl⟩
      | cons e' b => exact hlatest e (by rwa [getLast?_cons_cons] at he)

end

theorem ArchiveSound.archiveFamily_nil (h : ArchiveSound db window ([] : List (Displacement E))) :
    archiveFamily db = [] := by
  refine eq_nil_iff_forall_not_mem.mpr fun r hr => ?_
  obtain ⟨k, x, hlookup, hbytes⟩ := mem_archiveFamily.mp hr
  cases k with
  | displacedState => simp [h.holds.state, archiveState] at hlookup
  | displacedOrder p => simp [h.holds.order] at hlookup
  | displacedHashPointer hash =>
    simp [h.holds.pointers, newestPosition, displacedPositions] at hlookup
  | displacedEventContext n => simp [h.holds.contexts] at hlookup
  | _ => cases hbytes

theorem ArchiveSound.state_fits (h : ArchiveSound db window ds) {state : ArchiveState}
    (hstate : archiveState ds = some state) : state.Fits := by
  cases ds with
  | nil => cases hstate
  | cons first rest =>
    cases hstate
    have hfirst := h.valid first mem_cons_self
    exact
      { activationEventSequence := hfirst.sequence_lt
        activationEpoch := hfirst.epoch_lt
        activatedAt := h.time_lt first mem_cons_self
        blockCount := h.count_lt
        latestEventSequence := (h.valid _ (getLast_mem _)).sequence_lt }

theorem ArchiveSound.validate (h : ArchiveSound db window ds) (hnames : HashNamesHeight ds)
    {sequence : Nat} (hpast : ∀ d ∈ ds, d.eventSequence ≤ sequence) :
    validatePermanentReorgArchive E db window sequence = .ok () := by
  have hcontexts : (seek [eventContextKeyTag] (archiveFamily db)).takeWhile
      (fun row => decide (row.1.head? = some eventContextKeyTag)) = contextRows 0 ds := by
    have hfamily : archiveFamily db =
        (stateRows ds ++ (ds.flatMap Displacement.orderRows ++ pointerRows db)) ++
          contextRows 0 ds := by
      rw [h.archiveFamily_eq]
      simp only [append_assoc]
    rw [hfamily, seek_append]
    · exact takeWhile_eq_self_iff.mpr fun r hr => decide_eq_true (tag_of_mem_contextRows hr)
    · intro r hr
      rcases mem_append.mp hr with hr | hr
      · exact lt_of_tag_lt (tag_of_mem_stateRows hr) rfl (by decide)
      · rcases mem_append.mp hr with hr | hr
        · exact lt_of_tag_lt (tag_of_mem_orderRows hr) rfl (by decide)
        · exact lt_of_tag_lt (tag_of_mem_pointerRows hr) rfl (by decide)
    · intro r hr
      obtain ⟨_, d, _, _, rfl⟩ := mem_contextRows.mp hr
      rw [Displacement.contextRow, encodeEventContextKey, cons_lt_cons_self]
      exact not_lt_nil _
  have hstate : readExactRow (archiveFamily db) archiveStateKey =
      (archiveState ds).map encodeArchiveState := by
    rw [readExactRow_eq h.fits (k := .displacedState) trivial rfl, h.holds.state]
    cases archiveState ds <;> rfl
  obtain ⟨scan, hloop, hfirst, hlatest, hnone, htotal⟩ :=
    h.context_loop hnames hpast (a := []) (b := ds) rfl none none
  simp only [validatePermanentReorgArchive, bind_eq_ok, hcontexts, hstate]
  refine ⟨scan, hloop, ?_⟩
  cases ds with
  | nil =>
    rw [hfirst, hnone rfl]
    simp [archiveState, h.archiveFamily_nil, rejectIf]
  | cons first rest =>
    obtain ⟨before, hlast⟩ := hlatest _ (getLast?_eq_some_getLast (cons_ne_nil first rest))
    rw [hfirst, hlast]
    simp only [Option.none_or, head?_cons, Option.map_some, archiveState, bind_eq_ok,
      okOr_eq_ok, rejectIf_eq_ok, Option.some.injEq]
    refine ⟨_, rfl, _, decodeArchiveState_encode (h.state_fits rfl), ?_⟩
    simp only [not_or, not_not]
    exact ⟨rfl, rfl, rfl, rfl, htotal.symm⟩

end Events

/-! ## Runs -/

section Runs

variable [DecidableEq D]

theorem displacedPositions_nodup {window : Nat} {ds : List (Displacement E)}
    (hascending : ds.Pairwise fun d d' => d.eventSequence < d'.eventSequence)
    (hvalid : ∀ d ∈ ds, d.Valid window) : (displacedPositions ds).Nodup := by
  refine nodup_flatMap.mpr ⟨fun d hd => ?_, hascending.imp fun {d d'} hlt p hp hp' => ?_⟩
  · have hheights : (d.blocks.map fun v => v.block.height).Nodup := by
      rw [(hvalid d hd).heights]
      exact nodup_range'
    refine pairwise_map.mpr ((pairwise_map.mp hheights).imp fun {v w} hne heq => hne ?_)
    exact congrArg ArchivePosition.height heq
  · obtain ⟨v, _, rfl⟩ := mem_map.mp hp
    obtain ⟨w, _, hw⟩ := mem_map.mp hp'
    have : d'.eventSequence = d.eventSequence := congrArg ArchivePosition.eventSequence hw
    omega

/-- The displaced archive loses and invents nothing. After every run the order rows are one per
displaced block and event, the contexts and the state carry the counts, and every displaced hash
points to its newest displacement. The validation on reopen accepts the archive under two assumptions:
no displaced hash names two heights (`HashNamesHeight`; headers commit to their parents, the store does
not check it), and event times are `u64`. -/
theorem displaced_archive_exact {st₀ st : LiveState E} {ds : List (Displacement E)}
    (h : Published st₀) (run : DisplacementRun st₀ ds st) :
    ArchiveHolds st.store.db ds ∧ (displacedPositions ds).Nodup ∧
      (HashNamesHeight ds → (∀ d ∈ ds, d.displacedAt < u64Bound) →
        validatePermanentReorgArchive E st.store.db st.store.window
          st.store.readyEvidence.visibleEventSequence = .ok ()) := by
  have inv := DisplacementRun.archive h run
  exact ⟨inv.holds, displacedPositions_nodup inv.ascending inv.valid,
    fun hnames htime => (inv.sound htime).validate hnames inv.past⟩

noncomputable def sampleDisplacements :
    Option (LiveState sampleEnv × List (Displacement sampleEnv)) :=
  (publishedState sampleBaseline).bind fun st =>
    st.performAll sampleActivations
      [.append (plainBlock sampleEnv (plainFacts 2 2 1 12)) [] ⟨1, repeatedByte 1⟩ 0,
        .replace [⟨plainBlock sampleEnv (plainFacts 2 3 1 13), []⟩] 10,
        .replace [⟨plainBlock sampleEnv (plainFacts 2 2 1 12), []⟩] 20,
        .replace [⟨plainBlock sampleEnv (plainFacts 2 3 1 13), []⟩] 30]

theorem sampleDisplacements_run : ∃ st₀ st : LiveState sampleEnv,
    ∃ ds, Published st₀ ∧ DisplacementRun st₀ ds st ∧
      displacedPositions ds =
        [⟨3, 2, repeatedByte 2⟩, ⟨4, 2, repeatedByte 3⟩, ⟨5, 2, repeatedByte 2⟩] ∧
      ∀ d ∈ ds, d.displacedAt < u64Bound := by
  have hrun : sampleDisplacements.map (fun r => (displacedPositions r.2,
      r.2.map fun d => d.displacedAt)) = some
        ([⟨3, 2, repeatedByte 2⟩, ⟨4, 2, repeatedByte 3⟩, ⟨5, 2, repeatedByte 2⟩], [10, 20, 30]) := by
    decide +kernel
  obtain ⟨⟨st, ds⟩, hperformed, heq⟩ := Option.map_eq_some_iff.mp hrun
  obtain ⟨hpositions, htimes⟩ := Prod.mk.inj heq
  obtain ⟨st₀, hpublished, hperformed⟩ := Option.bind_eq_some_iff.mp hperformed
  refine ⟨st₀, st, ds, publishedState_published hpublished, LiveState.performAll_run hperformed,
    hpositions, fun d hd => ?_⟩
  have hmem : d.displacedAt ∈ [10, 20, 30] := htimes ▸ mem_map_of_mem hd
  have hle : d.displacedAt ≤ 30 := by
    simp only [mem_cons, not_mem_nil, or_false] at hmem
    omega
  exact hle.trans_lt (by decide)

theorem displaced_archive_exact_sample : ∃ st₀ st : LiveState sampleEnv,
    ∃ ds, Published st₀ ∧ DisplacementRun st₀ ds st ∧
      displacedPositions ds =
        [⟨3, 2, repeatedByte 2⟩, ⟨4, 2, repeatedByte 3⟩, ⟨5, 2, repeatedByte 2⟩] ∧
      st.store.db.lookup (Key.displacedHashPointer (repeatedByte 2)) =
        some ⟨5, 2, repeatedByte 2⟩ ∧
      validatePermanentReorgArchive sampleEnv st.store.db st.store.window
        st.store.readyEvidence.visibleEventSequence = .ok () := by
  obtain ⟨st₀, st, ds, hpublished, run, hpositions, htimes⟩ := sampleDisplacements_run
  obtain ⟨holds, _, hvalidate⟩ := displaced_archive_exact hpublished run
  refine ⟨st₀, st, ds, hpublished, run, hpositions, ?_, hvalidate ?_ htimes⟩
  · rw [holds.pointers, newestPosition, hpositions]
    decide
  · rw [HashNamesHeight, hpositions]
    decide

end Runs

end Zinder.Canonical
