import Zinder.Canonical.ArchiveReads
import Zinder.Canonical.Displacements

/-!
# Zinder.Canonical.ArchiveRows

The column family of an archive, row by row.

* `readExactRow_eq` — reading an encoded key reads the row of the key.
* `archiveFamily_eq` — the family of a list of displacements, in key order: the state, the order
  rows from the oldest event and lowest height on, the pointers, and the contexts.
-/

namespace Zinder.Canonical

open KeyValue OrderedRows BigEndian List

variable {D : Type} {E : Env D}

/-! ## Keys -/

def Key.archiveBytes : Key → Option Bytes
  | .displacedState => some archiveStateKey
  | .displacedOrder position => some (encodeOrderKey position)
  | .displacedHashPointer hash => some (encodeHashPointerKey hash)
  | .displacedEventContext sequence => some (encodeEventContextKey sequence)
  | _ => none

def Key.ArchiveFits : Key → Prop
  | .displacedOrder position => position.Fits
  | .displacedEventContext sequence => sequence < u64Bound
  | _ => True

theorem archiveRowBytes_key (row : Row (Val D)) :
    (archiveRowBytes row).map Prod.fst = row.1.archiveBytes := by
  obtain ⟨k, x⟩ := row
  cases k <;> rfl

theorem Key.archiveBytes_inj {k k' : Key} (hk : k.ArchiveFits) (hk' : k'.ArchiveFits) {b : Bytes}
    (h : k.archiveBytes = some b) (h' : k'.archiveBytes = some b) : k = k' := by
  have hsame : k.archiveBytes = k'.archiveBytes := h.trans h'.symm
  have hsome : k.archiveBytes ≠ none := by simp [h]
  clear h h'
  -- the first byte tells the four kinds apart
  cases k <;> cases k' <;>
    first
    | rfl
    | exact absurd rfl hsome
    | simp [Key.archiveBytes, archiveStateKey, encodeOrderKey, encodeHashPointerKey,
        encodeEventContextKey, orderKeyTag, hashPointerKeyTag, eventContextKeyTag] at hsame
      done
    | skip
  case displacedOrder.displacedOrder p p' =>
    have hp := decodeOrderKey_encode hk
    rw [Option.some.inj hsame, decodeOrderKey_encode hk'] at hp
    rw [Except.ok.inj hp]
  case displacedHashPointer.displacedHashPointer a a' =>
    have hbytes : a.bytes = a'.bytes := (List.cons.inj (Option.some.inj hsame)).2
    cases a
    cases hbytes
    rfl
  case displacedEventContext.displacedEventContext n n' =>
    rw [(toBytes_inj hk hk').mp
      (List.cons.inj (Option.some.inj hsame)).2]

/-! ## Rows -/

theorem mem_archiveFamily {db : Db D} {r : ByteRow} :
    r ∈ archiveFamily db ↔ ∃ k, ∃ x : Val D k, db.lookup k = some x ∧
      archiveRowBytes ⟨k, x⟩ = some r := by
  rw [archiveFamily, mem_ordered, Multiset.mem_filterMap]
  constructor
  · rintro ⟨⟨k, x⟩, hmem, hr⟩
    exact ⟨k, x, Finmap.mem_lookup_iff.mpr hmem, hr⟩
  · rintro ⟨k, x, hlookup, hr⟩
    exact ⟨⟨k, x⟩, Finmap.mem_lookup_iff.mp hlookup, hr⟩

section Fits

variable {db : Db D} (hfits : ∀ k, (db.lookup k).isSome = true → k.ArchiveFits)
include hfits

theorem keysSorted_archiveFamily : KeysSorted (archiveFamily db) := by
  refine keysSorted_ordered ?_
  have hmem : ∀ row ∈ db.entries, row.1.ArchiveFits := by
    intro row hrow
    refine hfits row.1 ?_
    rw [show db.lookup row.1 = some row.2 from Finmap.mem_lookup_iff.mpr hrow]
    rfl
  have hkeys := db.nodupKeys
  generalize db.entries = entries at hmem hkeys
  induction entries using Quotient.inductionOn with | h l => ?_
  have hpairs : l.Pairwise fun a b => a.1 ≠ b.1 := nodupKeys_iff_pairwise.mp hkeys
  refine Multiset.coe_nodup.mpr (pairwise_map.mpr (pairwise_filterMap.mpr ?_))
  refine hpairs.imp_of_mem fun {a b} ha hb hne r hr r' hr' heq => hne ?_
  have hka : a.1.archiveBytes = some r.1 := by rw [← archiveRowBytes_key, hr]; rfl
  have hkb : b.1.archiveBytes = some r.1 := by rw [← archiveRowBytes_key, hr', heq]; rfl
  exact Key.archiveBytes_inj (hmem a ha) (hmem b hb) hka hkb

theorem readExactRow_eq {k : Key} (hk : k.ArchiveFits) {b : Bytes} (hb : k.archiveBytes = some b) :
    readExactRow (archiveFamily db) b =
      (db.lookup k).bind fun x => (archiveRowBytes ⟨k, x⟩).map Prod.snd := by
  refine Option.ext fun value => ?_
  rw [readExactRow, (keysSorted_archiveFamily hfits).lookup_eq_some, mem_archiveFamily]
  simp only [Option.bind_eq_some_iff, Option.map_eq_some_iff]
  constructor
  · rintro ⟨k', x, hlookup, hr⟩
    have hk' : k'.archiveBytes = some b := by
      rw [← archiveRowBytes_key ⟨k', x⟩, hr]
      rfl
    obtain rfl := Key.archiveBytes_inj hk (hfits k' (by rw [hlookup]; rfl)) hb hk'
    exact ⟨x, hlookup, (b, value), hr, rfl⟩
  · rintro ⟨x, hlookup, ⟨b', value'⟩, hr, rfl⟩
    have hb' : k.archiveBytes = some b' := by
      rw [← archiveRowBytes_key ⟨k, x⟩, hr]
      rfl
    cases hb.symm.trans hb'
    exact ⟨k, x, hlookup, hr⟩

end Fits

/-! ## The rows of a list of displacements -/

def stateRows (ds : List (Displacement E)) : List ByteRow :=
  (archiveState ds).toList.map fun state => (archiveStateKey, encodeArchiveState state)

def Displacement.orderRow (d : Displacement E) (v : VisibleBlock E) : ByteRow :=
  (encodeOrderKey (d.position v), encodeArchiveRecord (d.record v))

def Displacement.orderRows (d : Displacement E) : List ByteRow := d.blocks.map d.orderRow

def Displacement.contextRow (d : Displacement E) (before : Nat) : ByteRow :=
  (encodeEventContextKey d.eventSequence, encodeEventContext (d.context before))

def contextRows : (before : Nat) → List (Displacement E) → List ByteRow
  | _, [] => []
  | before, d :: ds => d.contextRow before :: contextRows (before + d.blocks.length) ds

theorem contextRows_append (before : Nat) (a b : List (Displacement E)) :
    contextRows before (a ++ b) =
      contextRows before a ++ contextRows (before + displacedCount a) b := by
  induction a generalizing before with
  | nil => simp [contextRows, displacedCount]
  | cons d a ih =>
    rw [cons_append, contextRows, contextRows, ih, cons_append]
    simp [displacedCount, Nat.add_assoc]

theorem mem_contextRows {before : Nat} {ds : List (Displacement E)} {r : ByteRow} :
    r ∈ contextRows before ds ↔ ∃ a d b, ds = a ++ d :: b ∧
      r = d.contextRow (before + displacedCount a) := by
  constructor
  · intro hr
    induction ds generalizing before with
    | nil => simp [contextRows] at hr
    | cons d ds ih =>
      rcases mem_cons.mp hr with rfl | hr
      · exact ⟨[], d, ds, rfl, by simp [displacedCount]⟩
      · obtain ⟨a, d', b, rfl, rfl⟩ := ih hr
        exact ⟨d :: a, d', b, rfl, by simp [displacedCount, Nat.add_assoc]⟩
  · rintro ⟨a, d, b, rfl, rfl⟩
    rw [contextRows_append, contextRows]
    simp

/-- An archive whose displacements were checked when they were written, at times that fit `u64`. -/
structure ArchiveSound [DecidableEq D] (db : Db D) (window : Nat) (ds : List (Displacement E)) :
    Prop where
  holds : ArchiveHolds db ds
  ascending : ds.Pairwise fun d d' => d.eventSequence < d'.eventSequence
  valid : ∀ d ∈ ds, d.Valid window
  count_lt : displacedCount ds < u64Bound
  time_lt : ∀ d ∈ ds, d.displacedAt < u64Bound

section Displaced

variable [DecidableEq D]

variable {ds : List (Displacement E)} {r : ByteRow}

theorem ArchiveInvariant.sound {st : LiveState E} (h : ArchiveInvariant st ds)
    (htime : ∀ d ∈ ds, d.displacedAt < u64Bound) :
    ArchiveSound st.store.db st.store.window ds :=
  ⟨h.holds, h.ascending, h.valid, h.count_lt, htime⟩

namespace Displacement.Valid

variable {window : Nat} {d : Displacement E} (h : d.Valid window)
include h

theorem position_fits (v : VisibleBlock E) : (d.position v).Fits :=
  ⟨h.sequence_lt, v.block.height_lt⟩

theorem epoch_lt : d.displacementEpoch < u64Bound := by
  rw [h.epoch_eq]
  exact h.sequence_lt

theorem length_pos : 0 < d.blocks.length := by
  have := (checkedReorgRangeCount_eq_ok.mp h.count).2.2.2
  omega

theorem range_lt : d.revertedRange.start < u32Bound ∧ d.revertedRange.stop < u32Bound := by
  have hle := (checkedReorgRangeCount_eq_ok.mp h.count).1
  have hlt : ∀ height ∈ d.revertedRange.heights, height < u32Bound := by
    rw [← h.heights]
    intro height hmem
    obtain ⟨v, _, rfl⟩ := mem_map.mp hmem
    exact v.block.height_lt
  exact ⟨hlt _ (BlockHeightRange.mem_heights.mpr ⟨le_rfl, hle⟩),
    hlt _ (BlockHeightRange.mem_heights.mpr ⟨hle, le_rfl⟩)⟩

theorem record_fits (htime : d.displacedAt < u64Bound) {v : VisibleBlock E} (hv : v ∈ d.blocks) :
    (d.record v).Fits where
  replayBytes := h.replay_lt v hv
  displacementEpoch := h.epoch_lt
  displacedAt := htime
  rawBlockBytes := h.raw_lt v hv
  roots := by simp [Displacement.record]

theorem context_fits (htime : d.displacedAt < u64Bound) {before : Nat}
    (hcount : before + d.blocks.length < u64Bound) : (d.context before).Fits where
  start := h.range_lt.1
  stop := h.range_lt.2
  displacementEpoch := h.epoch_lt
  displacedAt := htime
  rowCount := by
    obtain ⟨_, hlt, _, heq⟩ := checkedReorgRangeCount_eq_ok.mp h.count
    rw [heq] at hlt
    exact hlt
  cumulativeBlockCount := hcount

theorem keysSorted_orderRows : KeysSorted d.orderRows := by
  have hheights : (d.blocks.map fun v => v.block.height).Pairwise (· < ·) := by
    rw [h.heights]
    exact pairwise_lt_range'
  refine pairwise_map.mpr ((pairwise_map.mp hheights).imp fun {v w} hlt => ?_)
  exact (encodeOrderKey_lt (h.position_fits v) (h.position_fits w)).mpr (.inr ⟨rfl, .inl hlt⟩)

end Displacement.Valid

namespace ArchiveSound

variable {db : Db D} {window : Nat} {ds : List (Displacement E)} (h : ArchiveSound db window ds)
include h

section

variable {a b : List (Displacement E)} {d : Displacement E} (hsplit : ds = a ++ d :: b)
include hsplit

theorem before_lt : displacedCount a + d.blocks.length < u64Bound := by
  have hcount := h.count_lt
  rw [hsplit, displacedCount_append] at hcount
  simp only [displacedCount, map_cons, sum_cons] at hcount ⊢
  omega

theorem context_fits : (d.context (displacedCount a)).Fits := by
  have hmem : d ∈ ds := by simp [hsplit]
  exact (h.valid d hmem).context_fits (h.time_lt d hmem) (h.before_lt hsplit)

end

theorem fits (k : Key) (hk : (db.lookup k).isSome = true) : k.ArchiveFits := by
  obtain ⟨x, hx⟩ := Option.isSome_iff_exists.mp hk
  cases k with
  | displacedOrder p =>
    obtain ⟨d, hd, v, _, rfl, _⟩ := (h.holds.order p x).mp hx
    exact (h.valid d hd).position_fits v
  | displacedEventContext n =>
    obtain ⟨a, d, b, hsplit, rfl, _⟩ := (h.holds.contexts n x).mp hx
    exact (h.valid d (by simp [hsplit])).sequence_lt
  | _ => trivial

theorem keysSorted_orderRows : KeysSorted (ds.flatMap Displacement.orderRows) := by
  refine pairwise_flatMap.mpr ⟨fun d hd => (h.valid d hd).keysSorted_orderRows, ?_⟩
  refine h.ascending.imp_of_mem fun {d d'} hd hd' hlt r hr r' hr' => ?_
  obtain ⟨v, _, rfl⟩ := mem_map.mp hr
  obtain ⟨w, _, rfl⟩ := mem_map.mp hr'
  exact (encodeOrderKey_lt ((h.valid d hd).position_fits v) ((h.valid d' hd').position_fits w)).mpr
    (.inl hlt)

theorem keysSorted_contextRows : KeysSorted (contextRows 0 ds) := by
  have hsorted : ∀ (before : Nat) (ds : List (Displacement E)),
      (ds.Pairwise fun d d' => d.eventSequence < d'.eventSequence) →
      (∀ d ∈ ds, d.eventSequence < u64Bound) → KeysSorted (contextRows before ds) := by
    intro before ds
    induction ds generalizing before with
    | nil => exact fun _ _ => .nil
    | cons d ds ih =>
      intro hascending hlt
      obtain ⟨hhead, htail⟩ := pairwise_cons.mp hascending
      refine pairwise_cons.mpr ⟨fun r hr => ?_,
        ih _ htail fun d' hd' => hlt d' (mem_cons_of_mem _ hd')⟩
      obtain ⟨a, d', b, rfl, rfl⟩ := mem_contextRows.mp hr
      exact (encodeEventContextKey_lt (hlt d mem_cons_self) (hlt d' (by simp))).mpr
        (hhead d' (by simp))
  exact hsorted 0 ds h.ascending fun d hd => (h.valid d hd).sequence_lt

end ArchiveSound

/-! ## The family -/

omit [DecidableEq D] in
theorem lt_of_tag_lt {a b : Bytes} {x y : UInt8} (ha : a.head? = some x) (hb : b.head? = some y)
    (h : x < y) : a < b := by
  cases a with
  | nil => cases ha
  | cons x' a =>
    cases b with
    | nil => cases hb
    | cons y' b =>
      cases ha
      cases hb
      exact cons_lt_cons_iff.mpr (.inl h)

omit [DecidableEq D] in
theorem tag_of_mem_stateRows (hr : r ∈ stateRows ds) : r.1.head? = some 0 := by
  obtain ⟨_, _, rfl⟩ := mem_map.mp hr
  rfl

omit [DecidableEq D] in
theorem tag_of_mem_orderRows (hr : r ∈ ds.flatMap Displacement.orderRows) :
    r.1.head? = some orderKeyTag := by
  obtain ⟨d, _, hr⟩ := mem_flatMap.mp hr
  obtain ⟨_, _, rfl⟩ := mem_map.mp hr
  rfl

omit [DecidableEq D] in
theorem tag_of_mem_contextRows {before : Nat} (hr : r ∈ contextRows before ds) :
    r.1.head? = some eventContextKeyTag := by
  obtain ⟨_, _, _, _, rfl⟩ := mem_contextRows.mp hr
  rfl

def pointerRows (db : Db D) : List ByteRow :=
  (archiveFamily db).filter fun r => r.1.head? = some hashPointerKeyTag

omit [DecidableEq D] in
theorem tag_of_mem_pointerRows {db : Db D} (hr : r ∈ pointerRows db) :
    r.1.head? = some hashPointerKeyTag := by
  simpa using (mem_filter.mp hr).2

namespace ArchiveSound

variable {db : Db D} {window : Nat} {ds : List (Displacement E)} (h : ArchiveSound db window ds)
include h

/-- The archive's column family, in key order. -/
theorem archiveFamily_eq : archiveFamily db =
    stateRows ds ++ (ds.flatMap Displacement.orderRows ++ (pointerRows db ++ contextRows 0 ds)) := by
  have hsorted := keysSorted_archiveFamily h.fits
  refine hsorted.ext ?_ fun r => ?_
  · have hstate : KeysSorted (stateRows ds) := by
      rw [stateRows]
      cases archiveState ds with
      | none => exact .nil
      | some state => exact pairwise_singleton _ _
    have hpointers : KeysSorted (pointerRows db) := hsorted.filter _
    refine pairwise_append.mpr ⟨hstate, pairwise_append.mpr ⟨h.keysSorted_orderRows,
      pairwise_append.mpr ⟨hpointers, h.keysSorted_contextRows, ?_⟩, ?_⟩, ?_⟩
    · intro a ha b hb
      exact lt_of_tag_lt (tag_of_mem_pointerRows ha) (tag_of_mem_contextRows hb) (by decide)
    · intro a ha b hb
      rcases mem_append.mp hb with hb | hb
      · exact lt_of_tag_lt (tag_of_mem_orderRows ha) (tag_of_mem_pointerRows hb) (by decide)
      · exact lt_of_tag_lt (tag_of_mem_orderRows ha) (tag_of_mem_contextRows hb) (by decide)
    · intro a ha b hb
      rcases mem_append.mp hb with hb | hb
      · exact lt_of_tag_lt (tag_of_mem_stateRows ha) (tag_of_mem_orderRows hb) (by decide)
      · rcases mem_append.mp hb with hb | hb
        · exact lt_of_tag_lt (tag_of_mem_stateRows ha) (tag_of_mem_pointerRows hb) (by decide)
        · exact lt_of_tag_lt (tag_of_mem_stateRows ha) (tag_of_mem_contextRows hb) (by decide)
  · simp only [mem_append]
    constructor
    · intro hr
      obtain ⟨k, x, hlookup, hbytes⟩ := mem_archiveFamily.mp hr
      cases k with
      | displacedState =>
        cases hbytes
        rw [h.holds.state] at hlookup
        exact .inl (mem_map.mpr ⟨x, Option.mem_toList.mpr hlookup, rfl⟩)
      | displacedOrder p =>
        cases hbytes
        obtain ⟨d, hd, v, hv, rfl, rfl⟩ := (h.holds.order p x).mp hlookup
        exact .inr (.inl (mem_flatMap.mpr ⟨d, hd, mem_map.mpr ⟨v, hv, rfl⟩⟩))
      | displacedHashPointer hash =>
        have htag : r.1.head? = some hashPointerKeyTag := by
          cases hbytes
          rfl
        exact .inr (.inr (.inl (mem_filter.mpr ⟨hr, decide_eq_true htag⟩)))
      | displacedEventContext n =>
        cases hbytes
        obtain ⟨a, d, b, hsplit, rfl, rfl⟩ := (h.holds.contexts n x).mp hlookup
        refine .inr (.inr (.inr (mem_contextRows.mpr ⟨a, d, b, hsplit, ?_⟩)))
        rw [Nat.zero_add]
        rfl
      | _ => cases hbytes
    · rintro (hr | hr | hr | hr)
      · obtain ⟨state, hstate, rfl⟩ := mem_map.mp hr
        refine mem_archiveFamily.mpr ⟨.displacedState, state, ?_, rfl⟩
        rw [h.holds.state]
        exact Option.mem_toList.mp hstate
      · obtain ⟨d, hd, hr⟩ := mem_flatMap.mp hr
        obtain ⟨v, hv, rfl⟩ := mem_map.mp hr
        exact mem_archiveFamily.mpr ⟨.displacedOrder (d.position v), d.record v,
          (h.holds.order _ _).mpr ⟨d, hd, v, hv, rfl, rfl⟩, rfl⟩
      · exact (mem_filter.mp hr).1
      · obtain ⟨a, d, b, hsplit, rfl⟩ := mem_contextRows.mp hr
        refine mem_archiveFamily.mpr ⟨.displacedEventContext d.eventSequence,
          d.context (displacedCount a), (h.holds.contexts _ _).mpr ⟨a, d, b, hsplit, rfl, rfl⟩, ?_⟩
        rw [Nat.zero_add]
        rfl

end ArchiveSound

end Displaced

end Zinder.Canonical
