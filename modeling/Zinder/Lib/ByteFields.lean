import Zinder.Lib.BigEndian

/-!
# Zinder.Lib.ByteFields

Byte strings laid out as fields.

A decoder that reads a record at fixed offsets takes slices of it. `slice_append_left` and
`slice_append_right` read the fields of a concatenation, so what an encoder wrote is read back;
`slice_append_slice` puts neighbouring slices together again, so a record whose fields are all
re-encoded from its slices is the record it was (`slice_eq_self`).

Numbers are written big-endian (`BigEndian`) or, with the same bytes in the other order,
little-endian.
-/

namespace Zinder

open List

namespace BigEndian

theorem eq_of_ofBytes_eq {a b : List UInt8} (hlength : a.length = b.length)
    (h : ofBytes a = ofBytes b) : a = b := by
  have hab : ¬ a < b := by
    rw [lt_iff_ofBytes_lt hlength, h]
    exact Nat.lt_irrefl _
  have hba : ¬ b < a := by
    rw [lt_iff_ofBytes_lt hlength.symm, h]
    exact Nat.lt_irrefl _
  exact List.le_antisymm (List.not_lt.mp hba) (List.not_lt.mp hab)

theorem toBytes_ofBytes {width : Nat} {bs : List UInt8} (h : bs.length = width) :
    toBytes width (ofBytes bs) = bs := by
  have hlt : ofBytes bs < 256 ^ width := h ▸ ofBytes_lt bs
  exact eq_of_ofBytes_eq (by rw [length_toBytes, h]) (ofBytes_toBytes_of_lt hlt)

end BigEndian

namespace LittleEndian

/-- The `width` low bytes of `n`, least significant first. -/
def toBytes (width n : Nat) : List UInt8 := (BigEndian.toBytes width n).reverse

def ofBytes (bs : List UInt8) : Nat := BigEndian.ofBytes bs.reverse

@[simp] theorem length_toBytes (width n : Nat) : (toBytes width n).length = width := by
  simp [toBytes]

theorem ofBytes_lt (bs : List UInt8) : ofBytes bs < 256 ^ bs.length := by
  have h := BigEndian.ofBytes_lt bs.reverse
  rwa [length_reverse] at h

theorem ofBytes_toBytes_of_lt {width n : Nat} (h : n < 256 ^ width) :
    ofBytes (toBytes width n) = n := by
  rw [ofBytes, toBytes, reverse_reverse, BigEndian.ofBytes_toBytes_of_lt h]

theorem toBytes_ofBytes {width : Nat} {bs : List UInt8} (h : bs.length = width) :
    toBytes width (ofBytes bs) = bs := by
  rw [toBytes, ofBytes, BigEndian.toBytes_ofBytes (by rw [length_reverse, h]),
    reverse_reverse]

end LittleEndian

namespace ByteFields

def slice (bytes : List UInt8) (offset width : Nat) : List UInt8 := (bytes.drop offset).take width

variable {offset width : Nat} {bytes : List UInt8}

theorem length_slice (h : offset + width ≤ bytes.length) :
    (slice bytes offset width).length = width := by
  rw [slice, length_take, length_drop]
  omega

theorem slice_append_slice {offset width next width' : Nat} (h : offset + width = next) :
    slice bytes offset width ++ slice bytes next width' = slice bytes offset (width + width') := by
  subst h
  rw [slice, slice, slice, ← drop_drop, take_add]

theorem slice_eq_self {width : Nat} (h : bytes.length = width) : slice bytes 0 width = bytes := by
  rw [slice, drop_zero, ← h, take_length]

theorem slice_append_left {a b : List UInt8} {width : Nat} (h : a.length = width) :
    slice (a ++ b) 0 width = a := by
  rw [slice, drop_zero, take_left' h]

theorem slice_append {a b c : List UInt8} {offset width : Nat} (ha : a.length = offset)
    (hb : b.length = width) : slice (a ++ (b ++ c)) offset width = b := by
  rw [slice, drop_left' ha, take_left' hb]

theorem slice_append_right {a b : List UInt8} (h : a.length ≤ offset) :
    slice (a ++ b) offset width = slice b (offset - a.length) width := by
  rw [slice, slice, drop_append, drop_eq_nil_of_le h, nil_append]

theorem slice_cons {b : UInt8} (h : 0 < offset) :
    slice (b :: bytes) offset width = slice bytes (offset - 1) width := by
  obtain ⟨n, rfl⟩ : ∃ n, offset = n + 1 := ⟨offset - 1, by omega⟩
  rfl

theorem getD_of_slice {offset : Nat} {b d : UInt8} (h : slice bytes offset 1 = [b]) :
    bytes.getD offset d = b := by
  have hhead : (bytes.drop offset).head? = some b := by
    rw [slice] at h
    cases hdrop : bytes.drop offset with
    | nil => simp [hdrop] at h
    | cons x xs => simpa [hdrop] using h
  rw [head?_drop] at hhead
  rw [getD_eq_getElem?_getD, hhead, Option.getD_some]

/-! ## Fields at an offset -/

/-- The record has the bytes of `field` from `offset` on. -/
def FieldAt (bytes : List UInt8) (offset : Nat) (field : List UInt8) : Prop :=
  field <+: bytes.drop offset

section FieldAt

variable {bytes a b : List UInt8} {offset : Nat}

theorem fieldAt_iff_slice : FieldAt bytes offset a ↔ slice bytes offset a.length = a := by
  rw [FieldAt, slice, prefix_iff_eq_take]
  exact eq_comm

theorem fieldAt_append :
    FieldAt bytes offset (a ++ b) ↔
      FieldAt bytes offset a ∧ FieldAt bytes (offset + a.length) b := by
  unfold FieldAt
  rw [← drop_drop]
  constructor
  · rintro ⟨rest, hrest⟩
    rw [← hrest, append_assoc]
    refine ⟨prefix_append _ _, ?_⟩
    rw [drop_left]
    exact prefix_append _ _
  · rintro ⟨⟨rest, hrest⟩, hb⟩
    rw [← hrest, drop_left] at hb
    rw [← hrest]
    exact (prefix_append_right_inj a).mpr hb

theorem FieldAt.le_length (h : FieldAt bytes offset a) (ha : 0 < a.length) :
    offset + a.length ≤ bytes.length := by
  have hle := h.length_le
  rw [length_drop] at hle
  omega

theorem FieldAt.append (h : FieldAt a offset b) (rest : List UInt8) :
    FieldAt (a ++ rest) offset b := by
  rw [FieldAt, drop_append]
  exact h.trans (prefix_append _ _)

theorem fieldAt_drop (bytes : List UInt8) (offset : Nat) :
    FieldAt bytes offset (bytes.drop offset) :=
  prefix_refl _

theorem eq_iff_fieldAt : bytes = a ↔ FieldAt bytes 0 a ∧ a.length = bytes.length := by
  constructor
  · rintro rfl
    exact ⟨prefix_refl _, rfl⟩
  · rintro ⟨hfield, hlength⟩
    exact (hfield.eq_of_length hlength).symm

end FieldAt

/-! ## Lists of equal fields -/

/-- The first `count` fields of `width` bytes. -/
def chunks (width : Nat) : Nat → List UInt8 → List (List UInt8)
  | 0, _ => []
  | count + 1, bytes => bytes.take width :: chunks width count (bytes.drop width)

theorem flatten_chunks {width count : Nat} (h : bytes.length = count * width) :
    (chunks width count bytes).flatten = bytes := by
  induction count generalizing bytes with
  | zero =>
    rw [Nat.zero_mul, length_eq_zero_iff] at h
    rw [h]
    rfl
  | succ count ih =>
    have hrest : (bytes.drop width).length = count * width := by
      rw [length_drop, h, Nat.succ_mul, Nat.add_sub_cancel]
    rw [chunks, flatten_cons, ih hrest, take_append_drop]

@[simp] theorem length_chunks (width count : Nat) (bytes : List UInt8) :
    (chunks width count bytes).length = count := by
  induction count generalizing bytes with
  | zero => rfl
  | succ count ih => rw [chunks, length_cons, ih]

section

variable {width : Nat} {fields : List (List UInt8)} (h : ∀ field ∈ fields, field.length = width)
include h

/-- The fields of a concatenation of fields of one width. -/
theorem chunks_flatten : chunks width fields.length fields.flatten = fields := by
  induction fields with
  | nil => rfl
  | cons field fields ih =>
    have hfield : field.length = width := h field (mem_cons_self ..)
    rw [length_cons, flatten_cons, chunks, take_left' hfield,
      drop_left' hfield, ih fun f hf => h f (mem_cons_of_mem _ hf)]

theorem length_flatten : fields.flatten.length = fields.length * width := by
  induction fields with
  | nil => simp
  | cons field fields ih =>
    rw [flatten_cons, length_append, h field (mem_cons_self ..),
      ih fun f hf => h f (mem_cons_of_mem _ hf), length_cons, Nat.succ_mul, Nat.add_comm]

end

end ByteFields

/-! ## Byte arrays -/

/-- A byte array of a fixed length, ordered byte by byte. -/
structure FixedBytes (width : Nat) where
  bytes : List UInt8
  length_eq : bytes.length = width
deriving DecidableEq

namespace FixedBytes

variable {width : Nat}

instance : LT (FixedBytes width) := ⟨fun a b => a.bytes < b.bytes⟩

instance : LE (FixedBytes width) := ⟨fun a b => a.bytes ≤ b.bytes⟩

instance (a b : FixedBytes width) : Decidable (a < b) :=
  inferInstanceAs (Decidable (a.bytes < b.bytes))

variable {a b : FixedBytes width}

@[ext] theorem ext (h : a.bytes = b.bytes) : a = b := by
  cases a
  cases b
  cases h
  rfl

theorem lt_def : a < b ↔ a.bytes < b.bytes := Iff.rfl

theorem length_32 (a : FixedBytes 32) : a.bytes.length = 32 := a.length_eq

def toNat (a : FixedBytes width) : Nat := BigEndian.ofBytes a.bytes

theorem toNat_lt (a : FixedBytes width) : a.toNat < 256 ^ width := by
  have h := BigEndian.ofBytes_lt a.bytes
  rwa [a.length_eq] at h

def ofNat (width n : Nat) :
    FixedBytes width := ⟨BigEndian.toBytes width n, BigEndian.length_toBytes _ _⟩

theorem toNat_ofNat {n : Nat} (h : n < 256 ^ width) : (ofNat width n).toNat = n :=
  BigEndian.ofBytes_toBytes_of_lt h

end FixedBytes
end Zinder
