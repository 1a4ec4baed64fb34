import Mathlib

/-!
# Zinder.Lib.BigEndian

Big-endian numbers of a fixed width and the byte order of composite keys.

A key-value store orders its keys byte by byte. A key made of fixed-width big-endian fields is then
ordered like its fields, the first field first: `toBytes_lt_toBytes` is one field and
`append_lt_append` puts two fields together.
-/

namespace Zinder.BigEndian

/-- The `width` low bytes of `n`, most significant first. -/
def toBytes : (width n : Nat) → List UInt8
  | 0, _ => []
  | width + 1, n => UInt8.ofNat (n / 256 ^ width) :: toBytes width n

def ofBytes : List UInt8 → Nat
  | [] => 0
  | b :: bs => b.toNat * 256 ^ bs.length + ofBytes bs

@[simp] theorem length_toBytes (width n : Nat) : (toBytes width n).length = width := by
  induction width with
  | zero => rfl
  | succ width ih => rw [toBytes, List.length_cons, ih]

theorem ofBytes_lt (bs : List UInt8) : ofBytes bs < 256 ^ bs.length := by
  induction bs with
  | nil => simp [ofBytes]
  | cons b bs ih =>
    have hb : b.toNat + 1 ≤ 256 := b.toNat_lt
    calc ofBytes (b :: bs) < b.toNat * 256 ^ bs.length + 256 ^ bs.length := by
          rw [ofBytes]
          omega
      _ = (b.toNat + 1) * 256 ^ bs.length := by ring
      _ ≤ 256 * 256 ^ bs.length := Nat.mul_le_mul_right _ hb
      _ = 256 ^ (b :: bs).length := by rw [List.length_cons, Nat.pow_succ']

theorem ofBytes_toBytes (width n : Nat) : ofBytes (toBytes width n) = n % 256 ^ width := by
  induction width with
  | zero => simp [toBytes, ofBytes, Nat.mod_one]
  | succ width ih =>
    have hbyte : (UInt8.ofNat (n / 256 ^ width)).toNat = n / 256 ^ width % 256 := by simp
    have hsplit : n % (256 ^ width * 256) = n % 256 ^ width + 256 ^ width * (n / 256 ^ width % 256) :=
      Nat.mod_mul
    rw [toBytes, ofBytes, ih, length_toBytes, hbyte, Nat.pow_succ, hsplit, Nat.mul_comm, Nat.add_comm]

theorem ofBytes_toBytes_of_lt {width n : Nat} (h : n < 256 ^ width) :
    ofBytes (toBytes width n) = n := by
  rw [ofBytes_toBytes, Nat.mod_eq_of_lt h]

theorem toBytes_inj {width m n : Nat} (hm : m < 256 ^ width) (hn : n < 256 ^ width) :
    toBytes width m = toBytes width n ↔ m = n := by
  refine ⟨fun h => ?_, fun h => by rw [h]⟩
  rw [← ofBytes_toBytes_of_lt hm, h, ofBytes_toBytes_of_lt hn]

/-! ## Order -/

/-- Byte strings of one length are ordered like the numbers they spell. -/
theorem lt_iff_ofBytes_lt {a b : List UInt8} (h : a.length = b.length) :
    a < b ↔ ofBytes a < ofBytes b := by
  induction a generalizing b with
  | nil =>
    cases b with
    | nil => simp [ofBytes]
    | cons y ys => simp at h
  | cons x xs ih =>
    cases b with
    | nil => simp at h
    | cons y ys =>
      have hlength : xs.length = ys.length := by simpa using h
      have hxs := ofBytes_lt xs
      have hys := ofBytes_lt ys
      rw [List.cons_lt_cons_iff, ih hlength, ofBytes, ofBytes, hlength]
      rw [hlength] at hxs
      rcases Nat.lt_trichotomy x.toNat y.toNat with hlt | heq | hgt
      · have : (x.toNat + 1) * 256 ^ ys.length ≤ y.toNat * 256 ^ ys.length :=
          Nat.mul_le_mul_right _ hlt
        rw [Nat.add_mul, Nat.one_mul] at this
        exact ⟨fun _ => by omega, fun _ => .inl (UInt8.lt_iff_toNat_lt.mpr hlt)⟩
      · have hxy : x = y := UInt8.toNat_inj.mp heq
        subst hxy
        have hirrefl : ¬ x < x := UInt8.lt_irrefl x
        constructor
        · rintro (hlt | ⟨_, hlt⟩)
          · exact absurd hlt hirrefl
          · omega
        · exact fun hlt => .inr ⟨rfl, by omega⟩
      · have : (y.toNat + 1) * 256 ^ ys.length ≤ x.toNat * 256 ^ ys.length :=
          Nat.mul_le_mul_right _ hgt
        rw [Nat.add_mul, Nat.one_mul] at this
        constructor
        · rintro (hlt | ⟨rfl, _⟩)
          · have := UInt8.lt_iff_toNat_lt.mp hlt
            omega
          · omega
        · intro hlt
          omega

theorem toBytes_lt_toBytes {width m n : Nat} (hm : m < 256 ^ width) (hn : n < 256 ^ width) :
    toBytes width m < toBytes width n ↔ m < n := by
  rw [lt_iff_ofBytes_lt (by simp), ofBytes_toBytes_of_lt hm, ofBytes_toBytes_of_lt hn]

/-- Two fields: the first of a fixed width decides, the second breaks ties. -/
theorem append_lt_append {a b c d : List UInt8} (h : a.length = b.length) :
    a ++ c < b ++ d ↔ a < b ∨ a = b ∧ c < d := by
  induction a generalizing b with
  | nil =>
    cases b with
    | nil => simp
    | cons y ys => simp at h
  | cons x xs ih =>
    cases b with
    | nil => simp at h
    | cons y ys =>
      have hlength : xs.length = ys.length := by simpa using h
      rw [List.cons_append, List.cons_append, List.cons_lt_cons_iff, List.cons_lt_cons_iff,
        ih hlength, List.cons.injEq]
      constructor
      · rintro (hlt | ⟨rfl, hlt | ⟨rfl, hlt⟩⟩)
        · exact .inl (.inl hlt)
        · exact .inl (.inr ⟨rfl, hlt⟩)
        · exact .inr ⟨⟨rfl, rfl⟩, hlt⟩
      · rintro ((hlt | ⟨rfl, hlt⟩) | ⟨⟨rfl, rfl⟩, hlt⟩)
        · exact .inl hlt
        · exact .inr ⟨rfl, .inl hlt⟩
        · exact .inr ⟨rfl, .inr ⟨rfl, hlt⟩⟩

theorem not_replicate_lt (n : Nat) {l : List UInt8} (hl : l.length = n) :
    ¬ List.replicate n (0xff : UInt8) < l := by
  induction n generalizing l with
  | zero =>
    rw [List.eq_nil_of_length_eq_zero hl]
    exact List.lt_irrefl _
  | succ n ih =>
    cases l with
    | nil => cases hl
    | cons x l =>
      rw [List.replicate_succ, List.cons_lt_cons_iff]
      rintro (hlt | ⟨_, hlt⟩)
      · have hx := UInt8.lt_iff_toNat_lt.mp hlt
        have := x.toNat_lt
        simp at hx
        omega
      · exact ih (by simpa using hl) hlt

theorem not_lt_replicate (n : Nat) {l : List UInt8} (hl : l.length = n) :
    ¬ l < List.replicate n (0 : UInt8) := by
  rw [lt_iff_ofBytes_lt (by simp [hl])]
  have hzero : ofBytes (List.replicate n 0) = 0 := by
    clear hl
    induction n with
    | zero => rfl
    | succ n ih => rw [List.replicate_succ, ofBytes, ih]; simp
  omega

end Zinder.BigEndian
