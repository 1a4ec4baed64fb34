import Zinder.Lib.Checked
import Zinder.Lib.ByteFields

/-!
# Zinder.Lib.ByteReader

Decoders that walk through a byte string from front to back.

A reader takes the bytes that are left and returns a value with the bytes behind it. Each reader has
one law, in both directions: it succeeds with `x` and `rest` exactly when the bytes are those of `x`
followed by `rest`. A decoder built from such readers is taken apart by `bind_eq_ok`, and what is left
is one equation for the whole byte string.
-/

namespace Zinder

open List

/-- A reader of a value at the front of a byte string. -/
def ByteReader (ε α : Type) := List UInt8 → Except ε (α × List UInt8)

namespace ByteReader

variable {ε α β : Type}

instance : Monad (ByteReader ε) where
  pure a := fun bytes => .ok (a, bytes)
  bind r f := fun bytes => do
    let (a, rest) ← r bytes
    f a rest

def lift (x : Except ε α) : ByteReader ε α := fun bytes => do
  let a ← x
  .ok (a, bytes)

def take (length : Nat) (truncated : ε) : ByteReader ε (List UInt8) := fun bytes =>
  if length ≤ bytes.length then .ok (bytes.take length, bytes.drop length) else .error truncated

def array (width : Nat) (truncated : ε) : ByteReader ε (FixedBytes width) := fun bytes =>
  if h : width ≤ bytes.length then .ok (⟨bytes.take width, length_take_of_le h⟩, bytes.drop width)
  else .error truncated

def byte (truncated : ε) : ByteReader ε UInt8 := fun bytes =>
  match bytes with
  | [] => .error truncated
  | b :: rest => .ok (b, rest)

def littleEndian (width : Nat) (truncated : ε) : ByteReader ε Nat := do
  let bytes ← take width truncated
  pure (LittleEndian.ofBytes bytes)

variable {bytes rest : List UInt8} {truncated : ε}

theorem bind_eq_ok {r : ByteReader ε α} {f : α → ByteReader ε β} {b : β} :
    (r >>= f) bytes = .ok (b, rest) ↔
      ∃ a mid, r bytes = .ok (a, mid) ∧ f a mid = .ok (b, rest) := by
  change (r bytes >>= fun p => f p.1 p.2) = _ ↔ _
  rw [Zinder.bind_eq_ok]
  exact ⟨fun ⟨p, hp, h⟩ => ⟨p.1, p.2, hp, h⟩, fun ⟨a, mid, hp, h⟩ => ⟨(a, mid), hp, h⟩⟩

theorem pure_eq_ok {a b : α} :
    (pure a : ByteReader ε α) bytes = .ok (b, rest) ↔ b = a ∧ bytes = rest := by
  change (Except.ok (a, bytes) : Except ε _) = _ ↔ _
  simp [eq_comm]

theorem lift_eq_ok {x : Except ε α} {a : α} :
    lift x bytes = .ok (a, rest) ↔ x = .ok a ∧ bytes = rest := by
  simp [lift, Zinder.bind_eq_ok]

theorem take_eq_ok {length : Nat} {w : List UInt8} :
    take length truncated bytes = .ok (w, rest) ↔ w.length = length ∧ bytes = w ++ rest := by
  unfold take
  split
  case isTrue h =>
    simp only [Except.ok.injEq, Prod.mk.injEq]
    constructor
    · rintro ⟨rfl, rfl⟩
      exact ⟨length_take_of_le h, (take_append_drop _ _).symm⟩
    · rintro ⟨hlength, rfl⟩
      exact ⟨take_left' hlength, drop_left' hlength⟩
  case isFalse h =>
    refine ⟨fun hok => (by cases hok), fun ⟨hlength, heq⟩ => (h ?_).elim⟩
    rw [heq, length_append, hlength]
    exact Nat.le_add_right _ _

theorem array_eq_ok {width : Nat} {a : FixedBytes width} :
    array width truncated bytes = .ok (a, rest) ↔ bytes = a.bytes ++ rest := by
  unfold array
  split
  case isTrue h =>
    simp only [Except.ok.injEq, Prod.mk.injEq, FixedBytes.ext_iff]
    constructor
    · rintro ⟨hbytes, rfl⟩
      rw [← hbytes, take_append_drop]
    · rintro rfl
      exact ⟨take_left' a.length_eq, drop_left' a.length_eq⟩
  case isFalse h =>
    refine ⟨fun hok => (by cases hok), fun heq => (h ?_).elim⟩
    rw [heq, length_append, a.length_eq]
    exact Nat.le_add_right _ _

theorem byte_eq_ok {b : UInt8} : byte truncated bytes = .ok (b, rest) ↔ bytes = b :: rest := by
  cases bytes with
  | nil => simp [byte]
  | cons c cs => simp [byte]

theorem littleEndian_eq_ok {width n : Nat} :
    littleEndian width truncated bytes = .ok (n, rest) ↔
      n < 256 ^ width ∧ bytes = LittleEndian.toBytes width n ++ rest := by
  rw [littleEndian, bind_eq_ok]
  simp only [take_eq_ok, pure_eq_ok]
  constructor
  · rintro ⟨w, _, ⟨hlength, rfl⟩, rfl, rfl⟩
    refine ⟨hlength ▸ LittleEndian.ofBytes_lt w, ?_⟩
    rw [LittleEndian.toBytes_ofBytes hlength]
  · rintro ⟨hlt, rfl⟩
    exact ⟨_, _, ⟨LittleEndian.length_toBytes _ _, rfl⟩,
      (LittleEndian.ofBytes_toBytes_of_lt hlt).symm, rfl⟩

end ByteReader
end Zinder
