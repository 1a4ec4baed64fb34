import Mathlib

/-!
# Zinder.Lib.KeyValue

A key-value database with typed rows and atomic write batches. A key fixes the type of its value,
so a row of one family can never hold a value of another.

A batch is a list of operations applied in order, so a later operation on a key wins over an
earlier one (`write`). The rules below say what a key holds after a batch:

* `lookup_write_of_untouched` — a key no operation names keeps its row;
* `lookup_write_puts`, `lookup_write_deletes` — batches of one kind;
* `lookup_replace` — the batch that deletes the rows of a discarded suffix and puts the rows of
  its replacement leaves exactly the kept rows followed by the new ones.
-/

namespace Zinder.KeyValue

open List

variable {K : Type} [DecidableEq K] {V : K → Type}

/-- One row: a key with a value of the key's type. -/
abbrev Row (V : K → Type) := Sigma V

/-- A database: finitely many rows, at most one per key. -/
abbrev Rows (V : K → Type) := Finmap V

inductive Op (V : K → Type) where
  | put (k : K) (v : V k)
  | delete (k : K)

namespace Op

def key : Op V → K
  | put k _ => k
  | delete k => k

def apply : Op V → Rows V → Rows V
  | put k v, db => db.insert k v
  | delete k, db => db.erase k

def ofRow (r : Row V) : Op V := put r.1 r.2

omit [DecidableEq K] in
theorem map_key_ofRow (rows : List (Row V)) : (rows.map ofRow).map key = rows.keys := by
  simp [List.keys, ofRow, key, Function.comp_def]

theorem lookup_apply_of_ne {op : Op V} {k : K} (h : k ≠ op.key) (db : Rows V) :
    (op.apply db).lookup k = db.lookup k := by
  cases op with
  | put k' v => exact Finmap.lookup_insert_of_ne db h
  | delete k' => exact Finmap.lookup_erase_ne h

end Op

/-- The atomic batch: every operation in order. -/
def write (batch : List (Op V)) (db : Rows V) : Rows V :=
  batch.foldl (fun d op => op.apply d) db

@[simp] theorem write_nil (db : Rows V) : write [] db = db := rfl

@[simp] theorem write_cons (op : Op V) (batch : List (Op V)) (db : Rows V) :
    write (op :: batch) db = write batch (op.apply db) := rfl

theorem write_append (a b : List (Op V)) (db : Rows V) :
    write (a ++ b) db = write b (write a db) := by
  simp [write, foldl_append]

variable {rows : List (Row V)} {k : K}

theorem lookup_write_of_untouched {batch : List (Op V)} (h : k ∉ batch.map Op.key) (db : Rows V) :
    (write batch db).lookup k = db.lookup k := by
  induction batch generalizing db with
  | nil => rfl
  | cons op batch ih =>
    simp only [map_cons, mem_cons, not_or] at h
    rw [write_cons, ih h.2, Op.lookup_apply_of_ne h.1]

theorem lookup_write_deletes {ks : List K} (db : Rows V) :
    (write (ks.map Op.delete) db).lookup k = if k ∈ ks then none else db.lookup k := by
  induction ks generalizing db with
  | nil => rfl
  | cons k' ks ih =>
    rw [map_cons, write_cons, ih]
    by_cases hk : k = k'
    · subst hk
      simp [Op.apply]
    · simp [hk, Op.apply, Finmap.lookup_erase_ne hk]

/-- Putting rows in which `k` occurs at most once leaves `k` with the value listed for it. -/
theorem lookup_write_puts (h : rows.keys.count k ≤ 1) (db : Rows V) :
    (write (rows.map Op.ofRow) db).lookup k = (rows.dlookup k).or (db.lookup k) := by
  induction rows generalizing db with
  | nil => rfl
  | cons r rows ih =>
    obtain ⟨k', v⟩ := r
    rw [map_cons, write_cons]
    by_cases hk : k = k'
    · subst hk
      have hout : k ∉ rows.keys := by
        have : rows.keys.count k = 0 := by
          simp only [keys_cons, count_cons_self] at h
          simpa using h
        exact count_eq_zero.mp this
      have hops : k ∉ (rows.map Op.ofRow).map Op.key := by
        rw [Op.map_key_ofRow]; exact hout
      rw [lookup_write_of_untouched hops]
      simp [Op.apply, Op.ofRow]
    · have hc : rows.keys.count k ≤ 1 := by
        simpa [keys_cons, count_cons_of_ne (Ne.symm hk)] using h
      rw [ih hc]
      simp [Op.apply, Op.ofRow, dlookup_cons_ne rows ⟨k', v⟩ hk, Finmap.lookup_insert_of_ne _ hk]

/-- Of the rows put under one key the last one stays. -/
theorem lookup_write_rows (rows : List (Row V)) (k : K) (db : Rows V) :
    (write (rows.map Op.ofRow) db).lookup k = (rows.reverse.dlookup k).or (db.lookup k) := by
  induction rows using List.reverseRecOn with
  | nil => rfl
  | append_singleton rows r ih =>
    obtain ⟨k', v⟩ := r
    rw [map_append, write_append, reverse_append]
    by_cases hk : k = k'
    · subst hk
      simp [Op.apply, Op.ofRow]
    · simp [Op.apply, Op.ofRow, dlookup_cons_ne rows.reverse ⟨k', v⟩ hk,
        Finmap.lookup_insert_of_ne _ hk, ih]

/-- The rule for replacing a suffix. The database agrees at `k` with `kept ++ gone`; one batch
deletes `dels` and then puts `new`, followed by operations on other keys. If the deletions cover
the discarded rows, neither the deletions nor the new rows touch a kept row, and `k` is put at most
once, then `k` holds what `kept ++ new` says. -/
theorem lookup_replace {kept gone new : List (Row V)} {dels : List K} {rest : List (Op V)}
    {db : Rows V} (hdb : db.lookup k = (kept ++ gone).dlookup k) (hgone : k ∈ gone.keys → k ∈ dels)
    (hdels : k ∈ dels → k ∉ kept.keys) (hnew : k ∈ new.keys → k ∉ kept.keys)
    (honce : new.keys.count k ≤ 1) (hrest : k ∉ rest.map Op.key) :
    (write (dels.map Op.delete ++ new.map Op.ofRow ++ rest) db).lookup k =
      (kept ++ new).dlookup k := by
  rw [write_append, write_append, lookup_write_of_untouched hrest, lookup_write_puts honce,
    lookup_write_deletes, hdb, dlookup_append, dlookup_append]
  by_cases hn : k ∈ new.keys
  · rw [dlookup_eq_none.mpr (hnew hn), Option.none_or]
    obtain ⟨v, hv⟩ := Option.isSome_iff_exists.mp (dlookup_isSome.mpr hn)
    simp [hv]
  · rw [dlookup_eq_none.mpr hn, Option.none_or, Option.or_none]
    by_cases hd : k ∈ dels
    · simp [hd, dlookup_eq_none.mpr (hdels hd)]
    · simp [hd, dlookup_eq_none.mpr (fun h => hd (hgone h))]

/-! ## Keys over concatenated row lists -/

section Concat

variable {α : Type}

omit [DecidableEq K] in
theorem notMem_flatMap_of_pairwise {a b : List α} {f : α → List K} {k : K}
    (h : (a ++ b).Pairwise fun x y => k ∈ f x → k ∉ f y) (hk : k ∈ a.flatMap f) :
    k ∉ b.flatMap f := by
  obtain ⟨x, hx, hkx⟩ := mem_flatMap.mp hk
  intro hkb
  obtain ⟨y, hy, hky⟩ := mem_flatMap.mp hkb
  exact (pairwise_append.mp h).2.2 x hx y hy hkx hky

theorem count_flatMap_le_one {l : List α} {f : α → List K} {k : K}
    (hone : ∀ a ∈ l, (f a).count k ≤ 1) (hpair : l.Pairwise fun x y => k ∈ f x → k ∉ f y) :
    (l.flatMap f).count k ≤ 1 := by
  induction l with
  | nil => simp
  | cons a l ih =>
    rw [flatMap_cons, count_append]
    rw [pairwise_cons] at hpair
    by_cases hk : k ∈ f a
    · have hrest : (l.flatMap f).count k = 0 := by
        refine count_eq_zero.mpr fun hmem => ?_
        obtain ⟨y, hy, hky⟩ := mem_flatMap.mp hmem
        exact hpair.1 y hy hk hky
      have := hone a mem_cons_self
      omega
    · have := ih (fun b hb => hone b (mem_cons_of_mem a hb)) hpair.2
      rw [count_eq_zero.mpr hk]
      omega

end Concat

theorem dlookup_of_mem {r : Row V} (hmem : r ∈ rows) (honce : rows.keys.count r.1 ≤ 1) :
    rows.dlookup r.1 = some r.2 := by
  induction rows with
  | nil => simp at hmem
  | cons q rows ih =>
    rcases mem_cons.mp hmem with rfl | hmem
    · exact dlookup_cons_eq rows r.1 r.2
    · have hkey : r.1 ∈ rows.keys := mem_keys_of_mem hmem
      have hne : r.1 ≠ q.1 := by
        intro he
        rw [keys_cons, ← he, count_cons_self] at honce
        have := count_pos_iff.mpr hkey
        omega
      rw [dlookup_cons_ne rows q hne]
      rw [keys_cons, count_cons_of_ne hne.symm] at honce
      exact ih hmem honce

theorem dlookup_eq_some_iff (honce : rows.keys.count k ≤ 1) {v : V k} :
    rows.dlookup k = some v ↔ (⟨k, v⟩ : Row V) ∈ rows :=
  ⟨of_mem_dlookup, fun hmem => dlookup_of_mem hmem honce⟩

theorem dlookup_congr {a b : List (Row V)} (ha : a.keys.count k ≤ 1) (hb : b.keys.count k ≤ 1)
    (h : ∀ v : V k, (⟨k, v⟩ : Row V) ∈ a ↔ (⟨k, v⟩ : Row V) ∈ b) :
    a.dlookup k = b.dlookup k := by
  ext v
  rw [dlookup_eq_some_iff ha, dlookup_eq_some_iff hb, h v]

/-- A database that agrees with a list of rows on a class of keys. -/
def AgreesOn (S : K → Prop) (db : Rows V) (rows : List (Row V)) : Prop :=
  ∀ k, S k → db.lookup k = rows.dlookup k

end Zinder.KeyValue
