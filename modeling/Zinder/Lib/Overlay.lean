import Zinder.Lib.TreeMap

/-!
# Zinder.Lib.Overlay

Secondary maps kept beside a set of records.

Each record has items, and an overlay files every item of every live record under the item's key.
`Mirrors` says that an overlay holds exactly that. Filing a record's items (`Mirrors.add`) and taking
them out again (`Mirrors.remove`) keep it, as long as no two live records share a key.

An overlay is known by its reads: `Keeps` are the laws of its read, its write and its removal. Tree
maps have them, and so do maps of buckets that drop a bucket once it is empty (`Buckets`).
-/

namespace Zinder

open Std (ExtTreeMap TransCmp LawfulEqCmp)
open List

/-! ## Reads, writes and removals -/

section Keeps

variable {σ κ ν γ : Type} [DecidableEq κ]

/-- The read laws of writing and removing one item of key `key x` and value `value x`. -/
structure Keeps (get : σ → κ → Option ν) (put del : σ → γ → σ) (key : γ → κ) (value : γ → ν) :
    Prop where
  get_put : ∀ s x k, get (put s x) k = if k = key x then some (value x) else get s k
  get_del : ∀ s x k, get (del s x) k = if k = key x then none else get s k

variable {get : σ → κ → Option ν} {put del : σ → γ → σ} {key : γ → κ} {value : γ → ν}

theorem Keeps.get_foldl_put (h : Keeps get put del key value) {xs : List γ}
    (hnodup : (xs.map key).Nodup) (s : σ) (k : κ) (v : ν) :
    get (xs.foldl put s) k = some v ↔
      (∃ x ∈ xs, key x = k ∧ value x = v) ∨ (k ∉ xs.map key ∧ get s k = some v) := by
  induction xs generalizing s with
  | nil => simp
  | cons x xs ih =>
    rw [map_cons, nodup_cons] at hnodup
    rw [foldl_cons, ih hnodup.2, h.get_put]
    by_cases hk : k = key x
    · subst hk
      have habsent : ¬ ∃ y ∈ xs, key y = key x ∧ value y = v := by
        rintro ⟨y, hy, hkey, _⟩
        exact hnodup.1 (mem_map.mpr ⟨y, hy, hkey⟩)
      simp [habsent, hnodup.1]
    · have hk' : ¬ key x = k := fun heq => hk heq.symm
      simp [hk, hk']

theorem Keeps.get_foldl_del (h : Keeps get put del key value) (xs : List γ) (s : σ) (k : κ) :
    get (xs.foldl del s) k = if k ∈ xs.map key then none else get s k := by
  induction xs generalizing s with
  | nil => simp
  | cons x xs ih =>
    rw [foldl_cons, ih, h.get_del]
    by_cases hk : k = key x
    · subst hk
      simp
    · simp [hk]

end Keeps

/-! ## Overlays of live records -/

section Mirrors

variable {σ κ ν γ ρ : Type}

/-- The overlay holds the items of the live records under their keys, and nothing else. -/
def Mirrors (get : κ → Option ν) (items : ρ → List γ) (key : γ → κ) (value : γ → ν)
    (live : ρ → Prop) : Prop :=
  ∀ k v, get k = some v ↔ ∃ r, live r ∧ ∃ x ∈ items r, key x = k ∧ value x = v

/-- The keys of two records do not meet. -/
def Apart (items : ρ → List γ) (key : γ → κ) (r r' : ρ) : Prop :=
  ∀ k, k ∈ (items r).map key → k ∉ (items r').map key

variable {get : σ → κ → Option ν} {put del : σ → γ → σ} {key : γ → κ} {value : γ → ν}
  {items : ρ → List γ} {live : ρ → Prop} {s : σ} {r : ρ}

theorem Mirrors.empty {get : κ → Option ν} (h : ∀ k, get k = none) :
    Mirrors get items key value fun _ => False := by
  intro k v
  simp [h]

theorem Mirrors.get_eq {get get' : κ → Option ν} {live' : ρ → Prop}
    (h : Mirrors get items key value live) (h' : Mirrors get' items key value live')
    (hlive : ∀ r, live r ↔ live' r) (k : κ) : get k = get' k := by
  refine Option.ext fun v => ?_
  rw [h k v, h' k v]
  simp only [hlive]

variable [DecidableEq κ]

section

variable (hkeeps : Keeps get put del key value) (h : Mirrors (get s) items key value live)
include hkeeps h

theorem Mirrors.add (hnodup : ((items r).map key).Nodup)
    (hapart : ∀ r', live r' → Apart items key r r') :
    Mirrors (get ((items r).foldl put s)) items key value fun r' => r' = r ∨ live r' := by
  intro k v
  rw [hkeeps.get_foldl_put hnodup, h k v]
  constructor
  · rintro (hx | ⟨_, r', hr', hx⟩)
    · exact ⟨r, .inl rfl, hx⟩
    · exact ⟨r', .inr hr', hx⟩
  · rintro ⟨r', rfl | hr', x, hx, hkey, hvalue⟩
    · exact .inl ⟨x, hx, hkey, hvalue⟩
    · refine .inr ⟨fun hk => ?_, r', hr', x, hx, hkey, hvalue⟩
      exact hapart r' hr' k hk (mem_map.mpr ⟨x, hx, hkey⟩)

theorem Mirrors.remove (hapart : ∀ r', live r' → r' ≠ r → Apart items key r r') :
    Mirrors (get ((items r).foldl del s)) items key value fun r' => live r' ∧ r' ≠ r := by
  intro k v
  rw [hkeeps.get_foldl_del]
  by_cases hk : k ∈ (items r).map key
  · rw [if_pos hk]
    constructor
    · intro hnone
      cases hnone
    · rintro ⟨r', ⟨hr', hne⟩, x, hx, hkey, _⟩
      exact absurd (mem_map.mpr ⟨x, hx, hkey⟩) (hapart r' hr' hne k hk)
  · rw [if_neg hk, h k v]
    refine exists_congr fun r' => ⟨?_, ?_⟩
    · rintro ⟨hr', x, hx, hkey, hvalue⟩
      refine ⟨⟨hr', ?_⟩, x, hx, hkey, hvalue⟩
      rintro rfl
      exact hk (mem_map.mpr ⟨x, hx, hkey⟩)
    · rintro ⟨⟨hr', _⟩, hx⟩
      exact ⟨hr', hx⟩

end

end Mirrors

/-! ## Tree maps -/

section TreeMap

variable {α β γ : Type} [DecidableEq α] {cmp : α → α → Ordering} [TransCmp cmp] [LawfulEqCmp cmp]

theorem TreeMap.keeps (key : γ → α) (value : γ → β) :
    Keeps (fun (m : ExtTreeMap α β cmp) k => m[k]?) (fun m x => m.insert (key x) (value x))
      (fun m x => m.erase (key x)) key value where
  get_put m x k := TreeMap.getElem?_insert_ite m (key x) k (value x)
  get_del m x k := TreeMap.getElem?_erase_ite m (key x) k

end TreeMap

/-! ## Buckets -/

/-- A map of buckets: items under a group and, within the group, under a key. -/
abbrev Buckets (α κ ν : Type) (groupCmp : α → α → Ordering) (keyCmp : κ → κ → Ordering) : Type :=
  ExtTreeMap α (ExtTreeMap κ ν keyCmp) groupCmp

namespace Buckets

variable {α κ ν : Type} {groupCmp : α → α → Ordering} {keyCmp : κ → κ → Ordering}
  [TransCmp groupCmp] [TransCmp keyCmp]

variable (m : Buckets α κ ν groupCmp keyCmp) (k : α × κ)

def get : Option ν :=
  m[k.1]?.bind fun bucket => bucket[k.2]?

/-- Writes into the group's bucket, making one if there is none. -/
def put (v : ν) : Buckets α κ ν groupCmp keyCmp :=
  m.insert k.1 ((m[k.1]?.getD ∅).insert k.2 v)

/-- Removes from the group's bucket, and the bucket with its last item. -/
def del : Buckets α κ ν groupCmp keyCmp :=
  match m[k.1]? with
  | none => m
  | some bucket =>
    if (bucket.erase k.2).isEmpty then m.erase k.1 else m.insert k.1 (bucket.erase k.2)

def NoneEmpty : Prop :=
  ∀ (a : α) (bucket : ExtTreeMap κ ν keyCmp), m[a]? = some bucket → bucket ≠ ∅

omit [TransCmp keyCmp] in
theorem noneEmpty_empty : NoneEmpty (∅ : Buckets α κ ν groupCmp keyCmp) := by
  intro a bucket h
  simp at h

variable [DecidableEq α] [DecidableEq κ] [LawfulEqCmp groupCmp] [LawfulEqCmp keyCmp]

theorem get_put (k k' : α × κ) (v : ν) :
    (m.put k v).get k' = if k' = k then some v else m.get k' := by
  obtain ⟨a, b⟩ := k
  obtain ⟨a', b'⟩ := k'
  simp only [get, put, TreeMap.getElem?_insert_ite, Prod.mk.injEq]
  by_cases ha : a' = a
  · subst ha
    simp only [if_true, Option.bind_some, TreeMap.getElem?_insert_ite, true_and]
    cases m[a']? <;> simp
  · simp [ha]

theorem get_del (k k' : α × κ) : (m.del k).get k' = if k' = k then none else m.get k' := by
  obtain ⟨a, b⟩ := k
  obtain ⟨a', b'⟩ := k'
  simp only [get, del, Prod.mk.injEq]
  cases hbucket : m[a]? with
  | none =>
    by_cases ha : a' = a
    · subst ha
      simp [hbucket]
    · simp [ha]
  | some bucket =>
    have herase := TreeMap.getElem?_erase_ite bucket b b'
    simp only
    split
    · next hempty =>
      rw [ExtTreeMap.isEmpty_iff] at hempty
      rw [hempty] at herase
      simp only [TreeMap.getElem?_erase_ite]
      by_cases ha : a' = a
      · subst ha
        simp only [if_true, true_and, hbucket, Option.bind_some]
        exact herase
      · simp [ha]
    · simp only [TreeMap.getElem?_insert_ite]
      by_cases ha : a' = a
      · subst ha
        simp only [if_true, true_and, hbucket, Option.bind_some]
        exact herase
      · simp [ha]

theorem keeps {γ : Type} (key : γ → α × κ) (value : γ → ν) :
    Keeps (fun (m : Buckets α κ ν groupCmp keyCmp) k => m.get k) (fun m x => m.put (key x) (value x))
      (fun m x => m.del (key x)) key value where
  get_put m x k := get_put m (key x) k (value x)
  get_del m x k := get_del m (key x) k

omit [DecidableEq κ] [LawfulEqCmp keyCmp] in
theorem NoneEmpty.put {m : Buckets α κ ν groupCmp keyCmp} (h : NoneEmpty m) (k : α × κ) (v : ν) :
    NoneEmpty (m.put k v) := by
  intro a bucket hbucket
  simp only [Buckets.put, TreeMap.getElem?_insert_ite] at hbucket
  split at hbucket
  · cases hbucket
    exact ExtTreeMap.insert_ne_empty
  · exact h a bucket hbucket

omit [DecidableEq κ] [LawfulEqCmp keyCmp] in
theorem NoneEmpty.del {m : Buckets α κ ν groupCmp keyCmp} (h : NoneEmpty m) (k : α × κ) :
    NoneEmpty (m.del k) := by
  intro a bucket hbucket
  rw [Buckets.del] at hbucket
  split at hbucket
  · exact h a bucket hbucket
  · split at hbucket
    · rw [TreeMap.getElem?_erase_ite] at hbucket
      split at hbucket
      · cases hbucket
      · exact h a bucket hbucket
    · next hkept =>
      rw [TreeMap.getElem?_insert_ite] at hbucket
      split at hbucket
      · cases hbucket
        intro hempty
        exact hkept (ExtTreeMap.isEmpty_iff.mpr hempty)
      · exact h a bucket hbucket

omit [DecidableEq α] [DecidableEq κ] in
/-- Without empty buckets the reads determine the map. -/
theorem NoneEmpty.ext {m m' : Buckets α κ ν groupCmp keyCmp} (h : NoneEmpty m) (h' : NoneEmpty m')
    (hget : ∀ k, m.get k = m'.get k) : m = m' := by
  have hread : ∀ (m : Buckets α κ ν groupCmp keyCmp) (a : α) bucket, m[a]? = some bucket →
      ∀ b : κ, bucket[b]? = m.get (a, b) := by
    intro m a bucket hbucket b
    simp [get, hbucket]
  have hinhabited : ∀ {m m' : Buckets α κ ν groupCmp keyCmp}, NoneEmpty m →
      (∀ k, m.get k = m'.get k) → ∀ (a : α) bucket, m[a]? = some bucket → m'[a]? = some bucket := by
    intro m m' h hget a bucket hbucket
    have hsame : ∀ b : κ, bucket[b]? = m'.get (a, b) := fun b =>
      (hread m a bucket hbucket b).trans (hget (a, b))
    cases hbucket' : m'[a]? with
    | none =>
      refine absurd (ExtTreeMap.ext_getElem? fun b => ?_) (h a bucket hbucket)
      rw [hsame b]
      simp [get, hbucket']
    | some bucket' =>
      refine congrArg some (ExtTreeMap.ext_getElem? fun b => ?_)
      rw [hsame b, hread m' a bucket' hbucket' b]
  refine ExtTreeMap.ext_getElem? fun a => Option.ext fun bucket => ?_
  exact ⟨hinhabited h hget a bucket, hinhabited h' (fun k => (hget k).symm) a bucket⟩

end Buckets

end Zinder
