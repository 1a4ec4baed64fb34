import Zinder.Mempool.Index

/-!
# Zinder.Mempool.SnapshotPages

Pages of the ordered index. The entries behind a position are listed in ascending order of their ids
(`pairwise_entriesAfter`); what a page leaves is what stands behind the last entry of the page
(`entriesAfter_last`), so a walk by last ids misses and repeats nothing on an index at rest.
-/

namespace Zinder.Mempool

open Std (ExtTreeMap)
open List

/-- Whether an id stands behind a position of a walk; every id stands behind the start. -/
def Behind (after : Option TransactionId) (id : TransactionId) : Prop :=
  ∀ a, after = some a → compare a id = .lt

@[simp] theorem behind_none (id : TransactionId) : Behind none id := by
  intro a ha
  cases ha

@[simp] theorem behind_some {a id : TransactionId} : Behind (some a) id ↔ compare a id = .lt := by
  simp [Behind]

theorem not_lt_self (id : TransactionId) : compare id id ≠ .lt := by
  have hself : compare id id = .eq := Std.ReflCmp.compare_self
  rw [hself]
  decide

theorem Behind.trans {after : Option TransactionId} {a id : TransactionId} (ha : Behind after a)
    (hid : compare a id = .lt) : Behind after id :=
  fun b hb => Std.TransCmp.lt_trans (ha b hb) hid

theorem getLast?_take_eq_none {α : Type} {l : List α} {n : Nat} (hn : 0 < n)
    (h : (l.take n).getLast? = none) : l = [] := by
  rw [getLast?_eq_none_iff, take_eq_nil_iff] at h
  exact h.resolve_left (Nat.ne_of_gt hn)

namespace MempoolIndex

variable {index : MempoolIndex}

variable {last : MempoolEntry} {e : MempoolEntry} {after : Option TransactionId} {n : Nat}

theorem mem_entriesAfter (h : index.OwnIds) :
    e ∈ index.entriesAfter after ↔
      index.entryMap e.transactionId = some e ∧ Behind after e.transactionId := by
  have hlisted : ∀ id e', (id, e') ∈ index.entries.toList ↔ index.entries[id]? = some e' :=
    fun id e' => ExtTreeMap.mem_toList_iff_getElem?_eq_some
  have hown : ∀ id, (id, e) ∈ index.entries.toList → id = e.transactionId := fun id hid =>
    (h id e ((hlisted id e).mp hid)).symm
  cases after with
  | none =>
    simp only [entriesAfter, mem_map, Prod.exists, exists_eq_right, behind_none, and_true]
    constructor
    · rintro ⟨id, hid⟩
      rw [← hown id hid]
      exact (hlisted id e).mp hid
    · intro hlive
      exact ⟨_, (hlisted _ e).mpr hlive⟩
  | some a =>
    simp only [entriesAfter, mem_map, mem_filter, Prod.exists, exists_eq_right,
      behind_some, Ordering.isLT_iff_eq_lt]
    constructor
    · rintro ⟨id, hid, hlt⟩
      rw [← hown id hid]
      exact ⟨(hlisted id e).mp hid, hlt⟩
    · rintro ⟨hlive, hlt⟩
      exact ⟨_, (hlisted _ e).mpr hlive, hlt⟩

theorem pairwise_entriesAfter (h : index.OwnIds) (after : Option TransactionId) :
    (index.entriesAfter after).Pairwise fun x y =>
      compare x.transactionId y.transactionId = .lt := by
  have hall : (index.entries.toList).Pairwise fun x y =>
      compare x.2.transactionId y.2.transactionId = .lt := by
    refine (TreeMap.ascending_toList index.entries).imp_of_mem ?_
    rintro ⟨id, e⟩ ⟨id', e'⟩ he he' hlt
    rw [ExtTreeMap.mem_toList_iff_getElem?_eq_some] at he he'
    rw [h id e he, h id' e' he']
    exact hlt
  cases after with
  | none => exact pairwise_map.mpr hall
  | some a => exact pairwise_map.mpr (hall.filter _)

theorem nodup_entriesAfter (h : index.OwnIds) (after : Option TransactionId) :
    (index.entriesAfter after).Nodup := by
  refine (pairwise_entriesAfter h after).imp ?_
  rintro x y hlt rfl
  exact not_lt_self _ hlt

/-- Entries in the order of their ids are known by their members. -/
theorem eq_of_ascending {a b : List MempoolEntry}
    (ha : a.Pairwise fun x y => compare x.transactionId y.transactionId = .lt)
    (hb : b.Pairwise fun x y => compare x.transactionId y.transactionId = .lt)
    (hmem : ∀ e, e ∈ a ↔ e ∈ b) : a = b := by
  have hnodup : ∀ {l : List MempoolEntry},
      l.Pairwise (fun x y => compare x.transactionId y.transactionId = .lt) → l.Nodup := by
    intro l hl
    refine hl.imp ?_
    rintro x y hlt rfl
    exact not_lt_self _ hlt
  refine ((perm_ext_iff_of_nodup (hnodup ha) (hnodup hb)).mpr hmem).eq_of_pairwise ?_ ha hb
  intro x y _ _ hxy hyx
  rw [Std.OrientedCmp.gt_of_lt hxy] at hyx
  cases hyx

theorem entriesAfter_congr {index' : MempoolIndex} (h : index.OwnIds) (h' : index'.OwnIds)
    (hsame : ∀ id, Behind after id → index'.entryMap id = index.entryMap id) :
    index'.entriesAfter after = index.entriesAfter after := by
  refine eq_of_ascending (pairwise_entriesAfter h' after) (pairwise_entriesAfter h after) fun e => ?_
  rw [mem_entriesAfter h', mem_entriesAfter h]
  refine and_congr_left fun hbehind => ?_
  rw [hsame _ hbehind]

theorem entriesAfter_last (h : index.OwnIds)
    (hlast : ((index.entriesAfter after).take n).getLast? = some last) :
    index.entriesAfter (some last.transactionId) = (index.entriesAfter after).drop n := by
  obtain ⟨front, hfront⟩ := getLast?_eq_some_iff.mp hlast
  have hsplit := take_append_drop n (index.entriesAfter after)
  have hsorted := pairwise_entriesAfter h after
  rw [← hsplit, hfront, pairwise_append] at hsorted
  obtain ⟨htake, hdrop, hacross⟩ := hsorted
  have hmemlast : last ∈ index.entriesAfter after := by
    refine mem_of_mem_take (i := n) ?_
    rw [hfront]
    simp
  have hbehind := ((mem_entriesAfter h).mp hmemlast).2
  refine eq_of_ascending (pairwise_entriesAfter h _) hdrop fun e => ?_
  rw [mem_entriesAfter h, behind_some]
  constructor
  · rintro ⟨hlive, hlt⟩
    have hmem : e ∈ index.entriesAfter after := (mem_entriesAfter h).mpr ⟨hlive, hbehind.trans hlt⟩
    rw [← hsplit, mem_append] at hmem
    refine hmem.resolve_left fun htaken => ?_
    -- An entry of the page is the last one or stands before it.
    rw [hfront, mem_append, mem_singleton] at htaken
    rcases htaken with hbefore | rfl
    · have hgt := (pairwise_append.mp htake).2.2 e hbefore last (mem_singleton.mpr rfl)
      rw [Std.OrientedCmp.gt_of_lt hgt] at hlt
      cases hlt
    · exact not_lt_self _ hlt
  · intro hmem
    refine ⟨((mem_entriesAfter h).mp (mem_of_mem_drop hmem)).1, ?_⟩
    exact hacross last (by simp) e hmem

@[simp] theorem entries_snapshotPage (maxEntries : Nat) (after : Option TransactionId) :
    (index.snapshotPage maxEntries after).entries = (index.entriesAfter after).take maxEntries := by
  simp [snapshotPage, take_take]

theorem next_snapshotPage (maxEntries : Nat) (after : Option TransactionId) :
    (index.snapshotPage maxEntries after).nextAfterTransactionId =
      if (index.entriesAfter after).length ≤ maxEntries then none
      else ((index.entriesAfter after).take maxEntries).getLast?.map MempoolEntry.transactionId := by
  have hfetched : ((index.entriesAfter after).take (maxEntries + 1)).length > maxEntries ↔
      ¬ (index.entriesAfter after).length ≤ maxEntries := by
    rw [length_take]
    omega
  by_cases hle : (index.entriesAfter after).length ≤ maxEntries
  · have hfew := fun hlong => hfetched.mp hlong hle
    simp only [snapshotPage, if_neg hfew, if_pos hle]
  · simp only [snapshotPage, if_pos (hfetched.mpr hle), if_neg hle, take_take,
      Nat.min_eq_left (Nat.le_succ maxEntries)]

section

variable (h : index.OwnIds)
include h

theorem mem_page {last e : MempoolEntry}
    (hlast : ((index.entriesAfter after).take n).getLast? = some last)
    (he : e ∈ index.entriesAfter after)
    (hupto : ¬ Behind (some last.transactionId) e.transactionId) :
    e ∈ (index.entriesAfter after).take n := by
  rw [← take_append_drop n (index.entriesAfter after), mem_append] at he
  refine he.resolve_right fun hdrop => hupto ?_
  rw [← entriesAfter_last h hlast, mem_entriesAfter h] at hdrop
  exact hdrop.2

theorem notMem_page (hlast : ((index.entriesAfter after).take n).getLast? = some last)
    {id : TransactionId} (hbehind : Behind (some last.transactionId) id) :
    id ∉ ((index.entriesAfter after).take n).map MempoolEntry.transactionId := by
  intro hmem
  obtain ⟨e, he, rfl⟩ := mem_map.mp hmem
  have hlisted := (mem_entriesAfter h).mp (mem_of_mem_take he)
  have hdrop : e ∈ (index.entriesAfter after).drop n := by
    rw [← entriesAfter_last h hlast]
    exact (mem_entriesAfter h).mpr ⟨hlisted.1, hbehind⟩
  exact disjoint_take_drop (nodup_entriesAfter h after) (Nat.le_refl n) he hdrop

/-! A page as a client sees it: its entries are in the index behind the page's start, it has all of
them up to its next position, and none behind that. -/

theorem listed_page (he : e ∈ (index.snapshotPage n after).entries) :
    index.entryMap e.transactionId = some e ∧ Behind after e.transactionId := by
  rw [entries_snapshotPage] at he
  exact (mem_entriesAfter h).mp (mem_of_mem_take he)

theorem nodup_page_ids (n : Nat) (after : Option TransactionId) :
    ((index.snapshotPage n after).entries.map MempoolEntry.transactionId).Nodup := by
  rw [entries_snapshotPage]
  refine pairwise_map.mpr
    (((pairwise_entriesAfter h after).sublist (take_sublist n _)).imp ?_)
  intro x y hlt heq
  rw [heq] at hlt
  exact not_lt_self _ hlt

theorem page_complete (hn : 0 < n) (he : index.entryMap e.transactionId = some e)
    (hbehind : Behind after e.transactionId)
    (hupto : (index.snapshotPage n after).nextAfterTransactionId = none ∨
      ¬ Behind (index.snapshotPage n after).nextAfterTransactionId e.transactionId) :
    e ∈ (index.snapshotPage n after).entries := by
  have hmem := (mem_entriesAfter h).mpr ⟨he, hbehind⟩
  rw [next_snapshotPage] at hupto
  rw [entries_snapshotPage]
  split at hupto
  · next hle =>
    rw [take_of_length_le hle]
    exact hmem
  · cases hlast : ((index.entriesAfter after).take n).getLast? with
    | none =>
      rw [getLast?_take_eq_none hn hlast] at hmem
      cases hmem
    | some last =>
      rw [hlast] at hupto
      exact mem_page h hlast hmem (hupto.resolve_left fun hnone => (by cases hnone))

theorem page_next {a : TransactionId}
    (hnext : (index.snapshotPage n after).nextAfterTransactionId = some a) {id : TransactionId}
    (hbehind : Behind (some a) id) :
    Behind after id ∧ id ∉ (index.snapshotPage n after).entries.map MempoolEntry.transactionId := by
  rw [next_snapshotPage] at hnext
  split at hnext
  · cases hnext
  · obtain ⟨last, hlast, rfl⟩ := Option.map_eq_some_iff.mp hnext
    have hmem : last ∈ (index.snapshotPage n after).entries := by
      rw [entries_snapshotPage]
      exact mem_of_getLast? hlast
    have hlistedlast := listed_page h hmem
    refine ⟨hlistedlast.2.trans (behind_some.mp hbehind), ?_⟩
    rw [entries_snapshotPage]
    exact notMem_page h hlast hbehind

theorem length_entriesAfter_last (hn : 0 < n)
    (hlast : ((index.entriesAfter after).take n).getLast? = some last) :
    (index.entriesAfter (some last.transactionId)).length < (index.entriesAfter after).length := by
  rw [entriesAfter_last h hlast, length_drop]
  have hpos : 0 < (index.entriesAfter after).length := by
    rw [length_pos_iff]
    intro hnil
    rw [hnil] at hlast
    simp at hlast
  omega

theorem next_eq_none (hlast : ((index.entriesAfter after).take n).getLast? = some last)
    (hnext : (index.snapshotPage n after).nextAfterTransactionId = none) :
    index.entriesAfter (some last.transactionId) = [] := by
  rw [next_snapshotPage, hlast] at hnext
  split at hnext
  · next hle =>
    rw [entriesAfter_last h hlast]
    exact drop_eq_nil_of_le hle
  · cases hnext

end

end MempoolIndex

end Zinder.Mempool
