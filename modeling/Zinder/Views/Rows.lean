import Zinder.Views.PassRules

/-!
# Zinder.Views.Rows

What the batch of a page does to the rows and the height index of a consumer, height by height.

* `rows_applyBlock`, `index_applyBlock` — a block puts its rows over the earlier ones and its keys into
  the index.
* `Reverted` — reverting heights removes them from the index, and the rows under their keys.
* `pageStore_rule` — a page is its reverts and then its blocks one by one, so what holds block by
  block holds of pages.
-/

namespace Zinder.Views

open List

variable {D K V : Type} [DecidableEq K]

namespace MaterializedViewStore

variable (store : MaterializedViewStore K V)

theorem writeBatch_append (a b : List (RowOp K V)) :
    store.writeBatch (a ++ b) = (store.writeBatch a).writeBatch b :=
  foldl_append

theorem writeBatch_cons (op : RowOp K V) (batch : List (RowOp K V)) :
    store.writeBatch (op :: batch) = (store.write op).writeBatch batch := rfl

theorem index_puts (rows : List (K × V)) :
    (store.writeBatch (rows.map fun row => .put row.1 row.2)).index = store.index := by
  induction rows generalizing store with
  | nil => rfl
  | cons row rows ih => exact ih (store.write (.put row.1 row.2))

theorem rows_puts (rows : List (K × V)) (k : K) :
    (store.writeBatch (rows.map fun row => .put row.1 row.2)).rows k =
      (((empty : MaterializedViewStore K V).writeBatch
        (rows.map fun row => .put row.1 row.2)).rows k).or (store.rows k) := by
  induction rows generalizing store with
  | nil => rfl
  | cons row rows ih =>
    rw [map_cons, writeBatch_cons, writeBatch_cons, ih, ih (write empty _), Option.or_assoc]
    congr 1
    simp only [write, empty]
    split <;> rfl

end MaterializedViewStore

open MaterializedViewStore

/-! ## Blocks -/

section Block

variable (consumer : BlockKeyedConsumer K V) (block : CanonicalBlockFacts)

omit [DecidableEq K] in
def BlockKeyedConsumer.keys : List K := (consumer.rows block).map Prod.fst

def BlockKeyedConsumer.row (k : K) : Option V :=
  ((empty : MaterializedViewStore K V).writeBatch (applyBlock consumer block)).rows k

variable {consumer block}

theorem BlockKeyedConsumer.row_eq (k : K) :
    consumer.row block k = ((empty : MaterializedViewStore K V).writeBatch
      ((consumer.rows block).map fun row => .put row.1 row.2)).rows k := by
  rw [row, applyBlock, writeBatch_append]
  rfl

variable {k : K}

theorem BlockKeyedConsumer.isSome_row :
    (consumer.row block k).isSome ↔ k ∈ consumer.keys block := by
  rw [row_eq, keys]
  induction consumer.rows block with
  | nil => simp [writeBatch, empty]
  | cons row rows ih =>
    rw [map_cons, map_cons, writeBatch_cons, rows_puts, Option.isSome_or, Bool.or_eq_true,
      ih, mem_cons, or_comm]
    refine or_congr ?_ Iff.rfl
    simp only [write, empty]
    split <;> simp_all

variable (store : MaterializedViewStore K V)

theorem rows_applyBlock (k : K) :
    (store.writeBatch (applyBlock consumer block)).rows k =
      (consumer.row block k).or (store.rows k) := by
  rw [applyBlock, writeBatch_append, BlockKeyedConsumer.row_eq, ← rows_puts]
  rfl

theorem rows_applyBlock_of_not_mem (hk : k ∉ consumer.keys block) :
    (store.writeBatch (applyBlock consumer block)).rows k = store.rows k := by
  rw [← BlockKeyedConsumer.isSome_row, Option.not_isSome_iff_eq_none] at hk
  rw [rows_applyBlock, hk, Option.none_or]

theorem rows_applyBlock_of_mem (hk : k ∈ consumer.keys block) :
    (store.writeBatch (applyBlock consumer block)).rows k = consumer.row block k := by
  rw [← BlockKeyedConsumer.isSome_row, Option.isSome_iff_exists] at hk
  obtain ⟨v, hv⟩ := hk
  rw [rows_applyBlock, hv, Option.some_or]

theorem index_applyBlock (height : Nat) :
    (store.writeBatch (applyBlock consumer block)).index[height]? =
      if block.height = height then some (consumer.keys block) else store.index[height]? := by
  rw [applyBlock, writeBatch_append]
  change ((store.writeBatch _).index.insert block.height (consumer.keys block))[height]? = _
  rw [index_puts, Std.ExtTreeMap.getElem?_insert]
  simp only [Nat.compare_eq_eq]

end Block

/-! ## Reverts -/

/-- `store'` is `store` with some heights reverted: their index entries and the rows under their keys
are gone. -/
structure Reverted (heights : List Nat) (store store' : MaterializedViewStore K V) : Prop where
  index : ∀ height, store'.index[height]? =
    if height ∈ heights then none else store.index[height]?
  deleted : ∀ height ∈ heights, ∀ keys, store.index[height]? = some keys →
    ∀ k ∈ keys, store'.rows k = none
  kept : ∀ k, (∀ height ∈ heights, ∀ keys, store.index[height]? = some keys → k ∉ keys) →
    store'.rows k = store.rows k
  fewer : ∀ k v, store'.rows k = some v → store.rows k = some v

variable (store : MaterializedViewStore K V)

omit [DecidableEq K] in
theorem reverted_nil : Reverted [] store store where
  index height := by simp
  deleted height hheight := by cases hheight
  kept k _ := rfl
  fewer k v h := h

omit [DecidableEq K] in
theorem Reverted.eq_of_nil {store store' : MaterializedViewStore K V}
    (h : Reverted [] store store') :
    store'.rows = store.rows ∧ store'.index = store.index := by
  constructor
  · funext k
    exact h.kept k fun height hheight => (by cases hheight)
  · refine Std.ExtTreeMap.ext_getElem? fun height => ?_
    rw [h.index, if_neg not_mem_nil]

theorem rows_deletes (keys : List K) (k : K) :
    (store.writeBatch (keys.map .delete)).rows k = if k ∈ keys then none else store.rows k := by
  induction keys generalizing store with
  | nil => simp [writeBatch]
  | cons key keys ih =>
    rw [map_cons, writeBatch_cons, ih]
    simp only [write, mem_cons]
    by_cases hkey : k = key
    · simp [hkey]
    · simp [hkey]

theorem index_deletes (keys : List K) :
    (store.writeBatch (keys.map .delete)).index = store.index := by
  induction keys generalizing store with
  | nil => rfl
  | cons key keys ih => exact ih (store.write (.delete key))

theorem Reverted.concat {heights : List Nat} {store store' : MaterializedViewStore K V}
    (h : Reverted heights store store') (height : Nat) :
    Reverted (heights ++ [height]) store (store'.writeBatch (store.revertBlock height)) := by
  unfold revertBlock
  cases hkeys : store.index[height]? with
  | none =>
    refine ⟨fun height' => ?_, fun height' hmem keys hindex => ?_, fun k hk => ?_, h.fewer⟩
    · rw [writeBatch, foldl_nil, h.index]
      simp only [mem_append, mem_singleton]
      by_cases heq : height' = height
      · simp [heq, hkeys]
      · simp [heq]
    · rcases mem_append.mp hmem with hmem | hmem
      · exact h.deleted height' hmem keys hindex
      · rw [mem_singleton.mp hmem, hkeys] at hindex
        cases hindex
    · exact h.kept k fun height' hmem => hk height' (mem_append_left _ hmem)
  | some keys =>
    have hrows : ∀ k, (store'.writeBatch (keys.map .delete ++ [.deleteIndex height])).rows k =
        if k ∈ keys then none else store'.rows k := by
      intro k
      rw [writeBatch_append, ← rows_deletes]
      rfl
    refine ⟨fun height' => ?_, fun height' hmem keys' hindex k hk => ?_, fun k hk => ?_,
      fun k v hv => ?_⟩
    · rw [writeBatch_append]
      change ((store'.writeBatch (keys.map .delete)).index.erase height)[height']? = _
      rw [index_deletes, Std.ExtTreeMap.getElem?_erase, h.index]
      simp only [Nat.compare_eq_eq, mem_append, mem_singleton]
      by_cases heq : height = height'
      · simp [heq]
      · simp [heq, Ne.symm heq]
    · rw [hrows]
      by_cases hmem' : k ∈ keys
      · exact if_pos hmem'
      · rw [if_neg hmem']
        rcases mem_append.mp hmem with hmem | hmem
        · exact h.deleted height' hmem keys' hindex k hk
        · rw [mem_singleton.mp hmem, hkeys] at hindex
          cases hindex
          exact absurd hk hmem'
    · rw [hrows, if_neg (hk height (mem_append_right _ (mem_singleton.mpr rfl)) keys hkeys)]
      exact h.kept k fun height' hmem => hk height' (mem_append_left _ hmem)
    · rw [hrows] at hv
      split at hv
      · cases hv
      · exact h.fewer k v hv

theorem reverted_heights (heights : List Nat) :
    Reverted heights store (store.writeBatch (heights.flatMap store.revertBlock)) := by
  induction heights using List.reverseRecOn with
  | nil => exact reverted_nil store
  | append_singleton heights height ih =>
    rw [flatMap_append, writeBatch_append, flatMap_singleton]
    exact ih.concat height

/-! ## Pages -/

def DispatchedTransition.revertedHeights (t : DispatchedTransition) : List Nat :=
  match t.reverted with
  | none => []
  | some range => range.heights

theorem applyHeights_rule {consumer : BlockKeyedConsumer K V}
    {contexts : Std.ExtTreeMap Nat CanonicalBlockFacts} {I : Nat → MaterializedViewStore K V → Prop}
    {start count : Nat}
    (hcontexts : ∀ height ∈ List.range' start count, contexts.contains height)
    (hstep : ∀ height block store, start ≤ height → height < start + count →
      contexts[height]? = some block → I height store →
      I (height + 1) (store.writeBatch (applyBlock consumer block)))
    {store : MaterializedViewStore K V} (hI : I start store) :
    I (start + count) (store.writeBatch ((List.range' start count).flatMap fun height =>
      match contexts[height]? with
      | none => []
      | some block => applyBlock consumer block)) := by
  induction count generalizing start store with
  | zero => exact hI
  | succ count ih =>
    rw [range'_succ] at hcontexts ⊢
    obtain ⟨block, hblock⟩ : ∃ block, contexts[start]? = some block := by
      have hstart := hcontexts start mem_cons_self
      rw [← Std.ExtTreeMap.isSome_getElem?_eq_contains] at hstart
      exact Option.isSome_iff_exists.mp hstart
    rw [flatMap_cons, hblock, writeBatch_append, ← Nat.add_assoc, Nat.add_right_comm]
    refine ih (fun height hheight => hcontexts height (mem_cons_of_mem _ hheight)) ?_ ?_
    · exact fun height block store hge hlt => hstep height block store (by omega) (by omega)
    · exact hstep start block store (Nat.le_refl _) (by omega) hblock hI

theorem pageStore_rule {env : ReplayEnv D K V} (t : DispatchedTransition) {page : BlockHeightRange}
    {contexts : Std.ExtTreeMap Nat CanonicalBlockFacts} (advanceCursor : Bool)
    {I : Nat → MaterializedViewStore K V → Prop} (hpage : page.start ≤ page.stop)
    (hcontexts : ∀ height ∈ page.heights, contexts.contains height)
    (hstep : ∀ height block store, page.start ≤ height → height ≤ page.stop →
      contexts[height]? = some block → I height store →
      I (height + 1) (store.writeBatch (applyBlock env.consumer block)))
    (store : MaterializedViewStore K V)
    (hI : ∀ reverted, Reverted t.revertedHeights store reverted → I page.start reverted) :
    ∃ pages, I (page.stop + 1) pages ∧ pageStore env store t page contexts advanceCursor =
      { pages with cursor := if advanceCursor then some t.cursor else store.cursor } := by
  have hrevert : ∃ reverted, Reverted t.revertedHeights store reverted ∧
      store.writeBatch (pageBatch env store t page contexts) =
        reverted.writeBatch (page.heights.flatMap fun height => match contexts[height]? with
          | none => []
          | some block => applyBlock env.consumer block) := by
    unfold pageBatch DispatchedTransition.revertedHeights
    rw [writeBatch_append]
    cases t.reverted with
    | none => exact ⟨store, reverted_nil store, rfl⟩
    | some range => exact ⟨_, reverted_heights store range.heights, rfl⟩
  obtain ⟨reverted, hreverted, hbatch⟩ := hrevert
  refine ⟨_, ?_, rfl⟩
  rw [hbatch]
  have hstop : page.stop + 1 = page.start + (page.stop + 1 - page.start) := by omega
  rw [hstop]
  refine applyHeights_rule hcontexts (fun height block store hge hlt => ?_) (hI reverted hreverted)
  exact hstep height block store hge (by omega)

end Zinder.Views
