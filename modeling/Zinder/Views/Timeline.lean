import Zinder.Views.Rows

/-!
# Zinder.Views.Timeline

The canonical history as the materialized views see it, and what the views keep in step with it.

A `Timeline` has, for each event, the tip it leads to and the first height it reverts, and the blocks
that are visible now. Replay reads block contents from the visible chain, never from the chain at the
time of an event, so between the cursor and the fence the views are right only about the heights no
later event reverts: the *stable* ones.

* `Consistent` — the views at a cursor: stable heights are exact, the keys indexed at any height are
  apart from those of stable heights, and heights above the cursor's tip hold visible blocks.
* `Dispatching` — the same in the middle of the next event.
* `Building` — a first build up to some height.
* `Consistent.converged` — at the fence the views are the rows of the visible chain.
-/

namespace Zinder.Views

/-! ## Timelines -/

structure Timeline where
  first : Nat
  fence : Nat
  /-- The tip height after so many events. -/
  tips : Nat → Nat
  /-- The first height reverted by the event after so many. -/
  reverts : Nat → Option Nat
  /-- The visible blocks by height. -/
  blocks : Nat → Option CanonicalBlockFacts
  fence_pos : 0 < fence
  tips_zero : tips 0 + 1 = first
  reverts_le : ∀ n a, n < fence → reverts n = some a → first ≤ a ∧ a ≤ tips n
  commits : ∀ n, n < fence → (reverts n).getD (tips n + 1) ≤ tips (n + 1)
  isSome_blocks : ∀ height, (blocks height).isSome ↔ first ≤ height ∧ height ≤ tips fence
  height_blocks : ∀ height block, blocks height = some block → block.height = height

namespace Timeline

variable {K V : Type} (T : Timeline)

def commitStart (n : Nat) : Nat := (T.reverts n).getD (T.tips n + 1)

def revertedHeights (n : Nat) : List Nat :=
  match T.reverts n with
  | none => []
  | some a => (⟨a, T.tips n⟩ : BlockHeightRange).heights

/-- A height of the chain at event `c` that no later event reverts. -/
def Stable (c height : Nat) : Prop :=
  T.first ≤ height ∧ height ≤ T.tips c ∧
    ∀ n, c ≤ n → n < T.fence → ∀ a, T.reverts n = some a → height < a

/-- No two visible blocks have a row under the same key. -/
def Unique (consumer : BlockKeyedConsumer K V) : Prop :=
  ∀ height height' block block', height ≠ height' → T.blocks height = some block →
    T.blocks height' = some block' → ∀ k ∈ consumer.keys block, k ∉ consumer.keys block'

/-- One more event, which leaves the blocks below its first committed height. -/
structure Extends (T T' : Timeline) : Prop where
  first : T'.first = T.first
  fence : T'.fence = T.fence + 1
  tips : ∀ n, n ≤ T.fence → T'.tips n = T.tips n
  reverts : ∀ n, n < T.fence → T'.reverts n = T.reverts n
  blocks : ∀ height, height < T'.commitStart T.fence → T'.blocks height = T.blocks height

variable {T} {T' : Timeline} {c n height : Nat}

theorem Stable.of_le (h : T.Stable c height) {lower : Nat} (hfirst : T.first ≤ lower)
    (hle : lower ≤ height) : T.Stable c lower :=
  ⟨hfirst, Nat.le_trans hle h.2.1, fun n hc hn a ha => Nat.lt_of_le_of_lt hle (h.2.2 n hc hn a ha)⟩

theorem commitStart_le (hn : n < T.fence) : T.commitStart n ≤ T.tips n + 1 := by
  rw [commitStart]
  cases hrevert : T.reverts n with
  | none => exact Nat.le_refl _
  | some a => exact Nat.le_succ_of_le (T.reverts_le n a hn hrevert).2

theorem first_le_tips (hn : n ≤ T.fence) : T.first ≤ T.tips n + 1 := by
  induction n with
  | zero => exact Nat.le_of_eq T.tips_zero.symm
  | succ n ih =>
    have hcommits := T.commits n hn
    have hfirst := ih (Nat.le_of_lt hn)
    cases hrevert : T.reverts n with
    | none =>
      rw [hrevert, Option.getD_none] at hcommits
      omega
    | some a =>
      rw [hrevert, Option.getD_some] at hcommits
      have := (T.reverts_le n a hn hrevert).1
      omega

theorem first_le_commitStart (hn : n < T.fence) : T.first ≤ T.commitStart n := by
  rw [commitStart]
  cases hrevert : T.reverts n with
  | none => exact first_le_tips (Nat.le_of_lt hn)
  | some a => exact (T.reverts_le n a hn hrevert).1

theorem Stable.before (h : T.Stable (n + 1) height) (hn : n < T.fence)
    (hlt : height < T.commitStart n) : T.Stable n height := by
  refine ⟨h.1, ?_, fun m hnm hm a ha => ?_⟩
  · exact Nat.le_of_lt_succ (Nat.lt_of_lt_of_le hlt (commitStart_le hn))
  · rcases Nat.lt_or_ge n m with hlater | hge
    · exact h.2.2 m hlater hm a ha
    · obtain rfl : m = n := Nat.le_antisymm hge hnm
      rw [commitStart, ha, Option.getD_some] at hlt
      exact hlt

theorem Stable.lt_commitStart (h : T.Stable n height) (hn : n < T.fence) :
    height < T.commitStart n := by
  rw [commitStart]
  cases hrevert : T.reverts n with
  | none => exact Nat.lt_succ_of_le h.2.1
  | some a => exact h.2.2 n (Nat.le_refl _) hn a hrevert

theorem Extends.stable (h : T.Extends T') (hc : c ≤ T.fence) (hstable : T'.Stable c height) :
    T.Stable c height := by
  obtain ⟨hfirst, htips, hreverts⟩ := hstable
  rw [h.first] at hfirst
  rw [h.tips c hc] at htips
  refine ⟨hfirst, htips, fun n hcn hn a ha => hreverts n hcn ?_ a ?_⟩
  · rw [h.fence]
    exact Nat.lt_succ_of_lt hn
  · rw [h.reverts n hn]
    exact ha

theorem Extends.blocks_stable (h : T.Extends T') (hc : c ≤ T.fence)
    (hstable : T'.Stable c height) (hle : height ≤ T.tips T.fence) :
    T'.blocks height = T.blocks height := by
  refine h.blocks height ?_
  rw [commitStart]
  cases hrevert : T'.reverts T.fence with
  | none =>
    rw [Option.getD_none, h.tips _ (Nat.le_refl _)]
    exact Nat.lt_succ_of_le hle
  | some a =>
    refine hstable.2.2 T.fence hc ?_ a hrevert
    rw [h.fence]
    exact Nat.lt_succ_self _

end Timeline

/-! ## The views at a cursor -/

section Views

variable {K V : Type} [DecidableEq K]

/-- The views hold the visible block at a height. -/
def Exact (T : Timeline) (consumer : BlockKeyedConsumer K V) (store : MaterializedViewStore K V)
    (height : Nat) : Prop :=
  ∃ block, T.blocks height = some block ∧ store.index[height]? = some (consumer.keys block) ∧
    ∀ k ∈ consumer.keys block, store.rows k = consumer.row block k

omit [DecidableEq K] in
/-- Every row is under a key that is indexed at some height. -/
def Owned (store : MaterializedViewStore K V) : Prop :=
  ∀ k v, store.rows k = some v →
    ∃ (height : Nat) (keys : List K), store.index[height]? = some keys ∧ k ∈ keys

/-- The views at cursor `c`. -/
structure Consistent (T : Timeline) (consumer : BlockKeyedConsumer K V) (c : Nat)
    (store : MaterializedViewStore K V) : Prop where
  stable : ∀ height, T.Stable c height → Exact T consumer store height
  apart : ∀ height keys, store.index[height]? = some keys → ∀ other block, T.Stable c other →
    other ≠ height → T.blocks other = some block → ∀ k ∈ keys, k ∉ consumer.keys block
  ahead : ∀ height keys, store.index[height]? = some keys → T.tips c < height →
    c < T.fence ∧ height ≤ T.tips (c + 1) ∧
      ∃ block, T.blocks height = some block ∧ keys = consumer.keys block
  above : ∀ height keys, store.index[height]? = some keys → T.first ≤ height
  owned : Owned store

/-- The views within the event after `n`: what it reverts is gone, and the heights below `next` are
the visible blocks. -/
structure Dispatching (T : Timeline) (consumer : BlockKeyedConsumer K V) (n next : Nat)
    (store : MaterializedViewStore K V) : Prop extends Consistent T consumer n store where
  done : ∀ height, T.commitStart n ≤ height → height < next → Exact T consumer store height
  cleared : ∀ height keys, store.index[height]? = some keys → next ≤ height → T.tips n < height

/-- A first build below `next`. -/
structure Building (T : Timeline) (consumer : BlockKeyedConsumer K V) (next : Nat)
    (store : MaterializedViewStore K V) : Prop where
  first_le : T.first ≤ next
  exact : ∀ height, T.first ≤ height → height < next → Exact T consumer store height
  within : ∀ height keys, store.index[height]? = some keys → T.first ≤ height ∧ height < next
  owned : Owned store

variable {T T' : Timeline} {consumer : BlockKeyedConsumer K V}
    {store store' : MaterializedViewStore K V}
  {block : CanonicalBlockFacts} {c n next height : Nat}

/-! ### Rows and index only -/

theorem Consistent.congr (h : Consistent T consumer c store) (hrows : store'.rows = store.rows)
    (hindex : store'.index = store.index) : Consistent T consumer c store' := by
  cases store
  cases store'
  cases hrows
  cases hindex
  exact ⟨h.stable, h.apart, h.ahead, h.above, h.owned⟩

theorem Dispatching.congr (h : Dispatching T consumer n next store)
    (hrows : store'.rows = store.rows) (hindex : store'.index = store.index) :
    Dispatching T consumer n next store' := by
  refine ⟨h.toConsistent.congr hrows hindex, ?_, ?_⟩
  · cases store
    cases store'
    cases hrows
    cases hindex
    exact h.done
  · rw [hindex]
    exact h.cleared

theorem Building.congr (h : Building T consumer next store) (hrows : store'.rows = store.rows)
    (hindex : store'.index = store.index) : Building T consumer next store' := by
  cases store
  cases store'
  cases hrows
  cases hindex
  exact ⟨h.first_le, h.exact, h.within, h.owned⟩

/-! ### One block -/

theorem Exact.applyBlock (h : Exact T consumer store height) (hunique : T.Unique consumer)
    (hblock : T.blocks next = some block) (hne : height ≠ next) :
    Exact T consumer (store.writeBatch (MaterializedViewStore.applyBlock consumer block)) height := by
  obtain ⟨b, hb, hindex, hrows⟩ := h
  refine ⟨b, hb, ?_, fun k hk => ?_⟩
  · rw [index_applyBlock, T.height_blocks next block hblock, if_neg (Ne.symm hne)]
    exact hindex
  · rw [rows_applyBlock_of_not_mem _ (hunique height next b block hne hb hblock k hk)]
    exact hrows k hk

theorem exact_applyBlock (hblock : T.blocks next = some block) :
    Exact T consumer (store.writeBatch (MaterializedViewStore.applyBlock consumer block)) next := by
  refine ⟨block, hblock, ?_, fun k hk => rows_applyBlock_of_mem store hk⟩
  rw [index_applyBlock, T.height_blocks next block hblock, if_pos rfl]

theorem Owned.applyBlock (h : Owned store)
    (hsame : ∀ keys, store.index[block.height]? = some keys → keys = consumer.keys block) :
    Owned (store.writeBatch (MaterializedViewStore.applyBlock consumer block)) := by
  intro k v hv
  by_cases hk : k ∈ consumer.keys block
  · refine ⟨block.height, consumer.keys block, ?_, hk⟩
    rw [index_applyBlock, if_pos rfl]
  · rw [rows_applyBlock_of_not_mem store hk] at hv
    obtain ⟨height, keys, hindex, hmem⟩ := h k v hv
    refine ⟨height, keys, ?_, hmem⟩
    rw [index_applyBlock, if_neg]
    · exact hindex
    · rintro rfl
      rw [hsame keys hindex] at hmem
      exact hk hmem

variable {keys : List K}

theorem index_cases (hblock : T.blocks next = some block)
    (h : (store.writeBatch (MaterializedViewStore.applyBlock consumer block)).index[height]? =
      some keys) :
    height = next ∧ keys = consumer.keys block ∨ height ≠ next ∧
      store.index[height]? = some keys := by
  rw [index_applyBlock, T.height_blocks next block hblock] at h
  split at h
  · next heq =>
    cases h
    exact .inl ⟨heq.symm, rfl⟩
  · next hne => exact .inr ⟨Ne.symm hne, h⟩

/-! ### An event -/

theorem Consistent.revert (h : Consistent T consumer n store) (hn : n < T.fence)
    (hrevert : Reverted (T.revertedHeights n) store store') :
    Dispatching T consumer n (T.commitStart n) store' := by
  -- reverted heights are not stable
  have hreverted : ∀ height ∈ T.revertedHeights n, T.commitStart n ≤ height := by
    intro height hheight
    rw [Timeline.revertedHeights] at hheight
    rw [Timeline.commitStart]
    cases ha : T.reverts n with
    | none =>
      rw [ha] at hheight
      cases hheight
    | some a =>
      rw [ha, BlockHeightRange.mem_heights] at hheight
      exact hheight.1
  have hindex : ∀ height keys, store'.index[height]? = some keys →
      height ∉ T.revertedHeights n ∧ store.index[height]? = some keys := by
    intro height keys hkeys
    rw [hrevert.index] at hkeys
    split at hkeys
    · cases hkeys
    · next hout => exact ⟨hout, hkeys⟩
  refine ⟨⟨fun height hstable => ?_, fun height keys hkeys => h.apart height keys (hindex _ _ hkeys).2,
    fun height keys hkeys => h.ahead height keys (hindex _ _ hkeys).2,
    fun height keys hkeys => h.above height keys (hindex _ _ hkeys).2, fun k v hv => ?_⟩,
    fun height hge hlt => absurd hlt (Nat.not_lt.mpr hge), fun height keys hkeys hge => ?_⟩
  · obtain ⟨b, hb, hkeys, hrows⟩ := h.stable height hstable
    have hlt := hstable.lt_commitStart hn
    refine ⟨b, hb, ?_, fun k hk => ?_⟩
    · rw [hrevert.index, if_neg fun hmem => absurd (hreverted height hmem) (Nat.not_le.mpr hlt)]
      exact hkeys
    · rw [hrevert.kept k]
      · exact hrows k hk
      · intro other hother keys hindexed hmem
        have hne : height ≠ other := by
          have := hreverted other hother
          omega
        exact h.apart other keys hindexed height b hstable hne hb k hmem hk
  · obtain ⟨height, keys, hkeys, hmem⟩ := h.owned k v (hrevert.fewer k v hv)
    refine ⟨height, keys, ?_, hmem⟩
    rw [hrevert.index, if_neg]
    · exact hkeys
    · intro hheight
      rw [hrevert.deleted height hheight keys hkeys k hmem] at hv
      cases hv
  · have hout := (hindex height keys hkeys).1
    rw [Timeline.revertedHeights] at hout
    rw [Timeline.commitStart] at hge
    cases ha : T.reverts n with
    | none =>
      rw [ha, Option.getD_none] at hge
      exact hge
    | some a =>
      rw [ha, BlockHeightRange.mem_heights] at hout
      rw [ha, Option.getD_some] at hge
      exact Nat.lt_of_not_le fun hle => hout ⟨hge, hle⟩

theorem Dispatching.apply (h : Dispatching T consumer n next store) (hunique : T.Unique consumer)
    (hn : n < T.fence) (hge : T.commitStart n ≤ next) (hle : next ≤ T.tips (n + 1))
    (hblock : T.blocks next = some block) :
    Dispatching T consumer n (next + 1)
      (store.writeBatch (MaterializedViewStore.applyBlock consumer block)) := by
  have hstable : ∀ height, T.Stable n height → height ≠ next := by
    intro height hstable
    have := hstable.lt_commitStart hn
    omega
  refine ⟨⟨fun height hheight => (h.stable height hheight).applyBlock hunique hblock
    (hstable height hheight), fun height keys hkeys other b hother hne hb k hk => ?_,
    fun height keys hkeys hlt => ?_, fun height keys hkeys => ?_, ?_⟩,
    fun height hstart hlt => ?_, fun height keys hkeys hnext => ?_⟩
  · rcases index_cases hblock hkeys with ⟨rfl, rfl⟩ | ⟨_, hindex⟩
    · exact hunique height other block b (Ne.symm hne) hblock hb k hk
    · exact h.apart height keys hindex other b hother hne hb k hk
  · rcases index_cases hblock hkeys with ⟨rfl, rfl⟩ | ⟨_, hindex⟩
    · exact ⟨hn, hle, block, hblock, rfl⟩
    · exact h.ahead height keys hindex hlt
  · rcases index_cases hblock hkeys with ⟨rfl, rfl⟩ | ⟨_, hindex⟩
    · exact Nat.le_trans (Timeline.first_le_commitStart hn) hge
    · exact h.above height keys hindex
  · refine h.owned.applyBlock fun keys hkeys => ?_
    -- what stands at the height was written by an earlier dispatch of this event
    rw [T.height_blocks next block hblock] at hkeys
    obtain ⟨_, _, b, hb, rfl⟩ := h.ahead next keys hkeys (h.cleared next keys hkeys (Nat.le_refl _))
    rw [hblock] at hb
    cases hb
    rfl
  · by_cases heq : height = next
    · rw [heq]
      exact exact_applyBlock hblock
    · exact (h.done height hstart (by omega)).applyBlock hunique hblock heq
  · rcases index_cases hblock hkeys with ⟨rfl, rfl⟩ | ⟨_, hindex⟩
    · omega
    · exact h.cleared height keys hindex (by omega)

theorem Dispatching.finish (h : Dispatching T consumer n (T.tips (n + 1) + 1) store)
    (hunique : T.Unique consumer) (hn : n < T.fence) : Consistent T consumer (n + 1) store := by
  have htop : ∀ height keys, store.index[height]? = some keys → height ≤ T.tips (n + 1) := by
    intro height keys hkeys
    by_contra hgt
    have hahead := h.cleared height keys hkeys (Nat.lt_of_not_le hgt)
    exact hgt (h.ahead height keys hkeys hahead).2.1
  have hstable : ∀ height, T.Stable (n + 1) height → Exact T consumer store height := by
    intro height hheight
    rcases Nat.lt_or_ge height (T.commitStart n) with hlt | hge
    · exact h.stable height (hheight.before hn hlt)
    · exact h.done height hge (Nat.lt_succ_of_le hheight.2.1)
  -- a height with a visible block is apart by uniqueness
  have hexact : ∀ height keys, store.index[height]? = some keys → Exact T consumer store height →
      ∀ other b, other ≠ height → T.blocks other = some b → ∀ k ∈ keys, k ∉ consumer.keys b := by
    rintro height keys hkeys ⟨b', hb', hindex, _⟩ other b hne hb k hk
    rw [hkeys] at hindex
    cases hindex
    exact hunique height other b' b (Ne.symm hne) hb' hb k hk
  refine ⟨hstable, fun height keys hkeys other b hother hne hb => ?_, fun height keys hkeys hlt => ?_,
    h.above, h.owned⟩
  · rcases Nat.lt_or_ge height (T.commitStart n) with hlt | hge
    · rcases Nat.lt_or_ge other (T.commitStart n) with hother' | hother'
      · exact h.apart height keys hkeys other b (hother.before hn hother') hne hb
      · -- `height` lies below a stable height
        have hheight := hother.of_le (h.above height keys hkeys) (by omega)
        exact hexact height keys hkeys (hstable height hheight) other b hne hb
    · have hdone := h.done height hge (Nat.lt_succ_of_le (htop height keys hkeys))
      exact hexact height keys hkeys hdone other b hne hb
  · exact absurd (htop height keys hkeys) (Nat.not_le.mpr hlt)

/-! ### A first build -/

omit [DecidableEq K] in
theorem owned_empty : Owned (MaterializedViewStore.empty : MaterializedViewStore K V) := by
  intro k v hv
  cases hv

theorem building_empty (T : Timeline) (consumer : BlockKeyedConsumer K V) :
    Building T consumer T.first MaterializedViewStore.empty where
  first_le := Nat.le_refl _
  exact height hge hlt := absurd hlt (Nat.not_lt.mpr hge)
  within height keys hkeys := by
    rw [MaterializedViewStore.empty, Std.ExtTreeMap.getElem?_empty] at hkeys
    cases hkeys
  owned := owned_empty

theorem Building.apply (h : Building T consumer next store) (hunique : T.Unique consumer)
    (hge : T.first ≤ height) (hle : height ≤ next) (hblock : T.blocks height = some block) :
    Building T consumer (max next (height + 1))
      (store.writeBatch (MaterializedViewStore.applyBlock consumer block)) := by
  refine ⟨Nat.le_trans h.first_le (Nat.le_max_left _ _), fun other hother hlt => ?_,
    fun other keys hkeys => ?_, ?_⟩
  · by_cases heq : other = height
    · rw [heq]
      exact exact_applyBlock hblock
    · exact (h.exact other hother (by omega)).applyBlock hunique hblock heq
  · rcases index_cases hblock hkeys with ⟨rfl, rfl⟩ | ⟨_, hindex⟩
    · exact ⟨hge, by omega⟩
    · have := h.within other keys hindex
      omega
  · refine h.owned.applyBlock fun keys hkeys => ?_
    rw [T.height_blocks height block hblock] at hkeys
    obtain ⟨hfirst, hlt⟩ := h.within height keys hkeys
    obtain ⟨b, hb, hindex, _⟩ := h.exact height hfirst hlt
    rw [hblock] at hb
    cases hb
    rw [hkeys] at hindex
    cases hindex
    rfl

theorem Building.le_tip (h : Building T consumer next store) : next ≤ T.tips T.fence + 1 := by
  have hfirst := Timeline.first_le_tips (Nat.le_refl T.fence)
  by_contra hgt
  obtain ⟨b, hb, _⟩ := h.exact (next - 1) (by omega) (by omega)
  have := ((T.isSome_blocks (next - 1)).mp (Option.isSome_iff_exists.mpr ⟨b, hb⟩)).2
  omega

theorem Building.finish (h : Building T consumer (T.tips T.fence + 1) store)
    (hunique : T.Unique consumer) : Consistent T consumer T.fence store := by
  refine ⟨fun height hstable => h.exact height hstable.1 (Nat.lt_succ_of_le hstable.2.1),
    fun height keys hkeys other b _ hne hb k hk => ?_, fun height keys hkeys hlt => ?_,
    fun height keys hkeys => (h.within height keys hkeys).1, h.owned⟩
  · obtain ⟨hfirst, hlt⟩ := h.within height keys hkeys
    obtain ⟨b', hb', hindex, _⟩ := h.exact height hfirst hlt
    rw [hkeys] at hindex
    cases hindex
    exact hunique height other b' b (Ne.symm hne) hb' hb k hk
  · have := (h.within height keys hkeys).2
    omega

/-! ### More events -/

/-- The event keeps what an unfinished dispatch has written above the cursor's tip. -/
def KeepsWritten (T T' : Timeline) (c : Nat) (store : MaterializedViewStore K V) : Prop :=
  ∀ height ∈ store.index, T.tips c < height → T'.blocks height = T.blocks height

theorem Exact.of_blocks (h : Exact T consumer store height)
    (hblocks : T'.blocks height = T.blocks height) : Exact T' consumer store height := by
  obtain ⟨b, hb, hrest⟩ := h
  exact ⟨b, hblocks.trans hb, hrest⟩

omit [DecidableEq K] in
theorem mem_index (h : store.index[height]? = some keys) : height ∈ store.index := by
  rw [Std.ExtTreeMap.mem_iff_isSome_getElem?, h]
  rfl

theorem Consistent.extend (h : Consistent T consumer c store) (hextends : T.Extends T')
    (hc : c ≤ T.fence) (hkeeps : KeepsWritten T T' c store) : Consistent T' consumer c store := by
  have hblocks : ∀ height, T'.Stable c height → T'.blocks height = T.blocks height := by
    intro height hstable
    obtain ⟨b, hb, _⟩ := h.stable height (hextends.stable hc hstable)
    have hsome := (T.isSome_blocks height).mp (Option.isSome_iff_exists.mpr ⟨b, hb⟩)
    exact hextends.blocks_stable hc hstable hsome.2
  refine ⟨fun height hstable => ?_, fun height keys hkeys other b hother hne hb => ?_,
    fun height keys hkeys hlt => ?_, fun height keys hkeys => ?_, h.owned⟩
  · exact (h.stable height (hextends.stable hc hstable)).of_blocks (hblocks height hstable)
  · rw [hblocks other hother] at hb
    exact h.apart height keys hkeys other b (hextends.stable hc hother) hne hb
  · rw [hextends.tips c hc] at hlt
    obtain ⟨hfence, hle, b, hb, heq⟩ := h.ahead height keys hkeys hlt
    refine ⟨?_, ?_, b, ?_, heq⟩
    · rw [hextends.fence]
      omega
    · rw [hextends.tips (c + 1) hfence]
      exact hle
    · rw [hkeeps height (mem_index hkeys) hlt]
      exact hb
  · rw [hextends.first]
    exact h.above height keys hkeys

theorem Building.extend (h : Building T consumer next store) (hextends : T.Extends T')
    (hkeeps : KeepsWritten T T' 0 store) : Building T' consumer next store := by
  refine ⟨?_, fun height hge hlt => ?_, fun height keys hkeys => ?_, h.owned⟩
  · rw [hextends.first]
    exact h.first_le
  · rw [hextends.first] at hge
    have hexact := h.exact height hge hlt
    have hindexed : height ∈ store.index := by
      obtain ⟨_, _, hindex, _⟩ := hexact
      exact mem_index hindex
    refine hexact.of_blocks (hkeeps height hindexed ?_)
    have := T.tips_zero
    omega
  · rw [hextends.first]
    exact h.within height keys hkeys

/-! ### At the fence -/

theorem Consistent.stable_of_index (h : Consistent T consumer T.fence store)
    (hkeys : store.index[height]? = some keys) : T.Stable T.fence height := by
  refine ⟨h.above height keys hkeys, ?_, fun n hge hlt => absurd hlt (Nat.not_lt.mpr hge)⟩
  by_contra hgt
  exact absurd (h.ahead height keys hkeys (Nat.lt_of_not_le hgt)).1 (Nat.lt_irrefl _)

theorem Consistent.building (h : Consistent T consumer T.fence store) :
    Building T consumer (T.tips T.fence + 1) store where
  first_le := Timeline.first_le_tips (Nat.le_refl _)
  exact height hge hlt :=
    h.stable height ⟨hge, Nat.le_of_lt_succ hlt, fun _ hn hlt => absurd hlt (Nat.not_lt.mpr hn)⟩
  within _ _ hkeys :=
    have hstable := h.stable_of_index hkeys
    ⟨hstable.1, Nat.lt_succ_of_le hstable.2.1⟩
  owned := h.owned

section

variable (h : Consistent T consumer T.fence store) (h' : Consistent T consumer T.fence store')
include h h'

theorem Consistent.row_of_some {k : K} {v : V} (hv : store.rows k = some v) :
    store'.rows k = some v := by
  obtain ⟨height, keys, hkeys, hmem⟩ := h.owned k v hv
  have hstable := h.stable_of_index hkeys
  obtain ⟨b, hb, hindex, hrows⟩ := h.stable height hstable
  obtain ⟨b', hb', _, hrows'⟩ := h'.stable height hstable
  rw [hb] at hb'
  cases hb'
  rw [hkeys] at hindex
  cases hindex
  rw [hrows' k hmem, ← hrows k hmem]
  exact hv

theorem Consistent.index_of_some (hkeys : store.index[height]? = some keys) :
    store'.index[height]? = some keys := by
  have hstable := h.stable_of_index hkeys
  obtain ⟨b, hb, hindex, _⟩ := h.stable height hstable
  obtain ⟨b', hb', hindex', _⟩ := h'.stable height hstable
  rw [hb] at hb'
  cases hb'
  rw [hindex', ← hindex]
  exact hkeys

/-- Views at the fence are determined by the visible chain. -/
theorem Consistent.unique : store.rows = store'.rows ∧ store.index = store'.index := by
  constructor
  · funext k
    refine Option.ext fun v => ?_
    exact ⟨h.row_of_some h', h'.row_of_some h⟩
  · refine Std.ExtTreeMap.ext_getElem? fun height => Option.ext fun keys => ?_
    exact ⟨h.index_of_some h', h'.index_of_some h⟩

end

def appliedChain (consumer : BlockKeyedConsumer K V) (chain : List CanonicalBlockFacts) :
    MaterializedViewStore K V :=
  chain.foldl (fun store block =>
    store.writeBatch (MaterializedViewStore.applyBlock consumer block)) .empty

theorem building_appliedChain (hunique : T.Unique consumer) {chain : List CanonicalBlockFacts}
    (hchain : ∀ i < chain.length, chain[i]? = T.blocks (T.first + i)) {count : Nat}
    (hcount : count ≤ chain.length) :
    Building T consumer (T.first + count) (appliedChain consumer (chain.take count)) := by
  induction count with
  | zero => exact building_empty T consumer
  | succ count ih =>
    have hblock := hchain count hcount
    rw [List.getElem?_eq_getElem hcount] at hblock
    rw [List.take_succ_eq_append_getElem hcount, appliedChain, List.foldl_append]
    have happly := (ih (Nat.le_of_lt hcount)).apply hunique (Nat.le_add_right _ _) (Nat.le_refl _)
      hblock.symm
    rw [Nat.max_eq_right (Nat.le_succ _)] at happly
    exact happly

theorem Consistent.converged (h : Consistent T consumer T.fence store)
    (hunique : T.Unique consumer) {chain : List CanonicalBlockFacts}
    (hchain : ∀ i < chain.length, chain[i]? = T.blocks (T.first + i))
    (hlength : T.first + chain.length = T.tips T.fence + 1) :
    store.rows = (appliedChain consumer chain).rows ∧
      store.index = (appliedChain consumer chain).index := by
  have hbuilding := building_appliedChain hunique hchain (Nat.le_refl _)
  rw [List.take_length, hlength] at hbuilding
  exact h.unique (hbuilding.finish hunique)

end Views

end Zinder.Views
