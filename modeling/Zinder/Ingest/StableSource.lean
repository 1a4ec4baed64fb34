import Zinder.Canonical.ReplacementProgress
import Zinder.Ingest.PreparedBlock

/-!
# Zinder.Ingest.StableSource

A source that does not move. A `SourceChain` is one branch a node serves; `node` answers every
request from it. The node is code outside this repository, so what it serves is assumed
(`SourceChain.Valid`): linked blocks that the construction of `Zinder.Ingest.BlockConstruction`
accepts, the tree state after each, and the subtree roots each completes.

Against such a node every request of an iteration succeeds: `discoverFork_ok` finds the fork point,
and `suffix_ok` prepares the blocks of the branch above it.
-/

namespace Zinder.Ingest

open Canonical List

variable {D : Type} {E : Env D}

/-! ## The source -/

/-- One branch of the network, by height, with the canonical block built from each source block. -/
structure SourceChain (E : Env D) where
  tip : Nat
  block : Nat → SourceBlock
  checkpoint : Nat → CommitmentTreeCheckpoint
  roots : SubtreeRootRange → SourceSubtreeRoots
  built : Nat → CanonicalBuildBlock E

namespace SourceChain

def blockId (C : SourceChain E) (height : Nat) : BlockId := ⟨height, (C.block height).hash⟩

/-- The node that serves the branch: every request is answered, and always the same way. -/
def node (C : SourceChain E) : NodeSource where
  tipId _ := .answer (C.blockId C.tip)
  fetchBlockAt height _ := .answer (C.block height)
  fetchChainCheckpoint height _ := .answer (C.checkpoint height)
  fetchSubtreeRootRange range _ := .answer (C.roots range)

/-- The roots a node serves between two tree states. -/
def rootsBetween (C : SourceChain E) (previous next : ChainTipMetadata) :
    List CanonicalBuildSubtreeRoot :=
  match liveSubtreeRootRanges previous next with
  | .ok ranges => ranges.flatMap fun range => (C.roots range).buildRoots
  | .error _ => []

def placed (C : SourceChain E) (height : Nat) : CanonicalReplacementBlock E :=
  ⟨C.built height, C.rootsBetween (C.checkpoint (height - 1)).tipMetadata
    (C.built height).tipMetadata⟩

/-- The branch from `base` on: linked, accepted by the block construction, with true tree states and
the roots each block completes. -/
structure Valid (C : SourceChain E) (L : BlockLibrary) (activations : NetworkUpgradeActivations)
    (retention : RawBlobRetention) (base : Nat) : Prop where
  height : ∀ h, base ≤ h → h ≤ C.tip → (C.block h).height.val = h
  linked : ∀ h, base ≤ h → h < C.tip → (C.block (h + 1)).parentHash = (C.block h).hash
  checkpoint_id : ∀ h, base ≤ h → h ≤ C.tip → (C.checkpoint h).blockId = C.blockId h
  prepares : ∀ h, base ≤ h → h < C.tip →
    prepareLiveBlock L (C.block (h + 1)) (C.checkpoint h) (C.checkpoint (h + 1)) activations
      retention = .ok (C.built (h + 1), (C.built (h + 1)).tipMetadata)
  roots_position : ∀ range, (C.roots range).buildRoots.map CanonicalBuildSubtreeRoot.position =
    range.indexes
  roots_height : ∀ h, base ≤ h → h < C.tip → ∀ r ∈ (C.placed (h + 1)).subtreeRoots,
    r.completingBlockHeight = h + 1

end SourceChain

/-! ## Requests that succeed -/

theorem liveSubtreeRootRanges_eq_ok {previous next : ChainTipMetadata}
    {ranges : List SubtreeRootRange} :
    liveSubtreeRootRanges previous next = .ok ranges ↔
      requiredSubtreeRootRanges previous next = .ok ranges := by
  have hrange : ∀ p r, liveSubtreeRootRange previous next p = .ok r ↔
      requiredSubtreeRootRange previous next p = .ok r := by
    intro p r
    simp only [liveSubtreeRootRange, requiredSubtreeRootRange, bind_eq_ok, okOr_eq_ok,
      Except.ok.injEq]
  simp only [liveSubtreeRootRanges, requiredSubtreeRootRanges, bind_eq_ok, collect_eq_ok, hrange,
    Except.ok.injEq]

section Node

variable (C : SourceChain E) (config : CanonicalFollowConfig) (n : Nat)

theorem node_tipId : sourceRequest config C.node.tipId n = .ok (C.blockId C.tip, n + 1) :=
  sourceRequest_eq_ok.mpr ⟨rfl, rfl⟩

theorem node_block (height : Nat) :
    sourceRequest config (C.node.fetchBlockAt height) n = .ok (C.block height, n + 1) :=
  sourceRequest_eq_ok.mpr ⟨rfl, rfl⟩

theorem node_checkpoint (height : Nat) :
    sourceRequest config (C.node.fetchChainCheckpoint height) n =
      .ok (C.checkpoint height, n + 1) :=
  sourceRequest_eq_ok.mpr ⟨rfl, rfl⟩

theorem node_roots (range : SubtreeRootRange) :
    sourceRequest config (C.node.fetchSubtreeRootRange range) n = .ok (C.roots range, n + 1) :=
  sourceRequest_eq_ok.mpr ⟨rfl, rfl⟩

end Node

section Requests

variable {C : SourceChain E} {L : BlockLibrary} {activations : NetworkUpgradeActivations}
  {retention : RawBlobRetention} {base : Nat} {config : CanonicalFollowConfig}

theorem roots_loop (C : SourceChain E) (config : CanonicalFollowConfig)
    (ranges : List SubtreeRootRange) (done : List CanonicalBuildSubtreeRoot) (n : Nat) :
    Requests.loop (fun roots range => do
        let response ← sourceRequest config (C.node.fetchSubtreeRootRange range)
        pure (roots ++ response.buildRoots)) done ranges n =
      .ok (done ++ ranges.flatMap fun range => (C.roots range).buildRoots, n + ranges.length) := by
  induction ranges generalizing done n with
  | nil => simp [Requests.loop, Requests.pure_eq_ok]
  | cons range ranges ih =>
    rw [Requests.loop, Requests.bind_apply, Requests.bind_apply, node_roots, ok_bind]
    refine (ih _ _).trans ?_
    simp only [append_assoc, flatMap_cons, length_cons, Except.ok.injEq, Prod.mk.injEq, true_and]
    omega

theorem fetchRoots_ok (C : SourceChain E) (config : CanonicalFollowConfig)
    {previous next : ChainTipMetadata} (hmono : SubtreeMonotone previous next) (n : Nat) :
    ∃ m, fetchLiveSubtreeRoots C.node config previous next n =
      .ok (C.rootsBetween previous next, m) := by
  obtain ⟨ranges, hranges⟩ := requiredSubtreeRootRanges_of_monotone hmono
  have hlive := liveSubtreeRootRanges_eq_ok.mpr hranges
  refine ⟨n + ranges.length, ?_⟩
  rw [fetchLiveSubtreeRoots, Requests.bind_apply, Requests.of_apply, hlive, ok_bind, ok_bind, roots_loop]
  simp [SourceChain.rootsBetween, hlive]

def OfBranch (C : SourceChain E) (blocks : SourceBlocks) : Prop :=
  ∀ h b, blocks h = some b → b = C.block h

variable {blocks : SourceBlocks}

theorem OfBranch.update (h : OfBranch C blocks) {i : Nat} {o : Option SourceBlock}
    (ho : ∀ b ∈ o, b = C.block i) :
    OfBranch C (Function.update blocks i o) := by
  intro j b hb
  by_cases hj : j = i
  · subst hj
    rw [Function.update_self] at hb
    exact ho b hb
  · rw [Function.update_of_ne hj] at hb
    exact h j b hb

theorem takeSourceBlock_ok (config : CanonicalFollowConfig) (hblocks : OfBranch C blocks)
    (height n : Nat) :
    ∃ m, takeSourceBlock C.node config blocks height n = .ok (C.block height, m) := by
  cases hb : blocks height with
  | some b =>
    simp only [takeSourceBlock, hb]
    exact ⟨n, Requests.pure_eq_ok.mpr ⟨hblocks height b hb, rfl⟩⟩
  | none =>
    simp only [takeSourceBlock, hb]
    exact ⟨n + 1, node_block C config n height⟩

namespace SourceChain.Valid

variable (h : C.Valid L activations retention base)
include h

theorem follows [DecidableEq D] (hT : E.trees.Lawful) {height : Nat} (hbase : base ≤ height)
    (htip : height < C.tip) :
    Follows activations .wallet retention (C.checkpoint height) (C.placed (height + 1))
      (C.checkpoint (height + 1)) := by
  have hprepared := h.prepares height hbase htip
  obtain ⟨_, hmono⟩ := prepareLiveBlock_monotone hprepared
  refine prepareLiveBlock_follows hT hprepared ?_ ?_ fun r hr => ?_
  · rw [h.linked height hbase htip, h.checkpoint_id height hbase htip.le]
    rfl
  · obtain ⟨ranges, hranges⟩ := requiredSubtreeRootRanges_of_monotone hmono
    have hlive := liveSubtreeRootRanges_eq_ok.mpr hranges
    rw [← (requiredSubtreeRootRanges_eq_ok hranges).2]
    simp only [SourceChain.rootsBetween, Nat.add_sub_cancel, hlive, map_flatMap,
      h.roots_position]
  · rw [h.roots_height height hbase htip r hr, h.height (height + 1) (by omega) htip]

theorem suffixFollows [DecidableEq D] (hT : E.trees.Lawful) {height count : Nat}
    (hbase : base ≤ height) (htip : height + count ≤ C.tip) :
    SuffixFollows activations .wallet retention (C.checkpoint height)
      ((List.range' (height + 1) count).map C.placed) := by
  induction count generalizing height with
  | zero => trivial
  | succ count ih =>
    rw [range'_succ, map_cons]
    exact ⟨C.checkpoint (height + 1), h.follows hT hbase (by omega),
      ih (by omega) (by omega)⟩

theorem built_blockId [DecidableEq D] {height : Nat} (hbase : base ≤ height)
    (htip : height < C.tip) :
    (C.built (height + 1)).blockId = C.blockId (height + 1) := by
  obtain ⟨hhash, hheight⟩ := prepareLiveBlock_identity (h.prepares height hbase htip)
  refine BlockId.ext_of ?_ hhash
  rw [CanonicalBuildBlock.blockId_height, hheight, h.checkpoint_id height hbase htip.le]
  rfl

end SourceChain.Valid

/-! ## Preparing a replacement -/

/-- On a branch that parts from the stored headers above `f`, discovery finds `f`. -/
theorem discoverFork_ok {s : RocksDbCanonicalStore D} {localTip settled observed : BlockId}
    (h : C.Valid L activations retention settled.height)
    (hsettled : settled = C.blockId settled.height) {f : Nat} (hf : settled.height ≤ f) {top : Nat}
    (hftop : f ≤ top) (hstop : settled.height < top) (htip : top ≤ C.tip)
    (hheaders : ∀ height, settled.height < height → height ≤ top →
      ∃ header, blockHeaderAt s height = some header ∧
        ((C.block height).hash = header.blockHash ↔ height ≤ f))
    (hblocks : OfBranch C blocks) (n : Nat) :
    ∃ blocks' m, OfBranch C blocks' ∧
      discoverFork s C.node config localTip settled observed top blocks n =
        .ok ((some (C.blockId f), blocks'), m) := by
  induction top generalizing blocks n with
  | zero => omega
  | succ height ih =>
    obtain ⟨header, hheader, hagrees⟩ := hheaders (height + 1) hstop le_rfl
    have hblocks' : OfBranch C (Function.update blocks (height + 1) (some (C.block (height + 1)))) :=
      hblocks.update fun b hb => (Option.some.inj hb).symm
    have hlt : height + 1 < u32Bound := by
      rw [← h.height (height + 1) (by omega) htip]
      exact (C.block (height + 1)).height.isLt
    have hsaturating : saturatingAddU32 settled.height 1 = settled.height + 1 := by
      simp only [saturatingAddU32]
      omega
    rw [discoverFork, if_pos hstop]
    simp only [Requests.bind_apply, Requests.of_apply, node_block, hheader, okOr_some, ok_bind]
    by_cases heq : (C.block (height + 1)).hash = header.blockHash
    · obtain rfl : f = height + 1 := by
        have := hagrees.mp heq
        omega
      refine ⟨_, n + 1, hblocks', ?_⟩
      rw [if_pos heq]
      rfl
    · have hfh : f ≤ height := by
        by_contra hlt
        exact heq (hagrees.mpr (by omega))
      by_cases hend : height = settled.height
      · obtain rfl : f = height := by omega
        have hparent : (C.block (f + 1)).parentHash = settled.hash := by
          rw [h.linked f (by omega) (by omega), hsettled, ← hend]
          rfl
        refine ⟨_, n + 1, hblocks', ?_⟩
        rw [if_neg heq, if_pos ⟨by rw [hsaturating, hend], hparent⟩, Requests.pure_eq_ok]
        rw [hend, ← hsettled]
        exact ⟨rfl, rfl⟩
      · obtain ⟨blocks', m, hof, hrest⟩ := ih hfh (by omega) (by omega)
          (fun i hi hle => hheaders i hi (by omega)) hblocks' (n + 1)
        refine ⟨blocks', m, hof, ?_⟩
        rw [if_neg heq, if_neg (by rw [hsaturating]; omega)]
        exact hrest

theorem prepareSuffixBlock_ok [DecidableEq D] (config : CanonicalFollowConfig) (hT : E.trees.Lawful)
    (h : C.Valid L activations retention base) {height : Nat} (hbase : base ≤ height)
    (htip : height < C.tip) {state : SuffixState E}
    (hcheckpoint : state.predecessorCheckpoint = C.checkpoint height)
    (hsizes : state.previousTipMetadata = (C.checkpoint height).tipMetadata)
    (hblocks : OfBranch C state.sourceBlocks) (n : Nat) :
    ∃ state' m, prepareSuffixBlock L C.node config activations retention state (height + 1) n =
        .ok (state', m) ∧
      state'.predecessorCheckpoint = C.checkpoint (height + 1) ∧
      state'.previousTipMetadata = (C.checkpoint (height + 1)).tipMetadata ∧
      OfBranch C state'.sourceBlocks ∧ state'.blocks = state.blocks ++ [C.placed (height + 1)] := by
  have hprepared := h.prepares height hbase htip
  obtain ⟨_, hmono⟩ := prepareLiveBlock_monotone hprepared
  obtain ⟨m₁, htake⟩ := takeSourceBlock_ok config hblocks (height + 1) n
  obtain ⟨m₂, hroots⟩ := fetchRoots_ok C config hmono (m₁ + 1)
  have hfollows := h.follows hT hbase htip
  refine ⟨⟨Function.update state.sourceBlocks (height + 1) none, C.checkpoint (height + 1),
    (C.built (height + 1)).tipMetadata, state.blocks ++ [C.placed (height + 1)]⟩, m₂, ?_, rfl,
    hfollows.checkpoint_tipMetadata.symm, hblocks.update (by simp), rfl⟩
  have hlinked : (C.block (height + 1)).parentHash = (C.checkpoint height).blockId.hash := by
    rw [h.checkpoint_id height hbase htip.le]
    exact h.linked height hbase htip
  simp only [prepareSuffixBlock, Requests.bind_apply, Requests.of_apply, htake, ok_bind, hcheckpoint,
    rejectIf_of_not (not_not.mpr hlinked), node_checkpoint, hprepared, hsizes, hroots]
  rfl

theorem suffix_ok [DecidableEq D] (config : CanonicalFollowConfig) (hT : E.trees.Lawful)
    (h : C.Valid L activations retention base) {height count : Nat} (hbase : base ≤ height)
    (htip : height + count ≤ C.tip)
    {state : SuffixState E} (hcheckpoint : state.predecessorCheckpoint = C.checkpoint height)
    (hsizes : state.previousTipMetadata = (C.checkpoint height).tipMetadata)
    (hblocks : OfBranch C state.sourceBlocks) (n : Nat) :
    ∃ state' m, Requests.loop (prepareSuffixBlock L C.node config activations retention) state
        (List.range' (height + 1) count) n = .ok (state', m) ∧
      state'.blocks = state.blocks ++ (List.range' (height + 1) count).map C.placed := by
  induction count generalizing height state n with
  | zero => exact ⟨state, n, rfl, by simp⟩
  | succ count ih =>
    obtain ⟨next, m, hstep, hcheckpoint', hsizes', hblocks', hnext⟩ :=
      prepareSuffixBlock_ok config hT h hbase (by omega) hcheckpoint hsizes hblocks n
    obtain ⟨last, m', hloop, hlast⟩ := ih (hbase.trans (Nat.le_succ height)) (by omega)
      hcheckpoint' hsizes' hblocks' m
    refine ⟨last, m', ?_, ?_⟩
    · rw [range'_succ, Requests.loop_cons_eq_ok]
      exact ⟨next, m, hstep, hloop⟩
    · rw [hlast, hnext, range'_succ, map_cons, append_assoc]
      rfl

end Requests

end Zinder.Ingest
