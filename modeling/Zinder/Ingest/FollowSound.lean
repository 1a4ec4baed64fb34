import Zinder.Ingest.Follow
import Zinder.Canonical.Finality

/-!
# Zinder.Ingest.FollowSound

The follower is sound against any source. A `FollowStep` is one iteration against an arbitrary
`NodeSource` with the commit of what it proposed; `follow_sound` says what a committed append and a
committed replacement do to the visible chain.

The store admits any linked suffix above the settled tip, so linkage and the window come from
`Zinder.Canonical.LiveRun`. What the follower adds is that a replacement starts where the chains
part: `discoverFork` keeps the block it read one above the common parent, that block was found to
differ from the local one, and the suffix loop places that very block, not one read again.
-/

namespace Zinder.Ingest

open Canonical KeyValue Relation List

variable {D : Type} {E : Env D}

/-! ## What an iteration proposes -/

variable {L : BlockLibrary} {st st' : LiveState E}

variable {retention : RawBlobRetention}

theorem prepareLiveBlock_identity {source : SourceBlock}
    {predecessor checkpoint : CommitmentTreeCheckpoint} {activations : NetworkUpgradeActivations}
    {block : CanonicalBuildBlock E} {sizes : ChainTipMetadata}
    (h : prepareLiveBlock L source predecessor checkpoint activations retention =
      .ok (block, sizes)) :
    block.hash = source.hash ∧ block.height = predecessor.blockId.height + 1 := by
  simp only [prepareLiveBlock, bind_eq_ok, mapError_ok_iff] at h
  obtain ⟨prepared, hprepared, _, _, seeded, hseeded, accumulator, haccumulator, positioned,
    hpositioned, _, _, _, _, _, _, h⟩ := h
  cases h
  have hid := (prepareCanonicalBlock_identity hprepared).1
  have hseed := (CommitmentTreeAccumulator.fromValidatedFrontiers_eq_ok hseeded).1
  have happend := (CommitmentTreeAccumulator.appendBlockCommitments_height haccumulator).1
  rw [← positionCanonicalBlock_facts hpositioned] at hid
  refine ⟨congrArg BlockId.hash hid, ?_⟩
  rw [← hseed, ← happend]
  exact congrArg BlockId.height hid

section Discovery

variable {s : RocksDbCanonicalStore D} {source : NodeSource} {config : CanonicalFollowConfig}
  {localTip settledTip observedTip : BlockId}

theorem discoverFork_above {top : Nat} {blocks blocks' : SourceBlocks} {found : Option BlockId}
    {n m : Nat}
    (h : discoverFork s source config localTip settledTip observedTip top blocks n =
      .ok ((found, blocks'), m)) {height : Nat} (hlt : top < height) :
    blocks' height = blocks height := by
  induction top generalizing blocks n with
  | zero =>
    simp only [discoverFork, Requests.pure_eq_ok, Prod.mk.injEq] at h
    rw [h.1.2]
  | succ top ih =>
    have hne : height ≠ top + 1 := by omega
    simp only [discoverFork] at h
    split at h
    · simp only [Requests.bind_eq_ok] at h
      obtain ⟨block, _, _, header, _, _, h⟩ := h
      split at h
      · simp only [Requests.pure_eq_ok, Prod.mk.injEq] at h
        rw [← h.1.2, Function.update_of_ne hne]
      · split at h
        · simp only [Requests.pure_eq_ok, Prod.mk.injEq] at h
          rw [← h.1.2, Function.update_of_ne hne]
        · rw [ih h (by omega), Function.update_of_ne hne]
    · simp only [Requests.pure_eq_ok, Prod.mk.injEq] at h
      rw [h.1.2]

/-- The block kept one above `parent` differs from the local block there. -/
def Parts (s : RocksDbCanonicalStore D) (blocks : SourceBlocks) (height : Nat) : Prop :=
  ∃ block header, blocks height = some block ∧ blockHeaderAt s height = some header ∧
    block.hash ≠ header.blockHash

/-- A common parent is not above the start of the search, and unless it is the start itself, the
block kept above it parts from the local chain. -/
theorem discoverFork_parts {top : Nat} {blocks blocks' : SourceBlocks} {parent : BlockId}
    {n m : Nat}
    (h : discoverFork s source config localTip settledTip observedTip top blocks n =
      .ok ((some parent, blocks'), m)) :
    parent.height = top ∨ parent.height < top ∧ Parts s blocks' (parent.height + 1) := by
  induction top generalizing blocks n with
  | zero => simp [discoverFork, Requests.pure_eq_ok] at h
  | succ top ih =>
    simp only [discoverFork] at h
    split at h
    · next hsettled =>
      simp only [Requests.bind_eq_ok, Requests.of_eq_ok, okOr_eq_ok] at h
      obtain ⟨block, _, _, header, _, ⟨hheader, rfl⟩, h⟩ := h
      split at h
      · simp only [Requests.pure_eq_ok, Prod.mk.injEq, Option.some.injEq] at h
        exact .inl (by rw [← h.1.1])
      · next hdiffers =>
        have hkept : Function.update blocks (top + 1) (some block) (top + 1) = some block :=
          Function.update_self ..
        split at h
        · next hparent =>
          simp only [Requests.pure_eq_ok, Prod.mk.injEq, Option.some.injEq] at h
          obtain ⟨⟨rfl, rfl⟩, _⟩ := h
          have hheight : top + 1 = settledTip.height + 1 := by
            have := hparent.1
            simp only [saturatingAddU32] at this
            omega
          exact .inr ⟨by omega, block, header, by rw [← hheight]; exact hkept,
            by rw [← hheight]; exact hheader, hdiffers⟩
        · have habove := discoverFork_above h (Nat.lt_succ_self top)
          rcases ih h with hparent | ⟨hlt, hparts⟩
          · exact .inr ⟨by omega, block, header, by rw [hparent, habove]; exact hkept,
              by rw [hparent]; exact hheader, hdiffers⟩
          · exact .inr ⟨by omega, hparts⟩
    · simp [Requests.pure_eq_ok] at h

end Discovery

section Proposal

variable {L : BlockLibrary} {s : RocksDbCanonicalStore D} {source : NodeSource}
  {activations : NetworkUpgradeActivations} {config : CanonicalFollowConfig} {now : Nat}

theorem prepareSuffixBlock_blocks {state state' : SuffixState E}
    {height n m : Nat}
    (h : prepareSuffixBlock L source config activations retention state height n =
      .ok (state', m)) :
    ∃ r sourceBlock, state'.blocks = state.blocks ++ [r] ∧
      (∀ kept, state.sourceBlocks height = some kept → sourceBlock = kept) ∧
      r.block.hash = sourceBlock.hash ∧
      r.block.height = state.predecessorCheckpoint.blockId.height + 1 := by
  simp only [prepareSuffixBlock, Requests.bind_eq_ok, Requests.of_eq_ok] at h
  obtain ⟨sourceBlock, _, htake, _, _, _, checkpoint, _, _, ⟨block, _⟩, _, ⟨hblock, _⟩, roots, _, _,
    h⟩ := h
  obtain ⟨rfl, _⟩ := Requests.pure_eq_ok.mp h
  obtain ⟨hhash, hheight⟩ := prepareLiveBlock_identity hblock
  refine ⟨_, sourceBlock, rfl, fun kept hkept => ?_, hhash, hheight⟩
  simp only [takeSourceBlock, hkept] at htake
  exact (Requests.pure_eq_ok.mp htake).1.symm

variable {n m : Nat}

theorem suffix_head {state state' : SuffixState E}
    {range : BlockHeightRange} {kept : SourceBlock} (hrange : range.start ≤ range.stop)
    (hkept : state.sourceBlocks range.start = some kept) (hblocks : state.blocks = [])
    (h : Requests.loop (prepareSuffixBlock L source config activations retention)
      state range.heights n = .ok (state', m)) :
    ∃ first, state'.blocks.head? = some first ∧ first.block.hash = kept.hash ∧
      first.block.height = state.predecessorCheckpoint.blockId.height + 1 := by
  have hheights : range.heights =
      range.start :: List.range' (range.start + 1) (range.stop - range.start) := by
    rw [BlockHeightRange.heights, Nat.succ_sub hrange, range'_succ]
  rw [hheights] at h
  obtain ⟨next, k, hstep, hrest⟩ := Requests.loop_cons_eq_ok.mp h
  obtain ⟨r, sourceBlock, hnext, hsame, hhash, hheight⟩ := prepareSuffixBlock_blocks hstep
  have hgrows : ∃ rest, state'.blocks = next.blocks ++ rest := by
    refine Requests.loop_invariant (fun _ st => ∃ rest, st.blocks = next.blocks ++ rest) ?_
      ⟨[], by simp⟩ hrest
    rintro _ _ st st' _ _ ⟨rest, hst⟩ hround
    obtain ⟨r', _, hst', _⟩ := prepareSuffixBlock_blocks hround
    exact ⟨rest ++ [r'], by rw [hst', hst, append_assoc]⟩
  obtain ⟨rest, hstate'⟩ := hgrows
  refine ⟨r, ?_, by rw [hhash, hsame kept hkept], hheight⟩
  rw [hstate', hnext, hblocks]
  rfl

theorem prepareReplacementIteration_parts {anchor : CanonicalAppendAnchor D}
    {observedTip tip : BlockId} {prefetched : Option SourceBlock} {r : CanonicalLiveReplacement E}
    (h : prepareReplacementIteration L s source activations config now anchor observedTip
      prefetched n = .ok (.replacement r tip, m)) :
    ∃ first header, r.blocks.head? = some first ∧
      blockHeaderAt s first.block.height = some header ∧
      first.block.hash ≠ header.blockHash := by
  simp only [prepareReplacementIteration, Requests.bind_eq_ok, Requests.of_eq_ok, okOr_eq_ok,
    nextHeight_eq_some, rejectIf_eq_ok, mapError_ok_iff, not_or, not_lt] at h
  obtain ⟨⟨found, blocks⟩, _, hfork, parent, _, ⟨hfound, _⟩, first, _, ⟨⟨_, hfirst⟩, _⟩, _, _,
    ⟨⟨htip, hlocal⟩, _⟩, checkpoint, _, ⟨hcheckpoint, _⟩, suffix, _, hsuffix, h⟩ := h
  simp only [Requests.pure_eq_ok, FollowIteration.replacement.injEq] at h
  obtain ⟨⟨rfl, rfl⟩, rfl⟩ := h
  simp only at hfound
  subst hfound
  -- a parent at the start of the search leaves no block to place: both bounds of the suffix fail
  have hobserved : requestedTarget config observedTip ≤ observedTip.height := by
    simp only [requestedTarget]
    split <;> omega
  rcases discoverFork_parts hfork with hstart | ⟨_, kept, header, hkept, hheader, hdiffers⟩
  · omega
  · have hparent := replacementParentCheckpoint_blockId hcheckpoint
    rw [hfirst] at hkept hheader
    obtain ⟨head, hhead, hhash, hheight⟩ := suffix_head htip hkept rfl hsuffix
    simp only [hparent] at hheight
    exact ⟨head, header, hhead, by rw [hheight, hfirst]; exact hheader, by rw [hhash]; exact hdiffers⟩

theorem prepareFollowIteration_parts {r : CanonicalLiveReplacement E} {tip : BlockId}
    (h : prepareFollowIteration L s source activations config now n = .ok (.replacement r tip, m)) :
    ∃ first header, r.blocks.head? = some first ∧
      blockHeaderAt s first.block.height = some header ∧
      first.block.hash ≠ header.blockHash := by
  simp only [prepareFollowIteration, Requests.bind_eq_ok] at h
  obtain ⟨anchor, _, _, observedTip, _, _, h⟩ := h
  split at h
  · exact prepareReplacementIteration_parts h
  · split at h
    · simp [Requests.pure_eq_ok] at h
    · simp only [Requests.bind_eq_ok] at h
      obtain ⟨height, _, _, settledTip, _, _, sourceBlock, _, _, h⟩ := h
      split at h
      · exact prepareReplacementIteration_parts h
      · simp only [prepareAppendIteration, Requests.bind_eq_ok, Requests.pure_eq_ok] at h
        obtain ⟨checkpoint, _, _, block, _, _, roots, _, _, h, _⟩ := h
        cases h

end Proposal

/-! ## Steps -/

inductive FollowOutcome (E : Env D) where
  | nothing
  | appended (append : CanonicalLiveAppend E)
  | replaced (replacement : CanonicalLiveReplacement E)

/-- One iteration of `follow_canonical_tip` that the lane survives, against any source: at the tip
or after a source failure nothing is written, and a proposal is committed. -/
inductive FollowStep [DecidableEq D] (L : BlockLibrary) :
    LiveState E → FollowOutcome E → LiveState E → Prop where
  | atTip {st : LiveState E} {source : NodeSource} {activations : NetworkUpgradeActivations}
      {config : CanonicalFollowConfig} {now n m : Nat} {tip : BlockId}
      (hprepare : prepareFollowIteration (E := E) L st.store source activations config now n =
        .ok (.atTip tip, m)) :
      FollowStep L st .nothing st
  | sourceFailed {st : LiveState E} {source : NodeSource}
      {activations : NetworkUpgradeActivations} {config : CanonicalFollowConfig} {now n : Nat}
      {e : SourceError}
      (hprepare : prepareFollowIteration (E := E) L st.store source activations config now n =
        .error (.source e)) :
      FollowStep L st .nothing st
  | append {st : LiveState E} {source : NodeSource} {activations : NetworkUpgradeActivations}
      {config : CanonicalFollowConfig} {now n m : Nat} {a : CanonicalLiveAppend E} {tip : BlockId}
      {s' : RocksDbCanonicalStore D} {fence : CanonicalEventFence D}
      (hprepare : prepareFollowIteration L st.store source activations config now n =
        .ok (.append a tip, m))
      (hcommit : commitLiveAppend st.store a activations = .ok (s', fence)) :
      FollowStep L st (.appended a) ⟨s', st.earlierRoots, st.chain ++ [a.visible]⟩
  | replacement {st : LiveState E} {source : NodeSource}
      {activations : NetworkUpgradeActivations} {config : CanonicalFollowConfig} {now n m : Nat}
      {r : CanonicalLiveReplacement E} {first : CanonicalReplacementBlock E} {tip : BlockId}
      {s' : RocksDbCanonicalStore D} {fence : CanonicalEventFence D}
      (hprepare : prepareFollowIteration L st.store source activations config now n =
        .ok (.replacement r tip, m))
      (hfirst : r.blocks.head? = some first)
      (hcommit : commitLiveReplacement st.store r activations = .ok (s', fence)) :
      FollowStep L st (.replaced r)
        ⟨s', st.earlierRoots, below first.block.height st.chain ++ r.chain⟩

def FollowRun [DecidableEq D] (L : BlockLibrary) : LiveState E → LiveState E → Prop :=
  ReflTransGen fun st st' => ∃ outcome, FollowStep L st outcome st'

theorem FollowStep.liveRun [DecidableEq D] {outcome : FollowOutcome E}
    (h : FollowStep L st outcome st') :
    ReflTransGen LiveStep st st' := by
  cases h with
  | atTip => exact .refl
  | sourceFailed => exact .refl
  | append _ hcommit => exact .single (.append hcommit)
  | replacement _ hfirst hcommit => exact .single (.replacement hfirst hcommit)

theorem FollowRun.liveRun [DecidableEq D] (h : FollowRun L st st') :
    ReflTransGen LiveStep st st' := by
  induction h with
  | refl => exact .refl
  | tail _ hstep ih =>
    obtain ⟨_, hstep⟩ := hstep
    exact ih.trans hstep.liveRun

/-! ## The visible chain -/

def visibleHash (s : RocksDbCanonicalStore D) (height : Nat) : Option BlockHash :=
  if height ≤ s.readyEvidence.visibleTip.height then
    (blockHeaderAt s height).map BlockHeaderArtifact.blockHash
  else none

def settledTip (s : RocksDbCanonicalStore D) : BlockId := s.readyEvidence.sequenceCheckpoint.through

theorem visibleHash_getElem {st : LiveState E} {k : Nat} (inv : LiveInvariant st k)
    {i : Nat} {v : VisibleBlock E} (hv : st.chain[i]? = some v) :
    visibleHash st.store (st.start.height + 1 + i) = some v.block.hash := by
  have hlt : i < st.chain.length := (List.getElem?_eq_some_iff.mp hv).1
  have hheight : v.block.height = st.start.height + 1 + i :=
    inv.linked.height_of_getElem? hv
  rw [visibleHash, if_pos (by rw [inv.tip_height]; omega), blockHeaderAt, ← hheight,
    inv.holds.lookup_header (mem_of_getElem? hv)]
  rfl

theorem visibleHash_of_take_eq {k k' n : Nat} (inv : LiveInvariant st k)
    (inv' : LiveInvariant st' k') (hplan : st'.store.buildPlan = st.store.buildPlan)
    (hn : n ≤ st.chain.length) (htake : st'.chain.take n = st.chain.take n) {height : Nat}
    (hle : height ≤ st.start.height + n) :
    visibleHash st'.store height = visibleHash st.store height := by
  have hn' : n ≤ st'.chain.length := by
    have := congrArg List.length htake
    simp only [length_take] at this
    omega
  have hstart : st'.start = st.start := by rw [LiveState.start, LiveState.start, hplan]
  have holds' : HoldsChain st.store.buildPlan st'.earlierRoots st'.chain st'.store.db :=
    hplan ▸ inv'.holds
  rw [visibleHash, visibleHash, if_pos (by rw [inv'.tip_height, hstart]; omega),
    if_pos (by rw [inv.tip_height]; omega), blockHeaderAt, blockHeaderAt,
    lookup_header_of_take_eq inv.holds holds' hn htake hle]

/-! ## Soundness -/

/-- What a committed append does: one block on top of the visible tip. -/
structure SoundAppend (s s' : RocksDbCanonicalStore D) (block : CanonicalBuildBlock E) :
    Prop where
  height : block.height = s.readyEvidence.visibleTip.height + 1
  parent : block.parentHash = s.readyEvidence.visibleTip.hash
  tip : s'.readyEvidence.visibleTip = block.blockId
  below : ∀ height ≤ s.readyEvidence.visibleTip.height,
    visibleHash s' height = visibleHash s height

/-- What a committed replacement does: `first` is the lowest height at which the chains differ, the
new blocks are linked from the block below it, and neither suffix is longer than the window. -/
structure SoundReplacement (s s' : RocksDbCanonicalStore D)
    (blocks : List (CanonicalBuildBlock E)) (first : Nat) : Prop where
  nonempty : blocks ≠ []
  heights : blocks.map CanonicalBuildBlock.height = List.range' first blocks.length
  parent : ∀ b ∈ blocks.head?, visibleHash s (first - 1) = some b.parentHash
  linked : blocks.IsChain fun a b => b.parentHash = a.hash
  placed : ∀ b ∈ blocks, visibleHash s' b.height = some b.hash
  tip : ∀ b ∈ blocks.getLast?, s'.readyEvidence.visibleTip = b.blockId
  differs : IsLeast {height | visibleHash s' height ≠ visibleHash s height} first
  settled : (settledTip s).height < first
  displaced_le : s.readyEvidence.visibleTip.height + 1 - first ≤ s.window
  visible_le : s'.readyEvidence.visibleTip.height - (settledTip s).height ≤ s.window

theorem soundAppend_of_commit [DecidableEq D] {st : LiveState E} {k : Nat}
    (inv : LiveInvariant st k) {a : CanonicalLiveAppend E} {activations : NetworkUpgradeActivations}
    {s' : RocksDbCanonicalStore D} {fence : CanonicalEventFence D}
    (h : commitLiveAppend st.store a activations = .ok (s', fence)) :
    SoundAppend st.store s' a.block := by
  obtain ⟨k', _, inv'⟩ := inv.append h
  obtain ⟨_, _, p, spec, hready, _, hstore, _⟩ := commitLiveAppend_eq_ok h
  refine ⟨spec.height, spec.parent, ?_, fun height hle => ?_⟩
  · rw [hstore, hready]
    rfl
  · refine visibleHash_of_take_eq inv inv' ?_ le_rfl ?_ (by rwa [← inv.tip_height])
    · rw [hstore]
    · rw [take_left' rfl, take_length]

theorem linked_isChain {parent : BlockId} {chain : Chain E} (h : Linked parent chain) :
    (chain.map VisibleBlock.block).IsChain fun a b => b.parentHash = a.hash := by
  induction chain generalizing parent with
  | nil => exact .nil
  | cons v chain ih =>
    cases chain with
    | nil => exact .singleton _
    | cons w chain => exact .cons_cons h.2.2.2.1 (ih h.2.2)

theorem linked_heights {parent : BlockId} {chain : Chain E} (h : Linked parent chain) :
    chain.map (fun v => v.block.height) = List.range' (parent.height + 1) chain.length := by
  have := h.drop_heights 0
  rw [drop_zero, BlockHeightRange.heights] at this
  rw [this]
  congr 1
  simp only
  omega

theorem soundReplacement_of_replacedSuffix {st : LiveState E} {k n : Nat}
    (inv : LiveInvariant st k) {r : CanonicalLiveReplacement E}
    {first : CanonicalReplacementBlock E} {s' : RocksDbCanonicalStore D}
    {sizes oldSizes : ChainTipMetadata} {facts : List CanonicalBlockFacts}
    {rest : List (Op (Val D))} (h : ReplacedSuffix st k r first s' n sizes oldSizes facts rest)
    (hfirst : r.blocks.head? = some first) {header : BlockHeaderArtifact}
    (hheader : blockHeaderAt st.store first.block.height = some header)
    (hdiffers : first.block.hash ≠ header.blockHash) :
    SoundReplacement st.store s' (r.blocks.map CanonicalReplacementBlock.block)
      first.block.height := by
  have inv' := inv.replacement h
  have hplan : s'.buildPlan = st.store.buildPlan := h.plan
  have hkept := inv.linked.tipId_take_height h.lt_length.le
  have hblocks : r.chain.map VisibleBlock.block =
      r.blocks.map CanonicalReplacementBlock.block := by
    rw [CanonicalLiveReplacement.chain, List.map_map]
    rfl
  have hlength : r.chain.length = r.blocks.length := by
    rw [CanonicalLiveReplacement.chain, length_map]
  obtain ⟨tail, hcons⟩ := List.head?_eq_some_iff.mp hfirst
  have hlinked := h.linked
  have hchain : r.chain = first.visible :: tail.map CanonicalReplacementBlock.visible := by
    rw [CanonicalLiveReplacement.chain, hcons, map_cons]
  have hheight := h.first_height hfirst inv
  -- the new chain, block by block
  have hplaced : ∀ i v, r.chain[i]? = some v →
      visibleHash s' (st.start.height + n + 1 + i) = some v.block.hash := by
    intro i v hv
    have hlen : (st.chain.take n).length = n := by
      rw [length_take]
      exact Nat.min_eq_left h.lt_length.le
    have hget : (st.chain.take n ++ r.chain)[n + i]? = some v := by
      rw [getElem?_append_right (by omega), hlen, Nat.add_sub_cancel_left]
      exact hv
    have := visibleHash_getElem inv' hget
    have hindex : (⟨s', st.earlierRoots, st.chain.take n ++ r.chain⟩ : LiveState E).start.height +
        1 + (n + i) = st.start.height + n + 1 + i := by
      simp only [LiveState.start, hplan]
      omega
    rwa [hindex] at this
  have hbelow : ∀ height, height < first.block.height →
      visibleHash s' height = visibleHash st.store height := by
    intro height hlt
    refine visibleHash_of_take_eq (n := n) inv inv' hplan h.lt_length.le ?_ (by omega)
    rw [take_append_of_le_length (by simp [h.lt_length.le]), take_take, Nat.min_self]
  have hnew : visibleHash s' first.block.height = some first.block.hash := by
    have := hplaced 0 first.visible (by rw [hchain]; rfl)
    rw [hheight]
    exact this
  have hold : visibleHash st.store first.block.height = some header.blockHash := by
    have hlt := h.lt_length
    rw [visibleHash, if_pos (by rw [inv.tip_height]; omega), hheader]
    rfl
  exact
    { nonempty := by simp [hcons]
      heights := by
        rw [← hblocks, List.map_map, hheight, ← hkept]
        have := linked_heights h.linked
        rw [length_map]
        exact this
      parent := by
        intro b hb
        rw [← hblocks, hchain] at hb
        obtain ⟨i, rfl⟩ : ∃ i, n = i + 1 := Nat.exists_eq_add_one.mpr
          (inv.settled_pos.trans_le h.settled_le)
        have hlt : i < st.chain.length := by have := h.lt_length; omega
        have hv : st.chain[i]? = some st.chain[i] := getElem?_eq_getElem hlt
        rw [hchain, take_succ_eq hv, tipId_concat] at hlinked
        have hfirst' : first.block = b := Option.some.inj hb
        have hindex : first.block.height - 1 = st.start.height + 1 + i := by omega
        rw [hindex, visibleHash_getElem inv hv, ← hfirst']
        exact congrArg some hlinked.2.1.symm
      linked := hblocks ▸ linked_isChain h.linked
      placed := by
        intro b hb
        rw [← hblocks] at hb
        obtain ⟨v, hv, rfl⟩ := mem_map.mp hb
        obtain ⟨i, hi⟩ := mem_iff_getElem?.mp hv
        have hb : v.block.height = st.start.height + n + 1 + i := by
          rw [h.linked.height_of_getElem? hi, hkept]
        rw [hb, hplaced i v hi]
      tip := by
        intro b hb
        rw [← hblocks] at hb
        obtain ⟨init, hinit⟩ := getLast?_eq_some_iff.mp hb
        obtain ⟨chain, last, hlast, hmap, hsingle⟩ := map_eq_append_iff.mp hinit
        obtain ⟨v, rfl, rfl⟩ := map_eq_singleton_iff.mp hsingle
        have := inv'.tip_eq
        simp only [hlast, ← append_assoc] at this
        rw [this, tipId_concat]
      differs := by
        refine ⟨?_, fun height hne => not_lt.mp fun hlt => hne (hbelow height hlt)⟩
        show visibleHash s' _ ≠ visibleHash st.store _
        rw [hnew, hold]
        exact fun heq => hdiffers (Option.some.inj heq)
      settled := by
        have hk := h.settled_le
        rw [settledTip, inv.settled_height]
        omega
      displaced_le := by
        have := h.displaced_le
        rw [inv.tip_height]
        omega
      visible_le := by
        have := h.lag_le
        rw [h.evidence] at this ⊢
        exact this }

def SoundOutcome (s s' : RocksDbCanonicalStore D) : FollowOutcome E → Prop
  | .nothing => s' = s
  | .appended a => SoundAppend s s' a.block
  | .replaced r => ∃ first,
    SoundReplacement s s' (r.blocks.map CanonicalReplacementBlock.block) first

/-- The follower is sound against any source: in every run of iterations, whatever the node
answered, each iteration leaves the store alone, extends the visible tip by one child, or replaces
a suffix above the settled tip from the lowest height at which the chains differ, within the
window. -/
theorem follow_sound [DecidableEq D] {L : BlockLibrary} {st₀ st st' : LiveState E}
    {outcome : FollowOutcome E} (h : Published st₀) (run : FollowRun L st₀ st)
    (step : FollowStep L st outcome st') : SoundOutcome st.store st'.store outcome := by
  obtain ⟨k, inv⟩ := h.run_invariant run.liveRun
  cases step with
  | atTip => rfl
  | sourceFailed => rfl
  | append _ hcommit => exact soundAppend_of_commit inv hcommit
  | replacement hprepare hfirst hcommit =>
    obtain ⟨first, header, hhead, hheader, hdiffers⟩ := prepareFollowIteration_parts hprepare
    cases hfirst.symm.trans hhead
    obtain ⟨n, sizes, oldSizes, facts, rest, hreplaced⟩ := inv.replacedSuffix hfirst hcommit
    exact ⟨_, soundReplacement_of_replacedSuffix inv hreplaced hfirst hheader hdiffers⟩

/-! ## A sample run -/

section Sample

/-- A plain block whose one-byte payload is the byte its hash repeats. -/
def followedFacts (height : U32) (hash parent id : UInt8) : CanonicalBlockFacts :=
  { plainFacts height hash parent id with
    blockHeader := { (plainFacts height hash parent id).blockHeader with blockSizeBytes := 1 }
    serializedBytesDigest := [hash] }

def followedBlocks : List CanonicalBlockFacts := [followedFacts 2 2 1 12, followedFacts 2 3 1 13]

/-- A library whose blocks are their own facts. -/
def followedLibrary : BlockLibrary where
  Block := CanonicalBlockFacts
  Transaction := CanonicalTransactionFacts
  deserialize bytes :=
    okOr ((followedBlocks.find? (·.serializedBytesDigest = bytes)).map (·, 1)) "unknown block"
  coinbaseHeight f := some f.blockHeader.height
  hash f := f.blockHash
  previousBlockHash f := f.parentHash
  merkleRoot f := f.blockHeader.merkleRootHash
  commitmentBytes f := f.blockHeader.commitmentBytes
  time f := f.blockHeader.blockTime
  difficultyThreshold f := f.blockHeader.bits
  nonce f := f.blockHeader.nonce
  version f := f.blockHeader.version
  transactions f := f.transactions
  serializedSize _ := 0
  factSet t _ _ _ :=
    .ok ⟨t.publicFacts, t.intrinsicValueBalances, t.transparentInputs, t.transparentOutputs⟩
  saplingSpendCount _ := 0
  transparentInputCount _ := 0
  transparentOutputCount _ := 0
  saplingOutputs _ := []
  orchardActions _ := []
  ironwoodActions _ := []

def followedSource (facts : CanonicalBlockFacts) : NodeSource where
  tipId _ := .answer facts.blockId
  fetchBlockAt _ _ := .answer
    ⟨facts.blockHeader.height, facts.blockHash, facts.parentHash, 0, facts.serializedBytesDigest⟩
  fetchChainCheckpoint _ _ := .answer ⟨facts.blockId, 0, .absent⟩
  fetchSubtreeRootRange _ _ := .timedOut

noncomputable def followedEnv : Env Nat :=
  ⟨listedFactsHash (plainFacts 1 1 0 11 :: followedBlocks),
    listedReplayCodec (plainFacts 1 1 0 11 :: followedBlocks) (listedRecords 3), plainTrees⟩

noncomputable def followedBaseline : CanonicalBaseline followedEnv where
  workload := .wallet
  plan := sampleBaseline.plan
  blocks := [plainBlock followedEnv (plainFacts 1 1 0 11)]
  roots := .retainedRange []
  sourceTipCheckpoint := ⟨⟨1, repeatedByte 1⟩, 0, .absent⟩
  settledTip := ⟨1, repeatedByte 1⟩
  createdAt := 0

noncomputable def followedIteration (s : RocksDbCanonicalStore Nat) (facts : CanonicalBlockFacts) :
    Except CanonicalFollowError (FollowIteration followedEnv × Nat) :=
  prepareFollowIteration followedLibrary s (followedSource facts) sampleActivations ⟨"5s", none⟩ 0 0

noncomputable def followedStores : Except CanonicalFollowError (RocksDbCanonicalStore Nat) := do
  let s₀ ← (publishBaseline followedBaseline).mapError .store
  match ← followedIteration s₀ (followedFacts 2 2 1 12) with
  | (.append a _, _) => do
    let (s₁, _) ← (commitLiveAppend s₀ a sampleActivations).mapError .store
    match ← followedIteration s₁ (followedFacts 2 3 1 13) with
    | (.replacement r _, _) => do
      let (s₂, _) ← (commitLiveReplacement s₁ r sampleActivations).mapError .store
      .ok s₂
    | _ => .error .cancelled
  | _ => .error .cancelled

theorem followed_run : ∃ st₀ st₁ st₂ : LiveState followedEnv, ∃ a r,
    Published st₀ ∧ FollowStep followedLibrary st₀ (.appended a) st₁ ∧
      FollowStep followedLibrary st₁ (.replaced r) st₂ := by
  obtain ⟨s₂, h⟩ : ∃ s₂, followedStores = .ok s₂ := isOk_eq_true.mp (by decide +kernel)
  simp only [followedStores, bind_eq_ok, mapError_ok_iff] at h
  obtain ⟨s₀, h₀, first, hfirst, h⟩ := h
  obtain ⟨st₀, hpublished, rfl, _⟩ := exists_published h₀
  split at h
  · simp only [bind_eq_ok, mapError_ok_iff] at h
    obtain ⟨⟨s₁, _⟩, h₁, second, hsecond, h⟩ := h
    split at h
    · simp only [bind_eq_ok, mapError_ok_iff] at h
      obtain ⟨⟨_, _⟩, h₂, _⟩ := h
      obtain ⟨_, _, hhead, _⟩ := prepareFollowIteration_parts hsecond
      exact ⟨st₀, ⟨s₁, st₀.earlierRoots, st₀.chain ++ [_]⟩, _, _, _, hpublished,
        .append hfirst h₁, .replacement hsecond hhead h₂⟩
    · cases h
  · cases h

theorem follow_sound_sample : ∃ st₀ st₁ st₂ : LiveState followedEnv, ∃ a r,
    Published st₀ ∧ FollowStep followedLibrary st₀ (.appended a) st₁ ∧
      FollowStep followedLibrary st₁ (.replaced r) st₂ ∧
      SoundAppend st₀.store st₁.store a.block ∧
      SoundOutcome st₁.store st₂.store (.replaced r) := by
  obtain ⟨st₀, st₁, st₂, a, r, hpublished, h₁, h₂⟩ := followed_run
  exact ⟨st₀, st₁, st₂, a, r, hpublished, h₁, h₂, follow_sound hpublished .refl h₁,
    follow_sound hpublished (.single ⟨_, h₁⟩) h₂⟩

end Sample

end Zinder.Ingest
