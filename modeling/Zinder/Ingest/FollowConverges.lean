import Zinder.Ingest.StableSource

/-!
# Zinder.Ingest.FollowConverges

The follower converges on a stable source. `follow_converges` says that from any reachable store
whose settled block the branch contains, at most one iteration per source block above the fork point
makes the visible chain equal to the branch: one replacement up to a window above the settled tip if
the local chain has left the branch, then appends, each of which moves the settled tip along.
-/

namespace Zinder.Ingest

open Canonical Relation List

variable {D : Type} {E : Env D}

/-! ## Iterations -/

variable [DecidableEq D]

/-- One iteration against a source: prepare a proposal and commit it. -/
def followIteration (E : Env D) (L : BlockLibrary) (source : NodeSource)
    (activations : NetworkUpgradeActivations) (config : CanonicalFollowConfig) (now : Nat)
    (s : RocksDbCanonicalStore D) : Except CanonicalFollowError (RocksDbCanonicalStore D) := do
  let (iteration, _) ← prepareFollowIteration (E := E) L s source activations config now 0
  match iteration with
  | .atTip _ => .ok s
  | .append a _ => do
    let (s', _) ← (commitLiveAppend s a activations).mapError .store
    .ok s'
  | .replacement r _ => do
    let (s', _) ← (commitLiveReplacement s r activations).mapError .store
    .ok s'

/-- `count` iterations, `now` being the clock at each. -/
def followIterations (E : Env D) (L : BlockLibrary) (source : NodeSource)
    (activations : NetworkUpgradeActivations) (config : CanonicalFollowConfig) (now : Nat → Nat) :
    Nat → RocksDbCanonicalStore D → Except CanonicalFollowError (RocksDbCanonicalStore D)
  | 0, s => .ok s
  | count + 1, s => do
    let s' ← followIteration E L source activations config (now count) s
    followIterations E L source activations config now count s'

section Appending

variable {C : SourceChain E} {L : BlockLibrary} {activations : NetworkUpgradeActivations}
  {config : CanonicalFollowConfig} {st : LiveState E} {k base height : Nat}

/-- The store's tip is the branch's block at `height`, with its tree state. -/
structure Atop (C : SourceChain E) (st : LiveState E) (height : Nat) : Prop where
  tip : st.store.readyEvidence.visibleTip = C.blockId height
  anchor : st.store.appendAnchor = .ok ⟨st.store.eventFence,
    st.store.readyEvidence.sequenceCheckpoint.through, C.checkpoint height⟩

/-- The settled tip an append proposes: unchanged, or the next block when the window is full. -/
theorem nextAppendSettledTip_ok (inv : LiveInvariant st k) (ready : StoreReady st)
    (checkpoint : CommitmentTreeCheckpoint) :
    ∃ k', k ≤ k' ∧ k' ≤ k + 1 ∧ k' ≤ st.chain.length ∧
      st.start.height + k' =
        max (st.start.height + k) (st.start.height + st.chain.length + 1 - st.store.window) ∧
      nextAppendSettledTip st.store ⟨st.store.eventFence,
        st.store.readyEvidence.sequenceCheckpoint.through, checkpoint⟩
        (st.start.height + st.chain.length + 1) = .ok (tipId st.start (st.chain.take k')) := by
  have hthrough := inv.settled_height
  have htip := inv.tip_height
  have hwindow := inv.window
  have hpositive : 0 < st.store.window := st.store.buildPlan.reorgWindowBlocks_pos
  have hle := inv.settled_le
  have hpos := inv.settled_pos
  have hfirst := ready.first
  simp only [nextAppendSettledTip, nextSettledHeight, hthrough, hfirst]
  by_cases hsame : max (max (st.start.height + st.chain.length + 1 - st.store.window)
      (st.start.height + 1)) (st.start.height + k) = st.start.height + k
  · refine ⟨k, le_rfl, by omega, hle, by omega, ?_⟩
    rw [if_pos hsame, inv.settled]
    rfl
  · have hselected : max (max (st.start.height + st.chain.length + 1 - st.store.window)
        (st.start.height + 1)) (st.start.height + k) = st.start.height + k + 1 := by omega
    have hlt : k < st.chain.length := by omega
    have hv : st.chain[k]? = some st.chain[k] := getElem?_eq_getElem hlt
    have hheight : st.chain[k].block.height = st.start.height + k + 1 := by
      rw [inv.linked.height_of_getElem? hv]
      omega
    have hheader : blockHeaderAt st.store (st.start.height + k + 1) =
        some st.chain[k].block.facts.blockHeader := by
      rw [blockHeaderAt, ← hheight]
      exact inv.holds.lookup_header (getElem_mem _)
    refine ⟨k + 1, by omega, le_rfl, hlt, by omega, ?_⟩
    rw [if_neg hsame, hselected, hheader, take_succ_eq hv, tipId_concat]
    simp only [okOr_some, ok_bind, Except.ok.injEq]
    exact BlockId.ext_of hheight.symm rfl

theorem Atop.of_last (inv : LiveInvariant st k) (ready : StoreReady st)
    (hlast : st.chain.getLast? = some (C.placed height).visible)
    (hcheckpoint : (C.built height).treeStateCheckpoint = some (C.checkpoint height))
    (hid : (C.built height).blockId = C.blockId height) : Atop C st height := by
  obtain ⟨v, hv, _, htip⟩ := inv.exists_tip
  obtain ⟨checkpoint, _, htree, hanchor⟩ := ready.appendAnchor_ok inv
  have hsame : C.checkpoint height = checkpoint := by
    rw [← Option.some.injEq, ← hcheckpoint]
    exact htree _ hlast
  refine ⟨?_, hsame ▸ hanchor⟩
  cases hlast.symm.trans hv
  exact htip.trans hid

omit [DecidableEq D] in
theorem Atop.local_height (atop : Atop C st height) (inv : LiveInvariant st k) :
    st.start.height + st.chain.length = height := by
  rw [← inv.tip_height, atop.tip]
  rfl

/-- The node serves a branch of the store's network up to the follower's target. -/
structure Serves (C : SourceChain E) (L : BlockLibrary) (activations : NetworkUpgradeActivations)
    (config : CanonicalFollowConfig) (plan : CanonicalStoreBuildPlan) (base : Nat) : Prop where
  network : activations.network = plan.network
  fingerprint : activations.fingerprint = plan.networkUpgradeActivationsFingerprint
  target : ∀ t ∈ config.targetHeight, C.tip ≤ t
  valid : C.Valid L activations plan.rawBlobRetention base
  unique : UniqueIds ((List.range' (base + 1) (C.tip - base)).map fun h => (C.placed h).visible)

section

variable {plan : CanonicalStoreBuildPlan} (h : Serves C L activations config plan base)
include h

omit [DecidableEq D]

theorem Serves.requestedTarget : requestedTarget config (C.blockId C.tip) = C.tip := by
  have htarget := h.target
  simp only [Ingest.requestedTarget, SourceChain.blockId]
  cases ht : config.targetHeight with
  | none => rfl
  | some t =>
    have := htarget t ht
    simp only
    omega

theorem Serves.nodup_ids (hbase : base < height) (htip : height ≤ C.tip) :
    (C.built height).transactionIds.Nodup :=
  h.unique.nodup_transactionIds (mem_map.mpr
    ⟨height, mem_range'_1.mpr ⟨hbase, by omega⟩, rfl⟩)

end

section

variable (serves : Serves C L activations config st.store.buildPlan base) (inv : LiveInvariant st k)
  (ready : StoreReady st) (atop : Atop C st height) (hbase : base ≤ height)
include serves inv ready atop hbase

theorem prepareAppend_ok (htip : height < C.tip) (now : Nat) :
    ∃ k' m, k ≤ k' ∧ k' ≤ k + 1 ∧ k' ≤ st.chain.length ∧
      st.start.height + k' = max (st.start.height + k) (height + 1 - st.store.window) ∧
      prepareFollowIteration (E := E) L st.store C.node activations config now 0 =
        .ok (.append ⟨st.store.eventFence, C.built (height + 1),
          (C.placed (height + 1)).subtreeRoots, tipId st.start (st.chain.take k'), now⟩
          (C.blockId C.tip), m) := by
  obtain ⟨k', hkk', hadvance, hlength, hheight, hsettled⟩ :=
    nextAppendSettledTip_ok inv ready (C.checkpoint height)
  rw [atop.local_height inv] at hsettled hheight
  have hprepared := serves.valid.prepares height hbase htip
  obtain ⟨_, hmono⟩ := prepareLiveBlock_monotone hprepared
  obtain ⟨m, hroots⟩ := fetchRoots_ok C config hmono 3
  have hfence : st.store.eventFence.visibleTip = C.blockId height := atop.tip
  have hu32 : height + 1 < u32Bound := by
    rw [← serves.valid.height (height + 1) (by omega) htip]
    exact (C.block (height + 1)).height.isLt
  refine ⟨k', m, hkk', hadvance, hlength, hheight, ?_⟩
  have hahead : ¬ ((C.blockId C.tip).height < (C.blockId height).height ∨
      (C.blockId C.tip).height = (C.blockId height).height ∧
        (C.blockId C.tip).hash ≠ (C.blockId height).hash) := by
    simp only [SourceChain.blockId]
    omega
  have hmore : ¬ C.tip ≤ (C.blockId height).height := by
    simp only [SourceChain.blockId]
    omega
  have hparent : (C.block (height + 1)).parentHash = (C.blockId height).hash :=
    serves.valid.linked height hbase htip
  have hnext : nextHeight (C.blockId height).height = some (height + 1) :=
    nextHeight_eq_some.mpr ⟨hu32, rfl⟩
  simp only [prepareFollowIteration, Requests.bind_apply, Requests.of_apply, Except.mapError, atop.anchor,
    ok_bind, node_tipId, hfence, if_neg hahead, serves.requestedTarget, if_neg hmore, hnext, okOr_some,
    hsettled, node_block, if_neg (not_not.mpr hparent), prepareAppendIteration, node_checkpoint,
    hprepared, hroots]
  rfl

/-- One iteration atop the branch appends its next block and settles one more block when the window
is full. -/
theorem appendIteration (hT : E.trees.Lawful) (htip : height < C.tip)
    (hepoch : st.store.readyEvidence.visibleEpoch + 1 < u64Bound)
    (hbytes : replayTotal (st.chain ++ [(C.placed (height + 1)).visible]) < u64Bound) (now : Nat) :
    ∃ s' k', followIteration E L C.node activations config now st.store = .ok s' ∧
      LiveStep st ⟨s', st.earlierRoots, st.chain ++ [(C.placed (height + 1)).visible]⟩ ∧
      LiveInvariant ⟨s', st.earlierRoots, st.chain ++ [(C.placed (height + 1)).visible]⟩ k' ∧
      s'.readyEvidence.visibleEpoch = st.store.readyEvidence.visibleEpoch + 1 ∧
      (settledTip s').height = max (settledTip st.store).height (height + 1 - st.store.window) := by
  obtain ⟨k₁, m, hkk₁, hadvance, hlength, hheight, hprepared⟩ :=
    prepareAppend_ok serves inv ready atop hbase htip now
  have hlocal := atop.local_height inv
  have hsettled := inv.settled_height
  have hwindow : 0 < st.store.window := st.store.buildPlan.reorgWindowBlocks_pos
  have hpos := inv.settled_pos
  have hfollows := serves.valid.follows hT hbase htip
  have henabled : AppendEnabled st k ⟨st.store.eventFence, C.built (height + 1),
      (C.placed (height + 1)).subtreeRoots, tipId st.start (st.chain.take k₁), now⟩ activations
      k₁ :=
    { network := serves.network
      fingerprint := serves.fingerprint
      fence := rfl
      follows := ⟨_, _, atop.anchor, hfollows⟩
      settled_le := hkk₁
      le_length := hlength
      settled := rfl
      advance_le := by omega
      lag_le := by omega
      epoch_lt := hepoch
      bytes_lt := hbytes }
  obtain ⟨s', fence, hcommit⟩ :=
    commitLiveAppend_ok inv ready henabled (serves.nodup_ids (by omega) htip)
  obtain ⟨k', _, inv'⟩ := inv.append hcommit
  obtain ⟨_, checkpoint, p, spec, hready, _, rfl, _⟩ := commitLiveAppend_eq_ok hcommit
  refine ⟨_, k', ?_, .append hcommit, inv', ?_, ?_⟩
  · simp only [followIteration, hprepared, ok_bind, bind_eq_ok, mapError_ok_iff]
    exact ⟨_, hcommit, rfl⟩
  · simp only [hready, appendedEvidence]
  · simp only [settledTip, hready, appendedEvidence, (inv.advanceSettled spec).1]
    rw [hsettled, ← hheight]
    exact inv.linked.tipId_take_height hlength

def SourceChain.suffix (C : SourceChain E) (height count : Nat) : Chain E :=
  (List.range' (height + 1) count).map fun h => (C.placed h).visible

theorem appendIterations (hT : E.trees.Lawful) {count : Nat} (hcount : height + count = C.tip)
    (hepoch : st.store.readyEvidence.visibleEpoch + count < u64Bound)
    (hbytes : replayTotal (st.chain ++ C.suffix height count) < u64Bound) (now : Nat → Nat) :
    ∃ s' k', followIterations E L C.node activations config now count st.store = .ok s' ∧
      ReflTransGen LiveStep st ⟨s', st.earlierRoots, st.chain ++ C.suffix height count⟩ ∧
      LiveInvariant ⟨s', st.earlierRoots, st.chain ++ C.suffix height count⟩ k' ∧
      (settledTip s').height = max (settledTip st.store).height
        (if count = 0 then 0 else C.tip - st.store.window) := by
  induction count generalizing st k height with
  | zero =>
    refine ⟨st.store, k, rfl, ?_, ?_, by simp⟩
    · simpa [SourceChain.suffix] using ReflTransGen.refl
    · simpa [SourceChain.suffix] using inv
  | succ count ih =>
    have hsuffix : C.suffix height (count + 1) =
        (C.placed (height + 1)).visible :: C.suffix (height + 1) count := by
      simp [SourceChain.suffix, range'_succ]
    have hassoc : st.chain ++ C.suffix height (count + 1) =
        st.chain ++ [(C.placed (height + 1)).visible] ++ C.suffix (height + 1) count := by
      rw [hsuffix, append_assoc, singleton_append]
    rw [hassoc] at hbytes ⊢
    have hfirst : replayTotal (st.chain ++ [(C.placed (height + 1)).visible]) < u64Bound := by
      rw [replayTotal_append] at hbytes
      omega
    obtain ⟨s₁, k₁, hiteration, step, inv₁, hepoch₁, hsettled₁⟩ :=
      appendIteration serves inv ready atop hbase hT (by omega) (by omega) hfirst (now count)
    have hplan : s₁.buildPlan = st.store.buildPlan := step.buildPlan_eq
    have hwindow : s₁.window = st.store.window := by
      rw [RocksDbCanonicalStore.window, hplan, RocksDbCanonicalStore.window]
    have ready₁ := step.ready inv ready
    have atop₁ : Atop C ⟨s₁, st.earlierRoots, st.chain ++ [(C.placed (height + 1)).visible]⟩
        (height + 1) := Atop.of_last inv₁ ready₁ (getLast?_concat ..)
      (serves.valid.follows hT hbase (by omega)).checkpoint_eq
      (serves.valid.built_blockId hbase (by omega))
    obtain ⟨s', k', hrest, run, inv', hsettled'⟩ := ih (by rwa [hplan]) inv₁ ready₁ atop₁
      (by omega) (by omega) (by simp only [hepoch₁]; omega) hbytes
    refine ⟨s', k', ?_, .head step run, inv', ?_⟩
    · simp only [followIterations, hiteration, ok_bind]
      exact hrest
    · simp only at hsettled'
      rw [hsettled', hsettled₁, hwindow]
      split <;> simp <;> omega

end

end Appending

/-! ## Replacing -/

section Replacing

variable {C : SourceChain E} {L : BlockLibrary} {activations : NetworkUpgradeActivations}
  {config : CanonicalFollowConfig} {st : LiveState E} {k f : Nat}

/-- The local chain and the branch share the settled block and part above `f`, where they agree
about the tree state; the branch does not end below the local tip on the local chain. -/
structure ForksAt (C : SourceChain E) (activations : NetworkUpgradeActivations) (st : LiveState E)
    (f : Nat) : Prop where
  settled : settledTip st.store = C.blockId (settledTip st.store).height
  settled_le : (settledTip st.store).height ≤ f
  le_local : f ≤ st.store.readyEvidence.visibleTip.height
  le_tip : f ≤ C.tip
  agree : ∀ height, (settledTip st.store).height ≤ height →
    height ≤ st.store.readyEvidence.visibleTip.height → height ≤ C.tip →
    (visibleHash st.store height = some (C.block height).hash ↔ height ≤ f)
  not_proper : f = C.tip → st.store.readyEvidence.visibleTip.height = f
  checkpoint : checkpointAt E st.store (C.blockId f) activations = .ok (C.checkpoint f)
  sizes : readPersistedTipMetadata st.store.db (C.blockId f) = .ok (C.checkpoint f).tipMetadata

section

omit [DecidableEq D]

theorem visible_block (inv : LiveInvariant st k) {height : Nat}
    (hlow : st.start.height < height) (hhigh : height ≤ st.store.readyEvidence.visibleTip.height) :
    ∃ v, st.chain[height - st.start.height - 1]? = some v ∧ v.block.height = height ∧
      visibleHash st.store height = some v.block.hash ∧
      blockHeaderAt st.store height = some v.block.facts.blockHeader := by
  rw [inv.tip_height] at hhigh
  have hlt : height - st.start.height - 1 < st.chain.length := by omega
  have hv := getElem?_eq_getElem hlt
  have hheight := inv.linked.height_of_getElem? hv
  have hindex : st.start.height + 1 + (height - st.start.height - 1) = height := by omega
  have hhash := visibleHash_getElem inv hv
  rw [hindex] at hhash
  have hblock : st.chain[height - st.start.height - 1].block.height = height := by omega
  refine ⟨_, hv, hblock, hhash, ?_⟩
  have := inv.holds.lookup_header (mem_of_getElem? hv)
  rwa [hblock] at this

theorem ForksAt.start_lt (h : ForksAt C activations st f) (inv : LiveInvariant st k) :
    st.start.height < f := by
  have hsettled : (settledTip st.store).height = st.start.height + k := inv.settled_height
  have hpos := inv.settled_pos
  have hle := h.settled_le
  omega

theorem ForksAt.tipId_take (h : ForksAt C activations st f) (inv : LiveInvariant st k) :
    tipId st.start (st.chain.take (f - st.start.height)) = C.blockId f := by
  have hlow := h.start_lt inv
  obtain ⟨v, hv, hheight, hhash, _⟩ := visible_block inv hlow h.le_local
  have hsame := (h.agree f h.settled_le h.le_local h.le_tip).mpr le_rfl
  have hcount : f - st.start.height = f - st.start.height - 1 + 1 := by omega
  rw [hcount, take_succ_eq hv, tipId_concat]
  rw [hhash, Option.some.injEq] at hsame
  exact BlockId.ext_of hheight hsame

end

theorem appendAnchor_of_checkpointAt (inv : LiveInvariant st k) (ready : StoreReady st)
    {checkpoint : CommitmentTreeCheckpoint}
    (h : checkpointAt E st.store st.store.readyEvidence.visibleTip activations = .ok checkpoint) :
    st.store.appendAnchor = .ok ⟨st.store.eventFence,
      st.store.readyEvidence.sequenceCheckpoint.through, checkpoint⟩ := by
  obtain ⟨v, hlast, hmem, htip⟩ := inv.exists_tip
  obtain ⟨anchor, hid, htree, hanchor⟩ := ready.appendAnchor_ok inv
  have hrow := inv.holds.lookup_checkpoint hmem (htree v hlast)
  have hheader := inv.holds.lookup_header hmem
  have hstart : st.store.buildPlan.historyPredecessor.blockId.height ≠ v.block.height :=
    (inv.linked.lt_height hmem).ne
  have hheight : checkpointHeightAtOrBefore st.store.db v.block.height = some v.block.height := by
    simp [checkpointHeightAtOrBefore, range_succ, hrow]
  have hfound : treeStateCheckpointAtOrBefore st.store v.block.blockId.height =
      .ok (some anchor) := by
    rw [CanonicalBuildBlock.blockId_height]
    simp only [treeStateCheckpointAtOrBefore, hheight, hrow, okOr_some, ok_bind,
      if_neg hstart.symm, hheader, Except.ok.injEq, Option.some.injEq]
    have : anchor.blockId = ⟨v.block.height, v.block.facts.blockHeader.blockHash⟩ :=
      hid.trans htip
    rw [← this]
  rw [htip] at h
  simp only [checkpointAt, hfound, ok_bind, okOr_some] at h
  rw [if_pos (by rw [hid, htip])] at h
  simp only [bind_eq_ok, rejectIf_eq_ok] at h
  obtain ⟨_, _, h⟩ := h
  cases h
  exact hanchor

section

variable (h : ForksAt C activations st f) (inv : LiveInvariant st k)
include h inv

theorem ForksAt.atop (ready : StoreReady st) (hf : st.store.readyEvidence.visibleTip.height = f) :
    Atop C st f := by
  have htip : st.store.readyEvidence.visibleTip = C.blockId f := by
    rw [← h.tipId_take inv, inv.tip_eq]
    congr 1
    rw [take_of_length_le]
    have := inv.tip_height
    omega
  have hcheckpoint := h.checkpoint
  rw [← htip] at hcheckpoint
  exact ⟨htip, appendAnchor_of_checkpointAt inv ready hcheckpoint⟩

omit [DecidableEq D] in
theorem ForksAt.discover (config : CanonicalFollowConfig) {retention : RawBlobRetention}
    (valid : C.Valid L activations retention (settledTip st.store).height)
    (hlocal : f < st.store.readyEvidence.visibleTip.height) (htip : f < C.tip)
    (localTip observed : BlockId) {blocks : SourceBlocks} (hblocks : OfBranch C blocks) (n : Nat) :
    ∃ blocks' m, OfBranch C blocks' ∧
      discoverFork st.store C.node config localTip (settledTip st.store) observed
        (min st.store.readyEvidence.visibleTip.height C.tip) blocks n =
        .ok ((some (C.blockId f), blocks'), m) := by
  have hle := h.settled_le
  refine discoverFork_ok valid h.settled hle (by omega) (by omega) (by omega)
    (fun height hlow hhigh => ?_) hblocks n
  have hstart : (settledTip st.store).height = st.start.height + k := inv.settled_height
  obtain ⟨v, _, _, hhash, hheader⟩ :=
    visible_block inv (by omega) (by omega : height ≤ _)
  refine ⟨_, hheader, ?_⟩
  rw [← h.agree height hlow.le (by omega) (by omega), hhash, Option.some.injEq]
  exact eq_comm

theorem ForksAt.parentCheckpoint_ok (ready : StoreReady st)
    (hnetwork : activations.network = st.store.buildPlan.network)
    (hfingerprint : activations.fingerprint =
      st.store.buildPlan.networkUpgradeActivationsFingerprint)
    (hlocal : f < st.store.readyEvidence.visibleTip.height) :
    replacementParentCheckpoint E st.store (C.blockId f) activations = .ok (C.checkpoint f) := by
  obtain ⟨checkpoint, _, _, hanchor⟩ := ready.appendAnchor_ok inv
  have hidentity : validateActivationIdentity st.store activations "live replacement" = .ok () :=
    rejectIf_of_not (by simp [hnetwork, hfingerprint])
  have hsettled : st.store.readyEvidence.sequenceCheckpoint.through.height ≤ f := h.settled_le
  have hwindow := inv.window
  have hfence : st.store.eventFence.visibleTip = st.store.readyEvidence.visibleTip := rfl
  simp only [replacementParentCheckpoint, hidentity, hanchor, ok_bind, bind_eq_ok, rejectIf_eq_ok,
    okOr_eq_ok, checkedSub_eq_some, hfence, SourceChain.blockId]
  exact ⟨(), by omega, _, ⟨hlocal.le, rfl⟩, (), by omega, h.checkpoint⟩

end

/-- The height a replacement reaches: the end of the branch, or one window above the settled tip. -/
def replacementTop (C : SourceChain E) (st : LiveState E) : Nat :=
  min C.tip ((settledTip st.store).height + st.store.window)

def branchReplacement (C : SourceChain E) (st : LiveState E) (f now : Nat) :
    CanonicalLiveReplacement E :=
  ⟨st.store.eventFence, (List.range' (f + 1) (replacementTop C st - f)).map C.placed, now⟩

/-- The local chain up to `f`, with the branch above it up to `top`. -/
def joined (C : SourceChain E) (st : LiveState E) (f top : Nat) : Chain E :=
  st.chain.take (f - st.start.height) ++ C.suffix f (top - f)

section

variable (h : ForksAt C activations st f) (hT : E.trees.Lawful)
  (serves : Serves C L activations config st.store.buildPlan (settledTip st.store).height)
  (inv : LiveInvariant st k) (ready : StoreReady st)
  (hlocal : f < st.store.readyEvidence.visibleTip.height) (htip : f < C.tip)
include h inv hlocal

omit [DecidableEq D] in
include htip in
theorem ForksAt.lt_replacementTop : f < replacementTop C st := by
  have hsettled := h.settled_le
  have hwindow : st.store.readyEvidence.visibleTip.height - (settledTip st.store).height ≤
    st.store.window := inv.window
  simp only [replacementTop]
  omega

include hT serves ready htip in
theorem ForksAt.prepareReplacement_ok (now : Nat) (checkpoint : CommitmentTreeCheckpoint)
    (prefetched : Option SourceBlock)
    (hprefetched : OfBranch C fun height => prefetched.filter fun b => b.height.val = height)
    (n : Nat) :
    ∃ m, prepareReplacementIteration (E := E) L st.store C.node activations config now
        ⟨st.store.eventFence, settledTip st.store, checkpoint⟩ (C.blockId C.tip) prefetched n =
      .ok (.replacement (branchReplacement C st f now) (C.blockId C.tip), m) := by
  have hsettled := h.settled_le
  have hu32 : C.tip < u32Bound := by
    rw [← serves.valid.height C.tip (by omega) le_rfl]
    exact (C.block C.tip).height.isLt
  have htop : min C.tip (saturatingAddU32 (settledTip st.store).height st.store.window) =
      replacementTop C st := by
    simp only [saturatingAddU32, replacementTop]
    omega
  have hlt := h.lt_replacementTop inv hlocal htip
  have hle : replacementTop C st ≤ C.tip := min_le_left _ _
  have hfence : st.store.eventFence.visibleTip = st.store.readyEvidence.visibleTip := rfl
  obtain ⟨blocks, m₁, hof, hdiscover⟩ := h.discover inv config serves.valid hlocal htip
    st.store.eventFence.visibleTip (C.blockId C.tip) hprefetched n
  have hdiscover : discoverFork _ _ _ _ _ _
    (min st.store.eventFence.visibleTip.height (C.blockId C.tip).height) _ _ = _ := hdiscover
  obtain ⟨state, m₂, hsuffix, hblocks⟩ := suffix_ok config hT serves.valid hsettled
    (by omega : f + (replacementTop C st - f) ≤ C.tip)
    (rfl : (⟨blocks, C.checkpoint f, (C.checkpoint f).tipMetadata, []⟩ :
      SuffixState E).predecessorCheckpoint = _) rfl hof m₁
  refine ⟨m₂, ?_⟩
  have hnext : nextHeight (C.blockId f).height = some (f + 1) :=
    nextHeight_eq_some.mpr ⟨lt_of_le_of_lt htip hu32, rfl⟩
  have hroom : ¬ (replacementTop C st < f + 1 ∨ st.store.eventFence.visibleTip.height < f + 1) := by
    rw [hfence]
    omega
  have hcount : replacementTop C st + 1 - (f + 1) = replacementTop C st - f := by omega
  have hparent := h.parentCheckpoint_ok inv ready serves.network serves.fingerprint hlocal
  simp only [prepareReplacementIteration, Requests.bind_apply, Requests.of_apply, serves.requestedTarget,
    htop, hdiscover, ok_bind, okOr_some, hnext, rejectIf_of_not hroom, hparent, Except.mapError,
    BlockHeightRange.heights, hcount, hsuffix, hblocks, branchReplacement]
  rfl

omit [DecidableEq D] in
theorem ForksAt.tip_hash_ne (hle : st.store.readyEvidence.visibleTip.height ≤ C.tip) :
    (C.block st.store.readyEvidence.visibleTip.height).hash ≠
      st.store.readyEvidence.visibleTip.hash := by
  intro heq
  have hsettled := h.settled_le
  obtain ⟨v, hlast, _, htip⟩ := inv.exists_tip
  obtain ⟨w, hw, _, hhash, _⟩ := visible_block inv ((h.start_lt inv).trans hlocal) le_rfl
  have hvw : w = v := by
    have hindex : st.store.readyEvidence.visibleTip.height - st.start.height - 1 =
        st.chain.length - 1 := by
      have := inv.tip_height
      omega
    rw [hindex, ← getLast?_eq_getElem?, hlast] at hw
    exact (Option.some.inj hw).symm
  have hsame := (h.agree _ (hsettled.trans hlocal.le) le_rfl hle).mp (by
    rw [hhash, hvw, heq, htip]
    rfl)
  omega

include hT serves ready htip in
theorem ForksAt.prepareIteration_ok (now : Nat) :
    ∃ m, prepareFollowIteration (E := E) L st.store C.node activations config now 0 =
      .ok (.replacement (branchReplacement C st f now) (C.blockId C.tip), m) := by
  obtain ⟨checkpoint, _, _, hanchor⟩ := ready.appendAnchor_ok inv
  have hsettled := h.settled_le
  have hfence : st.store.eventFence.visibleTip = st.store.readyEvidence.visibleTip := rfl
  have hid : C.blockId C.tip = ⟨C.tip, (C.block C.tip).hash⟩ := rfl
  simp only [prepareFollowIteration, Requests.bind_apply, Requests.of_apply, hanchor, Except.mapError,
    ok_bind, node_tipId, hfence]
  by_cases hbehind : (C.blockId C.tip).height < st.store.readyEvidence.visibleTip.height ∨
      (C.blockId C.tip).height = st.store.readyEvidence.visibleTip.height ∧
        (C.blockId C.tip).hash ≠ st.store.readyEvidence.visibleTip.hash
  · obtain ⟨m, hreplace⟩ := h.prepareReplacement_ok hT serves inv ready hlocal htip now checkpoint
      none (by intro i b hb; simp at hb) 1
    exact ⟨m, by rw [if_pos hbehind]; exact hreplace⟩
  · -- the branch is higher, and its next block does not extend the local tip
    have hne := h.tip_hash_ne inv hlocal
    have hhigher : st.store.readyEvidence.visibleTip.height < C.tip := by
      rw [hid] at hbehind
      by_contra hle
      refine hbehind ((Nat.lt_or_ge C.tip _).imp_right fun hge => ?_)
      have heq : C.tip = st.store.readyEvidence.visibleTip.height := by omega
      refine ⟨heq, ?_⟩
      rw [← heq] at hne
      exact hne le_rfl
    generalize hlocalHeight : st.store.readyEvidence.visibleTip.height = localHeight at *
    have hblock := serves.valid.height (localHeight + 1) (by omega) hhigher
    obtain ⟨_, _, _, _, _, hsettledTip⟩ := nextAppendSettledTip_ok inv ready checkpoint
    rw [← inv.tip_height, hlocalHeight] at hsettledTip
    obtain ⟨m, hreplace⟩ := h.prepareReplacement_ok hT serves inv ready
      (by rw [hlocalHeight]; exact hlocal) htip now checkpoint (some (C.block (localHeight + 1))) (by
        intro i b hb
        rw [Option.filter_eq_some_iff] at hb
        simp only [Option.some.injEq, decide_eq_true_eq] at hb
        rw [← hb.2, ← hb.1, hblock]) 2
    have hnext : nextHeight localHeight = some (localHeight + 1) :=
      nextHeight_eq_some.mpr ⟨hblock ▸ (C.block (localHeight + 1)).height.isLt, rfl⟩
    have hparts : (C.block (localHeight + 1)).parentHash ≠ st.store.readyEvidence.visibleTip.hash := by
      rw [serves.valid.linked localHeight (by omega) hhigher]
      exact hne hhigher.le
    refine ⟨m, ?_⟩
    simp only [if_neg hbehind, serves.requestedTarget, if_neg (not_le.mpr hhigher), Requests.bind_apply,
      Requests.of_apply, hnext, okOr_some, ok_bind, hsettledTip, node_block, if_pos hparts]
    exact hreplace

end

section

omit [DecidableEq D]

theorem branchReplacement_chain (C : SourceChain E) (st : LiveState E) (f now : Nat) :
    (branchReplacement C st f now).chain = C.suffix f (replacementTop C st - f) := by
  simp only [CanonicalLiveReplacement.chain, branchReplacement, SourceChain.suffix, List.map_map]
  rfl

theorem SourceChain.suffix_append (C : SourceChain E) {a b c : Nat} (hab : a ≤ b) (hbc : b ≤ c) :
    C.suffix a (b - a) ++ C.suffix b (c - b) = C.suffix a (c - a) := by
  have hcount : c - a = b - a + (c - b) := by omega
  have hstart : a + 1 + 1 * (b - a) = b + 1 := by omega
  simp only [SourceChain.suffix, hcount, ← range'_append, map_append, hstart]

theorem Serves.unique_suffix {plan : CanonicalStoreBuildPlan} {base a count : Nat}
    (h : Serves C L activations config plan base) (hbase : base ≤ a) (hcount : a + count ≤ C.tip) :
    UniqueIds (C.suffix a count) := by
  have hsublist : (C.suffix a count).Sublist (C.suffix base (C.tip - base)) := by
    have hcount' : a + count - a = count := Nat.add_sub_cancel_left a count
    rw [← C.suffix_append hbase (by omega : a ≤ C.tip), ← C.suffix_append (by omega) hcount,
      hcount']
    exact (sublist_append_left _ _).trans (sublist_append_right _ _)
  exact ⟨h.unique.hashes.sublist (hsublist.map _),
    h.unique.transactionIds.sublist (hsublist.flatMap fun v => v.block.transactionIds)⟩

theorem SourceChain.suffix_succ (C : SourceChain E) (height count : Nat) :
    C.suffix height (count + 1) =
      C.suffix height count ++ [(C.placed (height + count + 1)).visible] := by
  have hlast : height + 1 + 1 * count = height + count + 1 := by omega
  rw [SourceChain.suffix, range'_concat, map_append, hlast]
  rfl

end

/-- The local blocks above the fork point can be archived. -/
structure Displaceable (st : LiveState E) (f : Nat) : Prop where
  archivable : ∀ v ∈ st.chain.drop (f - st.start.height), Archivable v
  hashes : ((st.chain.drop (f - st.start.height)).map fun v => v.block.hash).Nodup
  archived_lt : ∀ state : ArchiveState, st.store.db.lookup Key.displacedState = some state →
    state.blockCount + (st.store.readyEvidence.visibleTip.height - f) < u64Bound

/-- The counters of the store have room for the branch. -/
structure RoomFor (C : SourceChain E) (st : LiveState E) (f : Nat) : Prop where
  epoch : st.store.readyEvidence.visibleEpoch + (C.tip - f) < u64Bound
  bytes : replayTotal st.chain + replayTotal (C.suffix f (C.tip - f)) < u64Bound

/-- One iteration replaces the local suffix by the branch, up to a window above the settled tip. -/
theorem ForksAt.replacementIteration (h : ForksAt C activations st f) (hT : E.trees.Lawful)
    (serves : Serves C L activations config st.store.buildPlan (settledTip st.store).height)
    (displaceable : Displaceable st f) (room : RoomFor C st f) (inv : LiveInvariant st k)
    (ready : StoreReady st) (hlocal : f < st.store.readyEvidence.visibleTip.height)
    (htip : f < C.tip) (now : Nat) :
    ∃ s', followIteration E L C.node activations config now st.store = .ok s' ∧
      LiveStep st ⟨s', st.earlierRoots, joined C st f (replacementTop C st)⟩ ∧
      LiveInvariant ⟨s', st.earlierRoots, joined C st f (replacementTop C st)⟩ k ∧
      s'.readyEvidence.visibleEpoch = st.store.readyEvidence.visibleEpoch + 1 ∧
      settledTip s' = settledTip st.store := by
  obtain ⟨m, hprepared⟩ := h.prepareIteration_ok hT serves inv ready hlocal htip now
  have hstart := h.start_lt inv
  have hsettled := h.settled_le
  have hthrough : (settledTip st.store).height = st.start.height + k := inv.settled_height
  have htipHeight := inv.tip_height
  have hwindow : st.store.readyEvidence.visibleTip.height - (settledTip st.store).height ≤
    st.store.window := inv.window
  have htop := h.lt_replacementTop inv hlocal htip
  have htopTip : replacementTop C st ≤ C.tip := min_le_left _ _
  have htopWindow : replacementTop C st ≤ (settledTip st.store).height + st.store.window :=
    min_le_right _ _
  have hbytes : replayTotal (C.suffix f (replacementTop C st - f)) ≤
      replayTotal (C.suffix f (C.tip - f)) := by
    rw [← C.suffix_append htop.le htopTip, replayTotal_append]
    omega
  have hchain := branchReplacement_chain C st f now
  have hroom := room.bytes
  have hepoch := room.epoch
  have henabled : ReplacementEnabled st k (branchReplacement C st f now) activations
      (f - st.start.height) :=
    { network := serves.network
      fingerprint := serves.fingerprint
      fence := rfl
      settled_le := by omega
      lt_length := by omega
      displaced_le := by omega
      nonempty := by
        simp only [branchReplacement, ne_eq, map_eq_nil_iff, range'_eq_nil_iff]
        omega
      follows := ⟨C.checkpoint f, by rw [h.tipId_take inv]; exact h.checkpoint,
        by rw [h.tipId_take inv]; exact h.sizes,
        serves.valid.suffixFollows hT hsettled (by omega)⟩
      lag_le := by
        simp only [branchReplacement, length_map, length_range']
        omega
      epoch_lt := by omega
      bytes_lt := by omega
      newBytes_lt := by
        have := replayTotal_take_le st.chain (f - st.start.height)
        rw [replayTotal_append, hchain]
        omega
      archived_lt := by
        intro state hstate
        have := displaceable.archived_lt state hstate
        omega
      archivable := displaceable.archivable
      displacedHashes := displaceable.hashes
      unique := by
        rw [hchain]
        exact serves.unique_suffix hsettled (by omega) }
  obtain ⟨s', fence, hcommit⟩ := commitLiveReplacement_ok inv ready henabled
  have hfirst : (branchReplacement C st f now).blocks.head? = some (C.placed (f + 1)) := by
    have hcount : replacementTop C st - f = replacementTop C st - f - 1 + 1 := by omega
    rw [branchReplacement, hcount, range'_succ]
    rfl
  have hheight : (C.placed (f + 1)).block.height = f + 1 :=
    congrArg BlockId.height (serves.valid.built_blockId hsettled htip)
  have hkept : below (C.placed (f + 1)).block.height st.chain =
      st.chain.take (f - st.start.height) := by
    rw [inv.linked.below_eq_take, hheight]
    congr 1
    exact Nat.add_sub_add_right f 1 st.start.height
  have step := LiveStep.replacement hfirst hcommit
  obtain ⟨n, _, _, _, _, hreplaced⟩ := inv.replacedSuffix hfirst hcommit
  have inv' := inv.replacement hreplaced
  rw [← hreplaced.kept] at inv'
  rw [hkept, hchain] at step inv'
  refine ⟨s', ?_, step, inv', ?_, ?_⟩
  · simp only [followIteration, hprepared, ok_bind, bind_eq_ok, mapError_ok_iff]
    exact ⟨_, hcommit, rfl⟩
  · rw [hreplaced.evidence]
    rfl
  · rw [settledTip, hreplaced.evidence]
    rfl

/-- The follower is where the source is: the visible chain is the branch up to its tip, the blocks up
to the old settled tip are the old ones, the settled tip trails by at most the window, and further
iterations change nothing. -/
structure Converged (C : SourceChain E) (L : BlockLibrary)
    (activations : NetworkUpgradeActivations) (config : CanonicalFollowConfig)
    (s s' : RocksDbCanonicalStore D) : Prop where
  tip : s'.readyEvidence.visibleTip = C.blockId C.tip
  above : ∀ height, (settledTip s).height ≤ height → height ≤ C.tip →
    visibleHash s' height = some (C.block height).hash
  below : ∀ height, height ≤ (settledTip s).height → visibleHash s' height = visibleHash s height
  settled : (settledTip s').height = max (settledTip s).height (C.tip - s.window)
  stable : ∀ now, followIteration E L C.node activations config now s' = .ok s'

theorem SourceChain.Valid.tipId_suffix {retention : RawBlobRetention} {base height count : Nat}
    (h : C.Valid L activations retention base) (hbase : base ≤ height)
    (hcount : height + count ≤ C.tip) :
    tipId (C.blockId height) (C.suffix height count) = C.blockId (height + count) := by
  cases count with
  | zero => rfl
  | succ count =>
    rw [C.suffix_succ, tipId_concat]
    exact h.built_blockId (by omega) (by omega)

theorem converged_of_chain {s' : RocksDbCanonicalStore D} {k' : Nat}
    (h : ForksAt C activations st f)
    (serves : Serves C L activations config st.store.buildPlan (settledTip st.store).height)
    (inv : LiveInvariant st k) (hplan : s'.buildPlan = st.store.buildPlan)
    (inv' : LiveInvariant ⟨s', st.earlierRoots, joined C st f C.tip⟩ k')
    (ready' : StoreReady (⟨s', st.earlierRoots, joined C st f C.tip⟩ : LiveState E))
    (hsettled : (settledTip s').height =
      max (settledTip st.store).height (C.tip - st.store.window)) :
    Converged (E := E) C L activations config st.store s' := by
  have hstart := h.start_lt inv
  have hsettledLe := h.settled_le
  have hthrough : (settledTip st.store).height = st.start.height + k := inv.settled_height
  have htipHeight := inv.tip_height
  have hlocal := h.le_local
  have hkept : f - st.start.height ≤ st.chain.length := by omega
  have hstart' : (⟨s', st.earlierRoots, joined C st f C.tip⟩ : LiveState E).start = st.start :=
    congrArg (fun plan => plan.historyPredecessor.blockId) hplan
  have htake : (joined C st f C.tip).take (f - st.start.height) =
      st.chain.take (f - st.start.height) := by
    rw [joined, take_append_of_le_length (by rw [length_take]; omega), take_take, min_self]
  have hshared : ∀ height ≤ f, visibleHash s' height = visibleHash st.store height :=
    fun height hle => visibleHash_of_take_eq inv inv' hplan hkept htake (by omega)
  have htip : s'.readyEvidence.visibleTip = C.blockId C.tip := by
    have := inv'.tip_eq
    rw [hstart', joined, tipId_append, h.tipId_take inv, serves.valid.tipId_suffix hsettledLe
      (by have := h.le_tip; omega), Nat.add_sub_cancel' h.le_tip] at this
    exact this
  refine ⟨htip, fun height hlow hhigh => ?_, fun height hle => hshared height (by omega), hsettled,
    fun now => ?_⟩
  · by_cases hle : height ≤ f
    · rw [hshared height hle]
      exact (h.agree height hlow (by omega) hhigh).mpr hle
    · obtain ⟨i, rfl⟩ : ∃ i, height = f + 1 + i := ⟨height - (f + 1), by omega⟩
      have hv : (joined C st f C.tip)[f - st.start.height + i]? =
          some (C.placed (f + 1 + i)).visible := by
        rw [joined, getElem?_append_right (by rw [length_take]; omega), length_take,
          Nat.min_eq_left hkept, Nat.add_sub_cancel_left, SourceChain.suffix, getElem?_map,
          getElem?_range' (by omega), Option.map_some, Nat.one_mul]
      have hindex : st.start.height + 1 + (f - st.start.height + i) = f + 1 + i := by omega
      have hhash := visibleHash_getElem inv' hv
      rw [hstart', hindex] at hhash
      rw [hhash]
      have hid := serves.valid.built_blockId (by omega : _ ≤ f + i) (by omega)
      rw [show f + i + 1 = f + 1 + i by omega] at hid
      exact congrArg some (congrArg BlockId.hash hid)
  · obtain ⟨checkpoint, _, _, hanchor⟩ := ready'.appendAnchor_ok inv'
    simp only at hanchor
    have hfence : s'.eventFence.visibleTip = C.blockId C.tip := htip
    have hnone : prepareFollowIteration (E := E) L s' C.node activations config now 0 =
        .ok (.atTip (C.blockId C.tip), 1) := by
      simp only [prepareFollowIteration, Requests.bind_apply, Requests.of_apply, hanchor,
        Except.mapError, ok_bind, node_tipId, hfence, lt_irrefl, ne_eq, not_true, and_false, or_false,
        if_false, serves.requestedTarget]
      rw [if_pos (by rfl)]
      rfl
    simp only [followIteration, hnone, ok_bind]

end Replacing

/-! ## A sample run -/

section Sample

/-- Trees that only count their leaves. -/
def countingTrees : TreeLibrary where
  Node := Unit
  Frontier := Nat
  empty := 0
  append n _ := n + 1
  root _ := ()
  treeSize n := n
  rootBytes _ _ := repeatedByte 0
  decodeCommitment _ _ := none
  readFinalState _ bytes := some bytes.length
  writeFinalState _ n := some (List.replicate n 0)

theorem countingTrees_lawful : countingTrees.Lawful where
  treeSize_empty := rfl
  treeSize_append _ _ := rfl
  readFinalState_of_write := by
    rintro p f bytes ⟨⟩
    exact congrArg some length_replicate

/-- The branch served: block 1 of the baseline and three blocks on it. -/
def servedFacts : Nat → CanonicalBlockFacts
  | 2 => followedFacts 2 3 1 13
  | 3 => followedFacts 3 4 3 14
  | 4 => followedFacts 4 5 4 15
  | _ => plainFacts 1 1 0 11

def servedLibrary : BlockLibrary :=
  { followedLibrary with
    deserialize := fun bytes =>
      okOr (([2, 3, 4].map servedFacts).find? (·.serializedBytesDigest = bytes) |>.map (·, 1))
        "unknown block" }

def localFacts : CanonicalBlockFacts := plainFacts 2 2 1 12

noncomputable def servedEnv : Env Nat :=
  ⟨listedFactsHash (localFacts :: [1, 2, 3, 4].map servedFacts),
    listedReplayCodec (localFacts :: [1, 2, 3, 4].map servedFacts) (listedRecords 5), countingTrees⟩

def servedBlock (height : Nat) : SourceBlock :=
  ⟨(servedFacts height).blockHeader.height, (servedFacts height).blockHash,
    (servedFacts height).parentHash, 0, (servedFacts height).serializedBytesDigest⟩

def servedCheckpoint (height : Nat) : CommitmentTreeCheckpoint :=
  ⟨(servedFacts height).blockId, 0, .absent⟩

noncomputable def servedBuilt (height : Nat) : CanonicalBuildBlock servedEnv :=
  match prepareLiveBlock servedLibrary (servedBlock height) (servedCheckpoint (height - 1))
    (servedCheckpoint height) sampleActivations .none with
  | .ok (block, _) => block
  | .error _ => plainBlock servedEnv (servedFacts height)

noncomputable def servedChain : SourceChain servedEnv where
  tip := 4
  block := servedBlock
  checkpoint := servedCheckpoint
  roots range := ⟨range.protocol, range.indexes.map fun i => ⟨i.2, repeatedByte 0, 0⟩⟩
  built := servedBuilt

noncomputable def servedBaseline : CanonicalBaseline servedEnv where
  workload := .wallet
  plan := sampleBaseline.plan
  blocks := [plainBlock servedEnv (plainFacts 1 1 0 11)]
  roots := .retainedRange []
  sourceTipCheckpoint := ⟨⟨1, repeatedByte 1⟩, 0, .absent⟩
  settledTip := ⟨1, repeatedByte 1⟩
  createdAt := 0

noncomputable def localStore : Except CanonicalStoreError (RocksDbCanonicalStore Nat) := do
  let s₀ ← publishBaseline servedBaseline
  let (s₁, _) ← commitLiveAppend s₀
    (⟨s₀.eventFence, plainBlock servedEnv localFacts, [], ⟨1, repeatedByte 1⟩, 0⟩ :
      CanonicalLiveAppend servedEnv) sampleActivations
  .ok s₁

theorem servedBuilt_ok {height : Nat} (h : (prepareLiveBlock (E := servedEnv) servedLibrary
      (servedBlock (height + 1)) (servedCheckpoint height) (servedCheckpoint (height + 1))
      sampleActivations .none).isOk = true) :
    prepareLiveBlock servedLibrary (servedBlock (height + 1)) (servedCheckpoint height)
      (servedCheckpoint (height + 1)) sampleActivations .none =
      .ok (servedBuilt (height + 1), (servedBuilt (height + 1)).tipMetadata) := by
  obtain ⟨⟨block, sizes⟩, hp⟩ := isOk_eq_true.mp h
  simp only [servedBuilt, Nat.add_sub_cancel, hp, (prepareLiveBlock_monotone hp).1]

theorem servedChain_valid : servedChain.Valid servedLibrary sampleActivations .none 1 := by
  have hok : ∀ h ∈ [1, 2, 3], (prepareLiveBlock (E := servedEnv) servedLibrary
      (servedBlock (h + 1)) (servedCheckpoint h) (servedCheckpoint (h + 1))
      sampleActivations .none).isOk = true := by decide +kernel
  have hroots : ∀ h ∈ [1, 2, 3], (servedChain.placed (h + 1)).subtreeRoots.length = 0 := by
    decide +kernel
  have hbelow : ∀ h, 1 ≤ h → h < servedChain.tip → h ∈ [1, 2, 3] := by
    intro h hlow hhigh
    have : h < 4 := hhigh
    simp only [mem_cons, not_mem_nil, or_false]
    omega
  have hupto : ∀ h, 1 ≤ h → h ≤ servedChain.tip → h ∈ [1, 2, 3, 4] := by
    intro h hlow hhigh
    have : h ≤ 4 := hhigh
    simp only [mem_cons, not_mem_nil, or_false]
    omega
  have hheights : ∀ h ∈ [1, 2, 3, 4], (servedBlock h).height.val = h := by decide
  have hlinks : ∀ h ∈ [1, 2, 3], (servedBlock (h + 1)).parentHash = (servedBlock h).hash := by
    decide
  have hids : ∀ h ∈ [1, 2, 3, 4], (servedCheckpoint h).blockId = ⟨h, (servedBlock h).hash⟩ := by
    decide
  exact
    { height := fun h hlow hhigh => hheights h (hupto h hlow hhigh)
      linked := fun h hlow hhigh => hlinks h (hbelow h hlow hhigh)
      checkpoint_id := fun h hlow hhigh => hids h (hupto h hlow hhigh)
      prepares := fun h hlow hhigh => servedBuilt_ok (hok h (hbelow h hlow hhigh))
      roots_position := by
        intro range
        simp only [servedChain, SourceSubtreeRoots.buildRoots, List.map_map,
          SubtreeRootRange.indexes]
        rfl
      roots_height := by
        intro h hlow hhigh r hr
        rw [eq_nil_of_length_eq_zero (hroots h (hbelow h hlow hhigh))] at hr
        cases hr }

def ForkChecks (s : RocksDbCanonicalStore Nat) : Prop :=
  settledTip s = ⟨1, repeatedByte 1⟩ ∧ s.readyEvidence.visibleTip = ⟨2, repeatedByte 2⟩ ∧
    s.readyEvidence.visibleEpoch + 3 < u64Bound ∧
    visibleHash s 1 = some (repeatedByte 1) ∧ visibleHash s 2 = some (repeatedByte 2) ∧
    checkpointAt servedEnv s ⟨1, repeatedByte 1⟩ sampleActivations = .ok (servedCheckpoint 1) ∧
    readPersistedTipMetadata s.db ⟨1, repeatedByte 1⟩ = .ok .empty ∧
    (s.db.lookup Key.displacedState).isSome = false

noncomputable instance (s : RocksDbCanonicalStore Nat) : Decidable (ForkChecks s) :=
  inferInstanceAs (Decidable (_ ∧ _))

theorem localStore_checks : ∃ s, localStore = .ok s ∧ ForkChecks s := by
  have hok : (match localStore with | .ok s => decide (ForkChecks s) | .error _ => false) = true := by
    decide +kernel
  cases hs : localStore with
  | error e => simp [hs] at hok
  | ok s => exact ⟨s, rfl, by simpa [hs] using hok⟩

theorem local_run : ∃ st₀ st : LiveState servedEnv, Published st₀ ∧ LiveStep st₀ st ∧
    st.store.buildPlan = sampleBaseline.plan ∧ ForkChecks st.store ∧
    st.chain.map VisibleBlock.block =
      [plainBlock servedEnv (plainFacts 1 1 0 11), plainBlock servedEnv localFacts] := by
  obtain ⟨s, h, hchecks⟩ := localStore_checks
  simp only [localStore, bind_eq_ok] at h
  obtain ⟨s₀, h₀, ⟨s₁, _⟩, h₁, h⟩ := h
  cases h
  obtain ⟨st₀, hpublished, rfl, hblocks, hplan⟩ := exists_published h₀
  have step := LiveStep.append h₁
  refine ⟨st₀, _, hpublished, step, step.buildPlan_eq.trans hplan, hchecks, ?_⟩
  rw [map_append, hblocks]
  rfl

theorem ForkChecks.forksAt {st : LiveState servedEnv} (h : ForkChecks st.store) :
    ForksAt servedChain sampleActivations st 1 := by
  obtain ⟨hsettled, htip, _, hone, htwo, hcheckpoint, hsizes, _⟩ := h
  have hheight : (settledTip st.store).height = 1 := by rw [hsettled]
  have hlocal : st.store.readyEvidence.visibleTip.height = 2 := by rw [htip]
  exact
    { settled := by rw [hsettled]; rfl
      settled_le := by omega
      le_local := by omega
      le_tip := by decide
      agree := by
        intro height hlow hhigh _
        obtain rfl | rfl : height = 1 ∨ height = 2 := by omega
        · rw [hone]
          decide
        · rw [htwo]
          decide
      not_proper := fun h => absurd h (by decide)
      checkpoint := hcheckpoint
      sizes := hsizes }

theorem servedChain_serves {plan : CanonicalStoreBuildPlan} (hplan : plan = sampleBaseline.plan) :
    Serves servedChain servedLibrary sampleActivations ⟨"5s", none⟩ plan 1 := by
  subst hplan
  refine ⟨rfl, rfl, by simp, servedChain_valid, ?_, ?_⟩ <;> decide +kernel

end Sample

end Zinder.Ingest
