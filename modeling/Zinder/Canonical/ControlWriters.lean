import Zinder.Canonical.ControlExact
import Zinder.Canonical.Finality

/-!
# Zinder.Canonical.ControlWriters

Who writes a control record, and what they write.

A build plan comes from one of two constructors (`complete`, `checkpointed`, `mod.rs`), and READY
evidence from the publication of a baseline and from the live transitions after it. Whatever they
produce is a control state of `ControlValid`, so the record is read back as it was written
(`store_control_canonical`).
-/

namespace Zinder.Canonical

open Relation List

/-! ## Plans -/

def requiredCanonicalNetworkUpgrades : List String :=
  ["Overwinter", "Sapling", "Blossom", "Heartwood", "Canopy"]

variable (activations : NetworkUpgradeActivations)

def validateRequiredNetworkUpgrades : Except CanonicalStoreBuildPlanError Unit := do
  let _ ← collect (fun name =>
    rejectIf (activations.activationHeightByName name = none)
      (CanonicalStoreBuildPlanError.missingRequiredNetworkUpgrade name))
    requiredCanonicalNetworkUpgrades
  .ok ()

def validateCheckpointFrontierPresence (checkpoint : BlockId)
    (frontiers : CommitmentTreeFrontiers) : Except CanonicalStoreBuildPlanError Unit := do
  let _ ← collect (fun protocol =>
    rejectIf ((frontiers.get protocol).isSome ≠ poolIsActive protocol checkpoint.height activations)
      (CanonicalStoreBuildPlanError.predecessorFrontierActivationMismatch protocol checkpoint.height))
    shieldedProtocols
  .ok ()

namespace ControlBuildPlan

def complete (genesisBlockTimeSeconds : Nat) (buildTip : BlockId)
    (rawBlobRetention : RawBlobRetention) (reorgWindowBlocks : Nat) :
    Except CanonicalStoreBuildPlanError ControlBuildPlan := do
  validateRequiredNetworkUpgrades activations
  validate
    { network := activations.network
      networkUpgradeActivationsFingerprint := activations.fingerprint
      rawBlobRetention
      reorgWindowBlocks
      historyBounds := none
      historyPredecessor :=
        ⟨⟨0, genesisHash activations.network⟩, genesisBlockTimeSeconds, .absent⟩
      buildTip }

def checkpointed (checkpoint : CommitmentTreeCheckpoint)
    (buildTip : BlockId) (rawBlobRetention : RawBlobRetention) (reorgWindowBlocks : Nat) :
    Except CanonicalStoreBuildPlanError ControlBuildPlan := do
  validateRequiredNetworkUpgrades activations
  rejectIf (checkpoint.blockId.height = 0) .checkpointAtGenesis
  rejectIf (nextHeight checkpoint.blockId.height = none) .checkpointHasNoSuccessor
  validateCheckpointFrontierPresence activations checkpoint.blockId checkpoint.frontiers
  validate
    { network := activations.network
      networkUpgradeActivationsFingerprint := activations.fingerprint
      rawBlobRetention
      reorgWindowBlocks
      historyBounds := some checkpoint.blockId
      historyPredecessor := checkpoint
      buildTip }

end ControlBuildPlan

section Plans

variable {T : TreeLibrary} {activations : NetworkUpgradeActivations} {buildTip : BlockId}
  {retention : RawBlobRetention} {window : Nat} {plan : ControlBuildPlan}

theorem validate_self {plan plan' : ControlBuildPlan} (h : plan.validate = .ok plan') :
    plan.validate = .ok plan := by
  rw [h, validate_eq_ok h]

theorem complete_planValid {time : Nat} (hwindow : window ≠ 0) (hwindowLt : window < u32Bound)
    (htime : time < u32Bound) (htip : buildTip.height < u32Bound)
    (h : ControlBuildPlan.complete activations time buildTip retention window = .ok plan) :
    PlanValid T plan := by
  simp only [ControlBuildPlan.complete, bind_eq_ok] at h
  obtain ⟨_, -, h⟩ := h
  obtain rfl := validate_eq_ok h
  refine ⟨hwindow, hwindowLt, ⟨rfl, (by decide : 0 < u32Bound), htime, ?_⟩, htip, validate_self h⟩
  intro protocol
  cases protocol <;> simp [FrontierValid, CommitmentTreeFrontiers.get, CommitmentTreeFrontiers.absent]

theorem checkpointed_planValid {checkpoint : CommitmentTreeCheckpoint} (hwindow : window ≠ 0)
    (hwindowLt : window < u32Bound) (htime : checkpoint.blockTimeSeconds < u32Bound)
    (htip : buildTip.height < u32Bound)
    (hfrontiers : ∀ protocol, FrontierValid T protocol (checkpoint.frontiers.get protocol))
    (h : ControlBuildPlan.checkpointed activations checkpoint buildTip retention window =
      .ok plan) :
    PlanValid T plan := by
  simp only [ControlBuildPlan.checkpointed, bind_eq_ok, rejectIf_eq_ok] at h
  obtain ⟨_, -, _, -, _, hnext, _, -, h⟩ := h
  obtain rfl := validate_eq_ok h
  obtain ⟨next, hnext⟩ := Option.ne_none_iff_exists'.mp hnext
  have hlt := (nextHeight_eq_some.mp hnext).1
  exact ⟨hwindow, hwindowLt, ⟨⟨rfl, hlt⟩, Nat.lt_of_succ_lt hlt, htime, hfrontiers⟩, htip,
    validate_self h⟩

end Plans

/-! ## Evidence -/

section Evidence

variable {E : Env Bytes32} {st₀ st st' : LiveState E}

structure Positioned (st : LiveState E) : Prop where
  first : st.store.readyEvidence.firstRetainedBlock.height = st.start.height + 1
  pointer : PointerExact st.store.buildPlan.buildTip st.store.readyEvidence.visibleEpoch
    st.store.readyEvidence.visibleEventSequence st.store.readyEvidence.visibleTip

theorem Published.positioned (h : Published st₀) : Positioned st₀ := by
  obtain ⟨hroots, h⟩ := h
  obtain ⟨hfirst, htip⟩ := publishBaseline_position h
  obtain ⟨_, _, _, _, _, steps⟩ := publishBaseline_steps h
  obtain rfl := steps.store
  exact ⟨hfirst, .inl ⟨rfl, rfl, htip⟩⟩

theorem PointerExact.epoch_pos {buildTip tip : BlockId} {epoch event : Nat}
    (h : PointerExact buildTip epoch event tip) : 0 < epoch := by
  rcases h with ⟨h, -, -⟩ | ⟨h, -⟩ <;> omega

theorem Positioned.step (h : Positioned st) (step : LiveStep st st') : Positioned st' := by
  have hpos := h.pointer.epoch_pos
  cases step with
  | append hcommit =>
    obtain ⟨_, _, p, _, hready, _, rfl, _⟩ := commitLiveAppend_eq_ok hcommit
    constructor
    · simp only [hready]
      exact h.first
    · simp only [hready]
      exact .inr ⟨Nat.succ_lt_succ hpos, rfl⟩
  | replacement _ hcommit =>
    obtain ⟨p, hp, rfl⟩ := commitLiveReplacement_eq_ok hcommit
    obtain ⟨steps⟩ := prepareLiveReplacement_steps hp
    have hready := steps.ready
    constructor
    · simp only [hready]
      exact h.first
    · simp only [hready]
      exact .inr ⟨Nat.succ_lt_succ hpos, rfl⟩

theorem Positioned.run (h : Positioned st₀) (run : ReflTransGen LiveStep st₀ st) :
    Positioned st := by
  induction run with
  | refl => exact h
  | tail _ step ih => exact ih.step step

theorem heightSpan_add (start n : Nat) (hn : 0 < n) :
    heightSpan (start + 1) (start + n) = some n := by
  have hsub : checkedSub (start + n) (start + 1) = some (n - 1) := by
    rw [checkedSub_eq_some]
    omega
  rw [heightSpan, hsub, Option.map_some]
  congr 1
  omega

theorem tipId_height_lt (start : BlockId) {chain : Chain E} (hchain : chain ≠ []) :
    (tipId start chain).height < u32Bound := by
  induction chain generalizing start with
  | nil => exact absurd rfl hchain
  | cons v chain ih =>
    cases chain with
    | nil => exact v.block.facts.blockHeader.height.isLt
    | cons w chain => exact ih v.block.blockId (cons_ne_nil _ _)

theorem checkpointValid_take {start : BlockId} {chain : Chain E} (hlinked : Linked start chain)
    (hbytes : ∀ v ∈ chain, 0 < v.block.replayBytes) {k : Nat} (hpos : 0 < k)
    (hle : k ≤ chain.length) (hlt : (chain.map fun v => v.block.replayBytes).sum < u64Bound) :
    CheckpointValid (start.height + 1) (start.height + chain.length)
      (chain.map fun v => v.block.replayBytes).sum (sequenceSummary start (chain.take k)) := by
  have hlength : (chain.take k).length = k := length_take_of_le hle
  have hheight : (tipId start (chain.take k)).height = start.height + k :=
    hlinked.tipId_take_height hle
  have hne : chain.take k ≠ [] := by
    rw [← length_pos_iff, hlength]
    exact hpos
  have hsum : ((chain.take k).map fun v => v.block.replayBytes).sum ≤
      (chain.map fun v => v.block.replayBytes).sum := by
    conv_rhs => rw [← take_append_drop k chain, map_append, sum_append]
    exact Nat.le_add_right _ _
  have hsumNe : ((chain.take k).map fun v => v.block.replayBytes).sum ≠ 0 := by
    obtain ⟨v, rest, htake⟩ := exists_cons_of_ne_nil hne
    have hv : v ∈ chain := mem_of_mem_take (htake ▸ mem_cons_self ..)
    have := hbytes v hv
    rw [htake, map_cons, sum_cons]
    omega
  have hheightLt := tipId_height_lt start hne
  refine ⟨hheightLt, ?_, Nat.lt_of_le_of_lt hsum hlt, ?_, ?_, ?_, hsumNe, hsum⟩
  · simp only [sequenceSummary, hlength]
    rw [hheight] at hheightLt
    exact Nat.lt_trans (by omega : k < u32Bound) (by decide)
  · simp [sequenceSummary]
  · simp only [sequenceSummary, hheight]
    omega
  · simp only [sequenceSummary, hheight, hlength]
    exact heightSpan_add _ _ hpos

/-- The evidence of every store reached from a published baseline, bound to a manifest, can be
written. -/
theorem readyValid_of_run (hbytes : ∀ b : CanonicalBuildBlock E, 0 < b.replayBytes)
    (h : Published st₀) (run : ReflTransGen LiveStep st₀ st) {sha256 : Bytes32}
    (hsha : ∃ b ∈ sha256.bytes, b ≠ 0) (hepoch : st.store.readyEvidence.visibleEpoch < u64Bound)
    (hreplay : st.store.readyEvidence.visibleLogicalReplayBytes < u64Bound) :
    ReadyValid (st.start.height + 1) st.store.buildPlan.buildTip
      ⟨st.store.readyEvidence, canonicalConstructionManifestFormatVersion, sha256⟩ := by
  obtain ⟨k, inv⟩ := h.run_invariant run
  have hposition := h.positioned.run run
  obtain ⟨htip, hcount, -, htotal⟩ := inv.visible_eq
  have hheight := inv.tip_height
  have hpos : 0 < st.chain.length := Nat.lt_of_lt_of_le inv.settled_pos inv.settled_le
  have htipLt : st.store.readyEvidence.visibleTip.height < u32Bound := by
    rw [htip]
    exact tipId_height_lt _ (ne_nil_of_length_pos hpos)
  have hcheckpoint := checkpointValid_take inv.linked (fun v _ => hbytes v.block)
    inv.settled_pos inv.settled_le (htotal ▸ hreplay)
  have htotalNe : st.store.readyEvidence.visibleLogicalReplayBytes ≠ 0 := by
    have hle := hcheckpoint.bytes_le
    have hne := hcheckpoint.bytes_ne
    rw [htotal]
    omega
  have hevent : st.store.readyEvidence.visibleEventSequence < u64Bound := inv.fence ▸ hepoch
  refine ⟨⟨?_, htipLt, hepoch, hevent, ?_⟩, hreplay, ?_, hposition.first,
    hposition.pointer, ?_, htotalNe, rfl, hsha⟩
  · exact Nat.lt_of_le_of_lt (hposition.first.trans_le (by omega)) htipLt
  · exact Nat.lt_trans (hcount.trans_lt (by omega : st.chain.length < u32Bound)) (by decide)
  · change CheckpointValid st.store.readyEvidence.firstRetainedBlock.height
      st.store.readyEvidence.visibleTip.height _ _
    rw [hposition.first, hheight, htotal, inv.settled]
    exact hcheckpoint
  · change heightSpan st.store.readyEvidence.firstRetainedBlock.height
      st.store.readyEvidence.visibleTip.height = some st.store.readyEvidence.visibleBlockCount
    rw [hposition.first, hheight, hcount]
    exact heightSpan_add _ _ hpos

end Evidence

/-! ## The record -/

section Record

variable {T : TreeLibrary}

theorem exists_encodeFrontier {protocol : ShieldedProtocol}
    {frontier : Option CommitmentTreeFrontier}
    (h : FrontierValid T protocol frontier) : ∃ w, encodeFrontier protocol frontier = .ok w := by
  cases frontier with
  | none => exact ⟨_, rfl⟩
  | some f =>
    have hlength := (CommitmentTreeFrontier.fromCanonicalFinalState_eq_ok (h f rfl)).1
    have hfits : ¬ 2 ^ 16 ≤ f.finalStateBytes.length :=
      Nat.not_le.mpr (Nat.lt_of_le_of_lt hlength (by decide))
    exact ⟨_, by rw [encodeFrontier, rejectIf_of_not hfits]; rfl⟩

theorem exists_encodeStoreControl {control : DecodedStoreControl} (h : ControlValid T control) :
    ∃ w, encodeStoreControl control = .ok w := by
  obtain ⟨s, hs⟩ := exists_encodeFrontier (h.plan.history.frontiers .sapling)
  obtain ⟨o, ho⟩ := exists_encodeFrontier (h.plan.history.frontiers .orchard)
  obtain ⟨i, hi⟩ := exists_encodeFrontier (h.plan.history.frontiers .ironwood)
  have hfrontiers : encodePredecessorFrontiers control.buildPlan.historyPredecessor.frontiers =
      .ok (s ++ (o ++ i)) := by
    simp only [encodePredecessorFrontiers, bind_eq_ok]
    exact ⟨s, hs, o, ho, i, hi, rfl⟩
  rw [encodeStoreControl_eq, encodeStoreControlPrefix, hfrontiers]
  exact ⟨_, rfl⟩

theorem PlanValid.firstAvailableHeight {plan : ControlBuildPlan} (h : PlanValid T plan) :
    plan.historyBounds.firstAvailableHeight = plan.historyPredecessor.blockId.height + 1 := by
  have hbounds := h.history.bounds
  cases hb : plan.historyBounds with
  | none =>
    rw [hb] at hbounds
    rw [show plan.historyPredecessor.blockId.height = 0 from hbounds]
    rfl
  | some checkpoint =>
    rw [hb] at hbounds
    rw [← hbounds.1]
    rfl

/-- The control record is canonical. What is written is read back, what is read is written back as the
same bytes, and no two byte strings are read as one control state; and the plans of the two
constructors, with the evidence of every store reached from a published baseline of that plan, are
control states that can be written. -/
theorem store_control_canonical (T : TreeLibrary) :
    (∀ control, ControlValid T control → ∃ encoded, encodeStoreControl control = .ok encoded ∧
      decodeStoreControl T encoded = .ok control) ∧
    (∀ encoded control, decodeStoreControl T encoded = .ok control →
      ControlValid T control ∧ encodeStoreControl control = .ok encoded) ∧
    (∀ encoded encoded' control, decodeStoreControl T encoded = .ok control →
      decodeStoreControl T encoded' = .ok control → encoded = encoded') ∧
    (∀ activations time buildTip retention window plan, window ≠ 0 → window < u32Bound →
      time < u32Bound → buildTip.height < u32Bound →
      ControlBuildPlan.complete activations time buildTip retention window = .ok plan →
      PlanValid T plan) ∧
    (∀ activations checkpoint buildTip retention window plan, window ≠ 0 → window < u32Bound →
      checkpoint.blockTimeSeconds < u32Bound → buildTip.height < u32Bound →
      (∀ protocol, FrontierValid T protocol (checkpoint.frontiers.get protocol)) →
      ControlBuildPlan.checkpointed activations checkpoint buildTip retention window = .ok plan →
      PlanValid T plan) ∧
    (∀ (E : Env Bytes32) (st₀ st : LiveState E) (plan : ControlBuildPlan) (workload key sha256),
      (∀ b : CanonicalBuildBlock E, 0 < b.replayBytes) → Published st₀ →
      ReflTransGen LiveStep st₀ st → PlanValid T plan →
      plan.historyPredecessor = st.store.buildPlan.historyPredecessor →
      plan.buildTip = st.store.buildPlan.buildTip → (∃ b ∈ sha256.bytes, b ≠ 0) →
      st.store.readyEvidence.visibleEpoch < u64Bound →
      st.store.readyEvidence.visibleLogicalReplayBytes < u64Bound →
      ControlValid T ⟨plan.network, workload, plan, key, .ready
        ⟨st.store.readyEvidence, canonicalConstructionManifestFormatVersion, sha256⟩⟩) := by
  refine ⟨?_, fun _ _ h => decodeStoreControl_eq_ok.mp h, ?_, ?_, ?_, ?_⟩
  · intro control hvalid
    obtain ⟨encoded, hencoded⟩ := exists_encodeStoreControl hvalid
    exact ⟨encoded, hencoded, decodeStoreControl_eq_ok.mpr ⟨hvalid, hencoded⟩⟩
  · intro encoded encoded' control h h'
    have heq := (decodeStoreControl_eq_ok.mp h).2.symm.trans (decodeStoreControl_eq_ok.mp h').2
    exact Except.ok.inj heq
  · intro _ _ _ _ _ _ hwindow hwindowLt htime htip h
    exact complete_planValid hwindow hwindowLt htime htip h
  · intro _ _ _ _ _ _ hwindow hwindowLt htime htip hfrontiers h
    exact checkpointed_planValid hwindow hwindowLt htime htip hfrontiers h
  · intro E st₀ st plan workload key sha256 hbytes hpublished run hplan hpredecessor htip hsha hepoch
      hreplay
    refine ⟨rfl, hplan, ?_⟩
    change ReadyValid plan.historyBounds.firstAvailableHeight plan.buildTip _
    rw [hplan.firstAvailableHeight, hpredecessor, htip]
    exact readyValid_of_run hbytes hpublished run hsha hepoch hreplay

end Record

section Sample

private def sampleControl : DecodedStoreControl where
  network := .zcashMainnet
  workload := .explorer
  buildPlan :=
    { network := .zcashMainnet
      networkUpgradeActivationsFingerprint := repeatedByte 11
      rawBlobRetention := .transactions
      reorgWindowBlocks := 100
      historyBounds := none
      historyPredecessor := ⟨⟨0, genesisHash .zcashMainnet⟩, 1477671596, .absent⟩
      buildTip := ⟨3, repeatedByte 3⟩ }
  cursorAuthKey := repeatedByte 7
  buildState := .ready ⟨⟨⟨1, repeatedByte 1⟩, ⟨3, repeatedByte 3⟩, 1, 1, 3,
    repeatedByte 5, 30, ⟨⟨2, repeatedByte 2⟩, 2, ⟨2, repeatedByte 4⟩,
      20⟩⟩, 4, repeatedByte 6⟩

/-- The record of a READY mainnet store of three blocks, written and read back. -/
theorem store_control_canonical_ready :
    ∃ encoded, encodeStoreControl sampleControl = .ok encoded ∧
      decodeStoreControl plainTrees encoded = .ok sampleControl := by
  refine (store_control_canonical plainTrees).1 sampleControl ⟨rfl, ⟨by decide, by decide, ⟨rfl, by decide,
    by decide, ?_⟩, by decide, by decide⟩, ?_⟩
  · intro protocol
    cases protocol <;> simp [FrontierValid, sampleControl, CommitmentTreeFrontiers.get,
      CommitmentTreeFrontiers.absent]
  · refine ⟨⟨by decide, by decide, by decide, by decide, by decide⟩, by decide, ⟨by decide, by decide,
      by decide, rfl, by decide, by decide, by decide, by decide⟩, rfl, .inl ⟨rfl, rfl, rfl⟩, by decide,
      by decide, rfl, 6, by decide, by decide⟩

end Sample

end Zinder.Canonical
