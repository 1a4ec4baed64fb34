import Zinder.Canonical.BaselineSpec
import Zinder.Core.ListedCodec

/-!
# Zinder.Canonical.Finality

Whole runs of live transitions from a published baseline.

* `run_preserves` — the step theorem carried along a run;
* `TrueSummary` — what the READY evidence says about the visible chain, and that it is true;
* `Ancestor` — a path of parent hashes through the stored headers;
* `sample_run` — a baseline, an append and a replacement on transparent blocks.
-/

namespace Zinder.Canonical

open Relation List

variable {D : Type} [DecidableEq D] {E : Env D}

/-! ## Runs -/

variable {plan : CanonicalStoreBuildPlan} {chain : Chain E} {st st' : LiveState E} {k : Nat}

theorem LiveStep.buildPlan_eq (step : LiveStep st st') :
    st'.store.buildPlan = st.store.buildPlan := by
  cases step with
  | append h =>
    obtain ⟨_, _, _, _, _, _, rfl, _⟩ := commitLiveAppend_eq_ok h
    rfl
  | replacement _ h =>
    obtain ⟨_, _, rfl⟩ := commitLiveReplacement_eq_ok h
    rfl

theorem run_buildPlan_eq (run : ReflTransGen LiveStep st st') :
    st'.store.buildPlan = st.store.buildPlan := by
  induction run with
  | refl => rfl
  | tail _ step ih => exact step.buildPlan_eq.trans ih

theorem run_preserves (run : ReflTransGen LiveStep st st') (inv : LiveInvariant st k) :
    ∃ k', k ≤ k' ∧ LiveInvariant st' k' ∧ st'.chain.take k = st.chain.take k := by
  induction run with
  | refl => exact ⟨k, le_rfl, inv, rfl⟩
  | tail _ step ih =>
    obtain ⟨k₁, hk₁, inv₁, htake₁⟩ := ih
    obtain ⟨k₂, hk₂, inv₂, htake₂⟩ := step.preserves inv₁
    refine ⟨k₂, hk₁.trans hk₂, inv₂, ?_⟩
    have := congrArg (List.take k) htake₂
    rw [take_take, take_take, Nat.min_eq_left hk₁] at this
    rw [this, htake₁]

theorem Published.run_invariant {st₀ st : LiveState E} (h : Published st₀)
    (run : ReflTransGen LiveStep st₀ st) : ∃ k, LiveInvariant st k := by
  obtain ⟨k, inv⟩ := h.invariant
  obtain ⟨k', _, inv', _⟩ := run_preserves run inv
  exact ⟨k', inv'⟩

omit [DecidableEq D] in
theorem LiveInvariant.settled_height {st : LiveState E} (inv : LiveInvariant st k) :
    st.store.readyEvidence.sequenceCheckpoint.through.height = st.start.height + k := by
  rw [inv.settled]
  exact inv.linked.tipId_take_height inv.settled_le

/-! ## A sample run -/

section Sample

def plainCoinbase (id : TransactionId) : CanonicalTransactionFacts where
  publicFacts :=
    { transactionId := id, authDigest := none, wtxid := none, version := .v4
      consensusBranchId := none, lockTime := .unlocked, expiryHeight := none, sizeBytes := 0
      counts := ⟨0, 0, 0, 0, 0, 0, 0⟩, orchardValueBalanceZat := none, orchardAnchor := none
      ironwoodValueBalanceZat := none, privacyShape := .coinbase, isCoinbase := true
      unsupportedSections := [] }
  serializedBytesDigest := []
  intrinsicValueBalances := ⟨0, 0, 0, 0⟩
  transparentInputs := []
  transparentOutputs := []

/-- A block of one coinbase transaction; block and transaction are named by one byte each. -/
def plainFacts (height : U32) (hash parent id : UInt8) : CanonicalBlockFacts where
  blockHeader :=
    { height, blockHash := repeatedByte hash, parentHash := repeatedByte parent
      merkleRootHash := repeatedByte 0, commitmentBytes := repeatedByte 0, blockTime := 0
      bits := 0, nonce := repeatedByte 0, version := 4, blockSizeBytes := 0 }
  serializedBytesDigest := []
  transactions := [plainCoinbase (repeatedByte id)]

/-- A block without shielded data, as a wallet store without raw retention takes it. -/
def plainBlock (E : Env D) (facts : CanonicalBlockFacts) : CanonicalBuildBlock E where
  facts
  replayEnvelope := ⟨encodeCanonicalBlockReplay E.hash E.replay facts, facts, rfl⟩
  compactBlock := ⟨facts.height, facts.blockHash, facts.parentHash, 0, [], .empty⟩
  tipMetadata := .empty
  treeStateCheckpoint := some ⟨facts.blockId, 0, .absent⟩
  blockFinalNoteCommitmentRoots := none
  transactionBlobs := []
  blockBlob := none

/-- No shielded pool is ever active, so the tree library is never asked. -/
def plainTrees : TreeLibrary where
  Node := Unit
  Frontier := Unit
  empty := ()
  append _ _ := ()
  root _ := ()
  treeSize _ := 0
  rootBytes _ _ := repeatedByte 0
  decodeCommitment _ _ := none
  readFinalState _ _ := none
  writeFinalState _ _ := none

/-- Block 1, its child at height 2, and the block that replaces the child. -/
def sampleFacts : List CanonicalBlockFacts :=
  [plainFacts 1 1 0 11, plainFacts 2 2 1 12, plainFacts 2 3 1 13]

noncomputable def sampleEnv : Env Nat :=
  ⟨listedFactsHash sampleFacts, listedReplayCodec sampleFacts (listedRecords 3), plainTrees⟩

def sampleActivations : NetworkUpgradeActivations := ⟨.zcashRegtest, repeatedByte 0, fun _ => none⟩

noncomputable def sampleBaseline : CanonicalBaseline sampleEnv where
  workload := .wallet
  plan :=
    { network := .zcashRegtest
      networkUpgradeActivationsFingerprint := repeatedByte 0
      rawBlobRetention := .none
      reorgWindowBlocks := 2
      historyBounds := none
      historyPredecessor := ⟨⟨0, repeatedByte 0⟩, 0, .absent⟩
      buildTip := ⟨1, repeatedByte 1⟩
      reorgWindowBlocks_pos := by decide
      reorgWindowBlocks_lt := by decide
      firstAvailable := rfl
      predecessor_lt_buildTip := by decide }
  blocks := [plainBlock sampleEnv (plainFacts 1 1 0 11)]
  roots := .retainedRange []
  sourceTipCheckpoint := ⟨⟨1, repeatedByte 1⟩, 0, .absent⟩
  settledTip := ⟨1, repeatedByte 1⟩
  createdAt := 0

noncomputable def sampleAppend (s : RocksDbCanonicalStore Nat) : CanonicalLiveAppend sampleEnv :=
  ⟨s.eventFence, plainBlock sampleEnv (plainFacts 2 2 1 12), [], ⟨1, repeatedByte 1⟩, 0⟩

noncomputable def sampleReplacement (s : RocksDbCanonicalStore Nat) :
    CanonicalLiveReplacement sampleEnv :=
  ⟨s.eventFence, [⟨plainBlock sampleEnv (plainFacts 2 3 1 13), []⟩], 0⟩

noncomputable def sampleStores : Except CanonicalStoreError (RocksDbCanonicalStore Nat) := do
  let s₀ ← publishBaseline sampleBaseline
  let (s₁, _) ← commitLiveAppend s₀ (sampleAppend s₀) sampleActivations
  let (s₂, _) ← commitLiveReplacement s₁ (sampleReplacement s₁) sampleActivations
  .ok s₂

theorem sample_run : ∃ st₀ st₁ st₂ : LiveState sampleEnv,
    Published st₀ ∧ LiveStep st₀ st₁ ∧ LiveStep st₁ st₂ ∧
      st₀.store.buildPlan = sampleBaseline.plan ∧
      st₀.chain.map VisibleBlock.block = [plainBlock sampleEnv (plainFacts 1 1 0 11)] ∧
      st₁.chain.map VisibleBlock.block =
        [plainBlock sampleEnv (plainFacts 1 1 0 11), plainBlock sampleEnv (plainFacts 2 2 1 12)] ∧
      st₂.chain.map VisibleBlock.block =
        [plainBlock sampleEnv (plainFacts 1 1 0 11), plainBlock sampleEnv (plainFacts 2 3 1 13)] := by
  obtain ⟨s₂, h⟩ : ∃ s₂, sampleStores = .ok s₂ := isOk_eq_true.mp (by decide +kernel)
  simp only [sampleStores, bind_eq_ok] at h
  obtain ⟨s₀, h₀, ⟨s₁, _⟩, h₁, ⟨_, _⟩, h₂, _⟩ := h
  obtain ⟨st₀, hpublished, rfl, hblocks, hplan⟩ := exists_published h₀
  refine ⟨st₀, _, _, hpublished, .append h₁, .replacement rfl h₂, hplan, hblocks, ?_, ?_⟩
  · rw [map_append, hblocks]
    rfl
  · rw [map_append, below_blocks, map_append, hblocks]
    rfl

end Sample

/-! ## The evidence -/

def RocksDbCanonicalStore.epochRecord (s : RocksDbCanonicalStore D) : Option ChainEpochRecord :=
  s.db.lookup (Key.chainEpoch s.readyEvidence.visibleEpoch)

structure TrueSummary (st : LiveState E) : Prop where
  replayRows : ∀ v ∈ st.chain,
    st.store.db.lookup (Key.blockReplay v.block.height) = some v.block.replayEnvelope.bytes
  visibleTip : st.store.readyEvidence.visibleTip = tipId st.start st.chain
  visibleBlockCount : st.store.readyEvidence.visibleBlockCount = st.chain.length
  visibleSequenceDigest : st.store.readyEvidence.visibleSequenceDigest =
    (CanonicalBlockFactsSequenceDigest.ofItems E.hash
      (st.chain.map fun v => v.block.digest)).bytes
  visibleLogicalReplayBytes : st.store.readyEvidence.visibleLogicalReplayBytes =
    (st.chain.map fun v => v.block.replayEnvelope.bytes.length).sum
  /-- The settled tip of the visible epoch, and the same summary of the blocks up to it. -/
  settled : ∃ e, st.store.epochRecord = some e ∧
    e.visibleTip = st.store.readyEvidence.visibleTip ∧
    st.store.readyEvidence.sequenceCheckpoint =
      sequenceSummary st.start (st.chain.filter fun v => v.block.height ≤ e.settledTip.height) ∧
    st.store.readyEvidence.sequenceCheckpoint.through = e.settledTip ∧
    st.store.readyEvidence.visibleTip.height - e.settledTip.height ≤
      st.store.buildPlan.reorgWindowBlocks
  fence : st.store.readyEvidence.visibleEpoch = st.store.readyEvidence.visibleEventSequence

omit [DecidableEq D] in
theorem Linked.filter_le_eq_take {start : BlockId} (h : Linked start chain) (n : Nat) :
    chain.filter (fun v => v.block.height ≤ start.height + n) = chain.take n := by
  induction chain generalizing start n with
  | nil => simp
  | cons v chain ih =>
    obtain ⟨hheight, _, hrest⟩ := h
    cases n with
    | zero =>
      rw [take_zero, filter_eq_nil_iff]
      intro w hw
      have hlt : start.height < w.block.height := by
        rcases mem_cons.mp hw with rfl | hw
        · omega
        · have := hrest.lt_height hw
          rw [CanonicalBuildBlock.blockId_height] at this
          omega
      simpa using hlt
    | succ n =>
      have hle : v.block.height ≤ start.height + (n + 1) := by omega
      have hshift : start.height + (n + 1) = v.block.blockId.height + n := by
        rw [CanonicalBuildBlock.blockId_height]
        omega
      rw [take_succ_cons, filter_cons_of_pos (by simpa using hle), hshift, ih hrest n]

omit [DecidableEq D] in
theorem LiveInvariant.trueSummary {st : LiveState E} (inv : LiveInvariant st k) :
    TrueSummary st := by
  obtain ⟨htip, hcount, hdigest, hbytes⟩ := inv.visible_eq
  obtain ⟨e, he, hevisible, hesettled⟩ := inv.epoch
  refine ⟨fun v hv => inv.holds.lookup_replay hv, htip, hcount,
    congrArg CanonicalBlockFactsSequenceDigest.bytes hdigest, hbytes,
    ⟨e, he, hevisible, ?_, hesettled.symm, ?_⟩, inv.fence⟩
  · have hheight : e.settledTip.height = st.start.height + k := by
      rw [hesettled, inv.settled_height]
    have hfilter := inv.linked.filter_le_eq_take k
    rw [hheight]
    exact inv.settled.trans (congrArg (sequenceSummary st.start) hfilter.symm)
  · rw [hesettled]
    exact inv.window

/-- After every run of live transitions from a published baseline the evidence is a true summary
of the visible chain. -/
theorem readyEvidence_trueSummary {st₀ st : LiveState E} (h : Published st₀)
    (run : ReflTransGen LiveStep st₀ st) : TrueSummary st := by
  obtain ⟨k, inv⟩ := h.run_invariant run
  exact inv.trueSummary

theorem readyEvidence_trueSummary_sample : ∃ st₀ st : LiveState sampleEnv,
    Published st₀ ∧ ReflTransGen LiveStep st₀ st ∧ TrueSummary st := by
  obtain ⟨st₀, st₁, st₂, hpublished, h₁, h₂, _⟩ := sample_run
  have run : ReflTransGen LiveStep st₀ st₂ := (ReflTransGen.single h₁).tail h₂
  exact ⟨st₀, st₂, hpublished, run, readyEvidence_trueSummary hpublished run⟩

/-! ## Finality -/

/-- `ancestor` is reached from `tip` by following parent hashes of stored headers, one height at a
time; the two may be equal. -/
inductive Ancestor (db : Db D) (ancestor : BlockId) : BlockId → Prop where
  | refl : Ancestor db ancestor ancestor
  | child {parent tip : BlockId} {header : BlockHeaderArtifact}
      (hparent : Ancestor db ancestor parent) (hheight : tip.height = parent.height + 1)
      (hheader : db.lookup (Key.blockHeader tip.height) = some header)
      (hhash : header.blockHash = tip.hash) (hlink : header.parentHash = parent.hash) :
      Ancestor db ancestor tip

section

variable {earlier : List SubtreeRootArtifact} {db : Db D} (h : HoldsChain plan earlier chain db)
include h

omit [DecidableEq D] in
theorem HoldsChain.ancestor {k n : Nat} (hkn : k ≤ n) (hn : n ≤ chain.length) :
    Ancestor db (tipId plan.historyPredecessor.blockId (chain.take k))
      (tipId plan.historyPredecessor.blockId (chain.take n)) := by
  induction n, hkn using Nat.le_induction with
  | base => exact .refl
  | succ n _ ih =>
    have hv : chain[n]? = some chain[n] := getElem?_eq_getElem hn
    have hmem : chain[n] ∈ chain := getElem_mem hn
    have hlink := h.linked.drop n
    rw [drop_eq_getElem_cons hn] at hlink
    rw [take_succ_eq hv, tipId_concat]
    exact .child (ih (by omega)) hlink.1 (h.lookup_header hmem) rfl hlink.2.1

omit [DecidableEq D] in
theorem HoldsChain.lookup_header_of_le {height : Nat}
    (hle : height ≤ plan.historyPredecessor.blockId.height) :
    db.lookup (Key.blockHeader height) = none := by
  rw [← Option.not_isSome_iff_eq_none]
  intro hsome
  rcases h.owner_of_lookup (k := .blockHeader height) rfl hsome with hkey | ⟨v, hv, hmem⟩
  · cases hkey
  · have hheight : height = v.block.height := mem_ownedKeys.mp hmem
    have := h.linked.lt_height hv
    omega

end

omit [DecidableEq D] in
theorem lookup_header_of_take_eq {earlier earlier' : List SubtreeRootArtifact}
    {chain chain' : Chain E} {db db' : Db D} (h : HoldsChain plan earlier chain db)
    (h' : HoldsChain plan earlier' chain' db') (hk : k ≤ chain.length)
    (htake : chain'.take k = chain.take k) {height : Nat}
    (hle : height ≤ plan.historyPredecessor.blockId.height + k) :
    db'.lookup (Key.blockHeader height) = db.lookup (Key.blockHeader height) := by
  by_cases hlow : height ≤ plan.historyPredecessor.blockId.height
  · rw [h.lookup_header_of_le hlow, h'.lookup_header_of_le hlow]
  · obtain ⟨i, rfl⟩ : ∃ i, height = plan.historyPredecessor.blockId.height + 1 + i :=
      ⟨_, (Nat.add_sub_of_le (by omega)).symm⟩
    have hv : chain[i]? = some chain[i] := getElem?_eq_getElem (by omega)
    have hv' : chain'[i]? = some chain[i] := by
      rw [← getElem?_take_of_lt (show i < k by omega), htake,
        getElem?_take_of_lt (by omega), hv]
    rw [← h.linked.height_of_getElem? hv, h.lookup_header (mem_of_getElem? hv),
      h'.lookup_header (mem_of_getElem? hv')]

/-- Settled finality. Between any two states of a run, the header at every height up to the earlier
settled tip stays, the settled height does not fall, and the earlier settled tip is an ancestor of
the later visible tip. -/
theorem settled_finality {st₀ st st' : LiveState E} (h : Published st₀)
    (run : ReflTransGen LiveStep st₀ st) (later : ReflTransGen LiveStep st st') :
    ∃ e e', st.store.epochRecord = some e ∧ st'.store.epochRecord = some e' ∧
      (∀ height, height ≤ e.settledTip.height →
        retainedBlockHash st'.store.db height = retainedBlockHash st.store.db height) ∧
      e.settledTip.height ≤ e'.settledTip.height ∧
      Ancestor st'.store.db e.settledTip e'.visibleTip := by
  obtain ⟨k, inv⟩ := h.run_invariant run
  obtain ⟨k', hkk', inv', htake⟩ := run_preserves later inv
  obtain ⟨e, he, _, hsettled⟩ := inv.epoch
  obtain ⟨e', he', hvisible', hsettled'⟩ := inv'.epoch
  have hplan : st'.store.buildPlan = st.store.buildPlan := run_buildPlan_eq later
  have hstart : st'.start = st.start := by rw [LiveState.start, LiveState.start, hplan]
  refine ⟨e, e', he, he', fun height hle => ?_, ?_, ?_⟩
  · rw [hsettled, inv.settled_height] at hle
    have holds' : HoldsChain st.store.buildPlan st'.earlierRoots st'.chain st'.store.db :=
      hplan ▸ inv'.holds
    rw [retainedBlockHash, retainedBlockHash,
      lookup_header_of_take_eq inv.holds holds' inv.settled_le htake hle]
  · rw [hsettled, hsettled', inv.settled_height, inv'.settled_height, hstart]
    omega
  · have hancestor := inv'.holds.ancestor (hkk'.trans inv'.settled_le) le_rfl
    rw [take_length, htake] at hancestor
    rw [hsettled, inv.settled, hvisible', inv'.tip_eq, ← hstart]
    exact hancestor

theorem settled_finality_sample : ∃ st₀ st st' : LiveState sampleEnv, ∃ e e',
    Published st₀ ∧ ReflTransGen LiveStep st₀ st ∧ ReflTransGen LiveStep st st' ∧
      st.store.epochRecord = some e ∧ st'.store.epochRecord = some e' ∧
      Ancestor st'.store.db e.settledTip e'.visibleTip := by
  obtain ⟨st₀, st₁, st₂, hpublished, h₁, h₂, _⟩ := sample_run
  obtain ⟨e, e', he, he', _, _, hancestor⟩ :=
    settled_finality hpublished (ReflTransGen.single h₁) (ReflTransGen.single h₂)
  exact ⟨st₀, st₁, st₂, e, e', hpublished, .single h₁, .single h₂, he, he', hancestor⟩

end Zinder.Canonical
