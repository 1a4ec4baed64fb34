import Zinder.Core.Facts

/-!
# Zinder.Core.CommitmentTree

Note-commitment-tree frontiers, checkpoints, and the accumulator that carries them from block to
block (`commitment_tree_codec.rs`).

The incremental Merkle tree, its node types and the legacy tree encoding are library code; they
enter as `TreeLibrary`. Everything above them is the source's own: which pools are active at a
height, the contiguity of appended blocks, the capacity check, the cached root, and the
revalidation of every snapshot.
-/

namespace Zinder

/-- The incremental Merkle tree and its legacy `finalState` encoding. -/
structure TreeLibrary where
  Node : Type
  Frontier : Type
  empty : Frontier
  append : Frontier → Node → Frontier
  root : Frontier → Node
  treeSize : Frontier → Nat
  /-- A root in the byte order of the node's RPC. -/
  rootBytes : ShieldedProtocol → Node → Bytes32
  decodeCommitment : ShieldedProtocol → Bytes32 → Option Node
  /-- Reads one exact legacy tree and rebuilds its frontier. -/
  readFinalState : ShieldedProtocol → Bytes → Option Frontier
  writeFinalState : ShieldedProtocol → Frontier → Option Bytes

structure CommitmentTreeFrontier where
  treeSize : Nat
  finalRoot : Bytes32
  finalStateBytes : Bytes
deriving DecidableEq

/-- Frontiers after one block; a pool is absent before its activation. -/
structure CommitmentTreeFrontiers where
  sapling : Option CommitmentTreeFrontier
  orchard : Option CommitmentTreeFrontier
  ironwood : Option CommitmentTreeFrontier
deriving DecidableEq

namespace CommitmentTreeFrontiers

/-- `CommitmentTreeFrontiers::default`. -/
def absent : CommitmentTreeFrontiers := ⟨none, none, none⟩

def get (f : CommitmentTreeFrontiers) : ShieldedProtocol → Option CommitmentTreeFrontier
  | .sapling => f.sapling
  | .orchard => f.orchard
  | .ironwood => f.ironwood

def size : Option CommitmentTreeFrontier → Nat
  | some frontier => frontier.treeSize
  | none => 0

def tipMetadata (f : CommitmentTreeFrontiers) : ChainTipMetadata :=
  ⟨size f.sapling, size f.orchard, size f.ironwood⟩

end CommitmentTreeFrontiers

structure CommitmentTreeCheckpoint where
  blockId : BlockId
  blockTimeSeconds : Nat
  frontiers : CommitmentTreeFrontiers
deriving DecidableEq

def CommitmentTreeCheckpoint.tipMetadata (c : CommitmentTreeCheckpoint) : ChainTipMetadata :=
  c.frontiers.tipMetadata

/-- Network identity and the activation heights of its upgrades, by name. -/
structure NetworkUpgradeActivations where
  network : Network
  fingerprint : Bytes32
  activationHeightByName : String → Option Nat

def activationUpgradeName : ShieldedProtocol → String
  | .sapling => "Sapling"
  | .orchard => "NU5"
  | .ironwood => "NU6.3"

def poolIsActive (protocol : ShieldedProtocol) (height : Nat)
    (activations : NetworkUpgradeActivations) : Bool :=
  (activations.activationHeightByName (activationUpgradeName protocol)).any (· ≤ height)

inductive CommitmentTreeFrontierValidationError where
  | tooLarge (byteCount maxByteCount : Nat)
  | invalidEncoding (reason : String)
  | treeSizeOutOfRange (treeSize : Nat)
  | rootMismatch
deriving DecidableEq

inductive CommitmentTreeAccumulatorError where
  | poolActivationFrontierMismatch (protocol : ShieldedProtocol) (height : Nat)
      (poolActive frontierPresent : Bool)
  | validatedFrontierDecodeFailed (protocol : ShieldedProtocol)
  | validatedFrontierSizeMismatch (protocol : ShieldedProtocol)
      (recordedTreeSize decodedTreeSize : Nat)
  | blockHeightExhausted (tipHeight : Nat)
  | nonContiguousBlockHeight (expectedHeight blockHeight : Nat)
  | unexpectedCommitmentsBeforeActivation (protocol : ShieldedProtocol) (blockHeight : Nat)
      (commitmentCount : Nat)
  | malformedCommitmentEncoding (protocol : ShieldedProtocol) (blockHeight : Nat)
      (commitmentIndex : Nat)
  | treeFull (protocol : ShieldedProtocol) (blockHeight treeSize commitmentCount : Nat)
  | frontierSnapshotEncodingFailed (protocol : ShieldedProtocol)
  | frontierSnapshotValidationFailed (protocol : ShieldedProtocol)
      (source : CommitmentTreeFrontierValidationError)
deriving DecidableEq

/-- Largest `finalState` admitted for one tree. -/
def maxCommitmentTreeFrontierFinalStateBytes : Nat := 1090

section Accumulator

variable (T : TreeLibrary)

/-- One pool: its frontier, its size, and the root computed when it was last asked for. -/
structure PoolAccumulator where
  frontier : T.Frontier
  treeSize : Nat
  root : T.Node
  rootDirty : Bool

structure CommitmentTreeAccumulator where
  tipHeight : Nat
  activations : NetworkUpgradeActivations
  sapling : Option (PoolAccumulator T)
  orchard : Option (PoolAccumulator T)
  ironwood : Option (PoolAccumulator T)

variable {T}

def validatePoolActivationFrontier (protocol : ShieldedProtocol) (height : Nat)
    (frontier : Option CommitmentTreeFrontier) (activations : NetworkUpgradeActivations) :
    Except CommitmentTreeAccumulatorError Unit :=
  rejectIf (poolIsActive protocol height activations ≠ frontier.isSome)
    (.poolActivationFrontierMismatch protocol height (poolIsActive protocol height activations)
      frontier.isSome)

def seedPool (T : TreeLibrary) (protocol : ShieldedProtocol) (validated : CommitmentTreeFrontier) :
    Except CommitmentTreeAccumulatorError (PoolAccumulator T) := do
  let frontier ← okOr (T.readFinalState protocol validated.finalStateBytes)
    (.validatedFrontierDecodeFailed protocol)
  rejectIf (T.treeSize frontier ≠ validated.treeSize)
    (.validatedFrontierSizeMismatch protocol validated.treeSize (T.treeSize frontier))
  .ok { frontier, treeSize := validated.treeSize, root := T.root frontier, rootDirty := false }

/-- Runs a fallible step on a pool that is present. -/
def onPool {α β : Type} (f : α → Except CommitmentTreeAccumulatorError β) :
    Option α → Except CommitmentTreeAccumulatorError (Option β)
  | some a => (f a).map some
  | none => .ok none

def CommitmentTreeAccumulator.fromValidatedFrontiers (T : TreeLibrary) (tipHeight : Nat)
    (frontiers : CommitmentTreeFrontiers) (activations : NetworkUpgradeActivations) :
    Except CommitmentTreeAccumulatorError (CommitmentTreeAccumulator T) := do
  validatePoolActivationFrontier .sapling tipHeight frontiers.sapling activations
  validatePoolActivationFrontier .orchard tipHeight frontiers.orchard activations
  validatePoolActivationFrontier .ironwood tipHeight frontiers.ironwood activations
  let sapling ← onPool (seedPool T .sapling) frontiers.sapling
  let orchard ← onPool (seedPool T .orchard) frontiers.orchard
  let ironwood ← onPool (seedPool T .ironwood) frontiers.ironwood
  .ok { tipHeight, activations, sapling, orchard, ironwood }

def poolSize : Option (PoolAccumulator T) → Nat
  | some pool => pool.treeSize
  | none => 0

variable (acc : CommitmentTreeAccumulator T)

def CommitmentTreeAccumulator.tipMetadata : ChainTipMetadata :=
  ⟨poolSize acc.sapling, poolSize acc.orchard, poolSize acc.ironwood⟩

structure PreparedPoolUpdate (T : TreeLibrary) where
  poolActive : Bool
  commitments : List T.Node
  nextTreeSize : Nat

def decodeCommitments (protocol : ShieldedProtocol) (blockHeight : Nat) :
    Nat → List Bytes32 → Except CommitmentTreeAccumulatorError (List T.Node)
  | _, [] => .ok []
  | index, encoded :: rest => do
    let node ← okOr (T.decodeCommitment protocol encoded)
      (.malformedCommitmentEncoding protocol blockHeight index)
    let nodes ← decodeCommitments protocol blockHeight (index + 1) rest
    .ok (node :: nodes)

def preparePoolUpdate (current : Option (PoolAccumulator T)) (protocol : ShieldedProtocol)
    (blockHeight : Nat) (poolActive : Bool) (commitmentBytes : List Bytes32) :
    Except CommitmentTreeAccumulatorError (PreparedPoolUpdate T) :=
  if poolActive = false then do
    rejectIf (commitmentBytes ≠ [])
      (.unexpectedCommitmentsBeforeActivation protocol blockHeight commitmentBytes.length)
    rejectIf (current.isSome = true)
      (.poolActivationFrontierMismatch protocol blockHeight poolActive true)
    .ok { poolActive, commitments := [], nextTreeSize := 0 }
  else do
    let full := CommitmentTreeAccumulatorError.treeFull protocol blockHeight (poolSize current)
      commitmentBytes.length
    rejectIf (u32Bound ≤ commitmentBytes.length) full
    let nextTreeSize ← okOr (checkedAdd u32Bound (poolSize current) commitmentBytes.length) full
    let commitments ← decodeCommitments protocol blockHeight 0 commitmentBytes
    .ok { poolActive, commitments, nextTreeSize }

def applyPoolUpdate (current : Option (PoolAccumulator T)) (update : PreparedPoolUpdate T) :
    Option (PoolAccumulator T) :=
  if update.poolActive then
    let pool := current.getD
      { frontier := T.empty, treeSize := 0, root := T.root T.empty, rootDirty := false }
    some
      { frontier := update.commitments.foldl T.append pool.frontier
        treeSize := update.nextTreeSize
        root := pool.root
        rootDirty := pool.rootDirty || !update.commitments.isEmpty }
  else current

/-- `append_block_commitments`: the three pools are updated together or not at all. -/
def CommitmentTreeAccumulator.appendBlockCommitments
    (blockHeight : Nat) (saplingCmus orchardCmxs ironwoodCmxs : List Bytes32) :
    Except CommitmentTreeAccumulatorError (CommitmentTreeAccumulator T) := do
  let expectedHeight ← okOr (nextHeight acc.tipHeight) (.blockHeightExhausted acc.tipHeight)
  rejectIf (blockHeight ≠ expectedHeight) (.nonContiguousBlockHeight expectedHeight blockHeight)
  let sapling ← preparePoolUpdate acc.sapling .sapling blockHeight
    (poolIsActive .sapling blockHeight acc.activations) saplingCmus
  let orchard ← preparePoolUpdate acc.orchard .orchard blockHeight
    (poolIsActive .orchard blockHeight acc.activations) orchardCmxs
  let ironwood ← preparePoolUpdate acc.ironwood .ironwood blockHeight
    (poolIsActive .ironwood blockHeight acc.activations) ironwoodCmxs
  .ok
    { acc with
      tipHeight := blockHeight
      sapling := applyPoolUpdate acc.sapling sapling
      orchard := applyPoolUpdate acc.orchard orchard
      ironwood := applyPoolUpdate acc.ironwood ironwood }

def currentPoolRoot (pool : PoolAccumulator T) : PoolAccumulator T :=
  if pool.rootDirty then { pool with root := T.root pool.frontier, rootDirty := false } else pool

def CommitmentTreeFrontier.fromCanonicalFinalState (T : TreeLibrary)
    (protocol : ShieldedProtocol) (finalRoot : Bytes32) (finalStateBytes : Bytes) :
    Except CommitmentTreeFrontierValidationError CommitmentTreeFrontier := do
  rejectIf (maxCommitmentTreeFrontierFinalStateBytes < finalStateBytes.length)
    (.tooLarge finalStateBytes.length maxCommitmentTreeFrontierFinalStateBytes)
  let frontier ← okOr (T.readFinalState protocol finalStateBytes)
    (.invalidEncoding "finalState is not a valid legacy CommitmentTree encoding")
  rejectIf (u32Bound ≤ T.treeSize frontier) (.treeSizeOutOfRange (T.treeSize frontier))
  let canonicalBytes ← okOr (T.writeFinalState protocol frontier)
    (.invalidEncoding "validated frontier could not be canonically encoded")
  rejectIf (canonicalBytes ≠ finalStateBytes)
    (.invalidEncoding "finalState is not the canonical Zebra RPC encoding")
  rejectIf (T.rootBytes protocol (T.root frontier) ≠ finalRoot) .rootMismatch
  .ok { treeSize := T.treeSize frontier, finalRoot, finalStateBytes }

def snapshotPool (protocol : ShieldedProtocol) (pool : PoolAccumulator T) :
    Except CommitmentTreeAccumulatorError (CommitmentTreeFrontier × PoolAccumulator T) := do
  let finalStateBytes ← okOr (T.writeFinalState protocol pool.frontier)
    (.frontierSnapshotEncodingFailed protocol)
  let rooted := currentPoolRoot pool
  let frontier ← (CommitmentTreeFrontier.fromCanonicalFinalState T protocol
    (T.rootBytes protocol rooted.root) finalStateBytes).mapError
      (.frontierSnapshotValidationFailed protocol)
  .ok (frontier, rooted)

/-- `validated_frontiers`: the snapshots, and the accumulator with its refreshed roots. -/
def CommitmentTreeAccumulator.validatedFrontiers :
    Except CommitmentTreeAccumulatorError
      (CommitmentTreeFrontiers × CommitmentTreeAccumulator T) := do
  let sapling ← onPool (snapshotPool .sapling) acc.sapling
  let orchard ← onPool (snapshotPool .orchard) acc.orchard
  let ironwood ← onPool (snapshotPool .ironwood) acc.ironwood
  .ok
    (⟨sapling.map Prod.fst, orchard.map Prod.fst, ironwood.map Prod.fst⟩,
      { acc with
        sapling := sapling.map Prod.snd
        orchard := orchard.map Prod.snd
        ironwood := ironwood.map Prod.snd })

variable {p : ShieldedProtocol} {f : CommitmentTreeFrontiers} {height : Nat}

theorem CommitmentTreeAccumulator.appendBlockCommitments_height
    {acc acc' : CommitmentTreeAccumulator T} {s o i : List Bytes32}
    (h : acc.appendBlockCommitments height s o i = .ok acc') :
    height = acc.tipHeight + 1 ∧ acc'.tipHeight = height := by
  simp only [appendBlockCommitments, bind_eq_ok, okOr_eq_ok, nextHeight_eq_some, rejectIf_eq_ok,
    not_not, Unique.exists_iff] at h
  obtain ⟨_, ⟨_, rfl⟩, rfl, sapling, _, orchard, _, ironwood, _, h⟩ := h
  cases h
  exact ⟨rfl, rfl⟩

theorem CommitmentTreeAccumulator.fromValidatedFrontiers_eq_ok
    {acc : CommitmentTreeAccumulator T} {activations : NetworkUpgradeActivations}
    (h : fromValidatedFrontiers T height f activations = .ok acc) :
    acc.tipHeight = height ∧ acc.activations = activations := by
  simp only [fromValidatedFrontiers, bind_eq_ok, Unique.exists_iff] at h
  obtain ⟨_, _, _, sapling, _, orchard, _, ironwood, _, h⟩ := h
  cases h
  exact ⟨rfl, rfl⟩

theorem CommitmentTreeFrontier.fromCanonicalFinalState_eq_ok {root : Bytes32} {state : Bytes}
    {frontier : CommitmentTreeFrontier} (h : fromCanonicalFinalState T p root state = .ok frontier) :
    state.length ≤ maxCommitmentTreeFrontierFinalStateBytes ∧ ∃ read,
      T.readFinalState p state = some read ∧ frontier = ⟨T.treeSize read, root, state⟩ := by
  simp only [fromCanonicalFinalState, bind_eq_ok, rejectIf_eq_ok, okOr_eq_ok, Nat.not_lt,
    Unique.exists_iff] at h
  obtain ⟨hlength, read, hread, _, _, _, _, _, hfrontier⟩ := h
  exact ⟨hlength, read, hread, (Except.ok.inj hfrontier).symm⟩

/-! ## Reseeding -/

/-- What the incremental tree documents: sizes count the appended leaves, and a written state is
read back as the frontier it was written from. -/
structure TreeLibrary.Lawful (T : TreeLibrary) : Prop where
  treeSize_empty : T.treeSize T.empty = 0
  treeSize_append : ∀ f node, T.treeSize (T.append f node) = T.treeSize f + 1
  readFinalState_of_write : ∀ p f bytes, T.writeFinalState p f = some bytes →
    T.readFinalState p bytes = some f

/-- A pool whose recorded size and cached root are those of its frontier. -/
structure PoolAccumulator.Exact (pool : PoolAccumulator T) : Prop where
  size : pool.treeSize = T.treeSize pool.frontier
  root : pool.rootDirty = false → pool.root = T.root pool.frontier

/-- Exactly the active pools are present, and each is exact. -/
structure CommitmentTreeAccumulator.Exact (acc : CommitmentTreeAccumulator T) : Prop where
  sapling : ∀ pool ∈ acc.sapling, pool.Exact
  orchard : ∀ pool ∈ acc.orchard, pool.Exact
  ironwood : ∀ pool ∈ acc.ironwood, pool.Exact
  saplingActive : poolIsActive .sapling acc.tipHeight acc.activations = acc.sapling.isSome
  orchardActive : poolIsActive .orchard acc.tipHeight acc.activations = acc.orchard.isSome
  ironwoodActive : poolIsActive .ironwood acc.tipHeight acc.activations = acc.ironwood.isSome

theorem onPool_eq_ok {α β : Type} {f : α → Except CommitmentTreeAccumulatorError β}
    {o : Option α} {r : Option β} :
    onPool f o = .ok r ↔
      (o = none ∧ r = none) ∨ ∃ a b, o = some a ∧ r = some b ∧ f a = .ok b := by
  cases o with
  | none => simp [onPool, eq_comm]
  | some a =>
    cases hf : f a with
    | error e => simp [onPool, hf, Except.map]
    | ok b => simp [onPool, hf, Except.map, eq_comm]

theorem seedPool_exact {frontier : CommitmentTreeFrontier} {pool : PoolAccumulator T}
    (h : seedPool T p frontier = .ok pool) : pool.Exact := by
  simp only [seedPool, bind_eq_ok, okOr_eq_ok, rejectIf_eq_ok, not_not] at h
  obtain ⟨_, _, _, hsize, h⟩ := h
  cases h
  exact ⟨hsize.symm, fun _ => rfl⟩

theorem onPool_seed {o : Option CommitmentTreeFrontier} {r : Option (PoolAccumulator T)}
    (h : onPool (seedPool T p) o = .ok r) :
    (∀ pool ∈ r, pool.Exact) ∧ r.isSome = o.isSome := by
  rcases onPool_eq_ok.mp h with ⟨rfl, rfl⟩ | ⟨frontier, pool, rfl, rfl, hseed⟩
  · simp
  · refine ⟨fun pool' hmem => ?_, rfl⟩
    cases hmem
    exact seedPool_exact hseed

theorem CommitmentTreeAccumulator.fromValidatedFrontiers_exact {acc : CommitmentTreeAccumulator T}
    {activations : NetworkUpgradeActivations}
    (h : fromValidatedFrontiers T height f activations = .ok acc) : acc.Exact := by
  simp only [fromValidatedFrontiers, bind_eq_ok, validatePoolActivationFrontier, rejectIf_eq_ok,
    not_not] at h
  obtain ⟨_, hs, _, ho, _, hi, sapling, hsapling, orchard, horchard, ironwood, hironwood, h⟩ := h
  cases h
  obtain ⟨hsExact, hsSome⟩ := onPool_seed hsapling
  obtain ⟨hoExact, hoSome⟩ := onPool_seed horchard
  obtain ⟨hiExact, hiSome⟩ := onPool_seed hironwood
  exact ⟨hsExact, hoExact, hiExact, hs.trans hsSome.symm, ho.trans hoSome.symm,
    hi.trans hiSome.symm⟩

theorem decodeCommitments_length {height index : Nat} {encoded : List Bytes32} {nodes : List T.Node}
    (h : decodeCommitments (T := T) p height index encoded = .ok nodes) :
    nodes.length = encoded.length := by
  induction encoded generalizing index nodes with
  | nil =>
    cases h
    rfl
  | cons e encoded ih =>
    simp only [decodeCommitments, bind_eq_ok] at h
    obtain ⟨_, _, rest, hrest, h⟩ := h
    cases h
    simp [ih hrest]

section

variable (hT : T.Lawful)
include hT

theorem TreeLibrary.Lawful.treeSize_foldl (f : T.Frontier) (nodes : List T.Node) :
    T.treeSize (nodes.foldl T.append f) = T.treeSize f + nodes.length := by
  induction nodes generalizing f with
  | nil => rfl
  | cons node nodes ih =>
    rw [List.foldl_cons, ih, hT.treeSize_append, List.length_cons]
    omega

/-- One pool through one block: it stays exact, and is present exactly when active. -/
theorem applyPoolUpdate_exact {current : Option (PoolAccumulator T)} {active : Bool}
    {bytes : List Bytes32} {update : PreparedPoolUpdate T} (hcurrent : ∀ pool ∈ current, pool.Exact)
    (h : preparePoolUpdate current p height active bytes = .ok update) :
    (∀ pool ∈ applyPoolUpdate current update, pool.Exact) ∧
      active = (applyPoolUpdate current update).isSome := by
  unfold preparePoolUpdate at h
  split at h
  · next hinactive =>
    simp only [bind_eq_ok, rejectIf_eq_ok] at h
    obtain ⟨_, _, _, hnone, h⟩ := h
    cases h
    have : current = none := by simpa using hnone
    simp [applyPoolUpdate, hinactive, this]
  · next hactive =>
    have hactive : active = true := by simpa using hactive
    simp only [bind_eq_ok, okOr_eq_ok, checkedAdd_eq_some] at h
    obtain ⟨_, _, _, ⟨_, rfl⟩, nodes, hnodes, h⟩ := h
    cases h
    have hlength := decodeCommitments_length hnodes
    simp only [applyPoolUpdate, hactive, if_true, Option.isSome_some, and_true]
    intro pool hpool
    cases hpool
    cases current with
    | none =>
      refine ⟨?_, fun hclean => ?_⟩
      · simp [hT.treeSize_foldl, hT.treeSize_empty, poolSize, hlength]
      · simp only [Option.getD_none, Bool.false_or, Bool.not_eq_eq_eq_not, Bool.not_false,
          List.isEmpty_iff] at hclean
        simp [hclean]
    | some pool =>
      have hpool := hcurrent pool rfl
      refine ⟨?_, fun hclean => ?_⟩
      · simp [hT.treeSize_foldl, poolSize, hlength, hpool.size]
      · simp only [Option.getD_some, Bool.or_eq_false_iff, Bool.not_eq_eq_eq_not, Bool.not_false,
          List.isEmpty_iff] at hclean
        simp [hclean.2, hpool.root hclean.1]

theorem CommitmentTreeAccumulator.Exact.append {acc acc' : CommitmentTreeAccumulator T}
    (hacc : acc.Exact) {s o i : List Bytes32}
    (h : acc.appendBlockCommitments height s o i = .ok acc') :
    acc'.Exact ∧ acc'.activations = acc.activations := by
  simp only [appendBlockCommitments, bind_eq_ok] at h
  obtain ⟨_, _, _, _, us, hs, uo, ho, ui, hi, h⟩ := h
  cases h
  obtain ⟨hsExact, hsActive⟩ := applyPoolUpdate_exact hT hacc.sapling hs
  obtain ⟨hoExact, hoActive⟩ := applyPoolUpdate_exact hT hacc.orchard ho
  obtain ⟨hiExact, hiActive⟩ := applyPoolUpdate_exact hT hacc.ironwood hi
  exact ⟨⟨hsExact, hoExact, hiExact, hsActive, hoActive, hiActive⟩, rfl⟩

theorem snapshotPool_seed {pool rooted : PoolAccumulator T} {frontier : CommitmentTreeFrontier}
    (hpool : pool.Exact) (h : snapshotPool p pool = .ok (frontier, rooted)) :
    seedPool T p frontier = .ok rooted ∧ frontier.treeSize = pool.treeSize ∧
      rooted.treeSize = pool.treeSize := by
  simp only [snapshotPool, bind_eq_ok, okOr_eq_ok, mapError_ok_iff] at h
  obtain ⟨bytes, hwrite, _, hstate, h⟩ := h
  obtain ⟨_, read, hread, rfl⟩ := CommitmentTreeFrontier.fromCanonicalFinalState_eq_ok hstate
  cases h
  rw [hT.readFinalState_of_write p _ _ hwrite, Option.some.injEq] at hread
  subst hread
  have hrooted : currentPoolRoot pool =
      ⟨pool.frontier, pool.treeSize, T.root pool.frontier, false⟩ := by
    unfold currentPoolRoot
    split
    · rfl
    · next hclean =>
      have hclean : pool.rootDirty = false := by simpa using hclean
      rw [← hpool.root hclean, ← hclean]
  refine ⟨?_, hpool.size.symm, by rw [hrooted]⟩
  simp only [seedPool, hT.readFinalState_of_write p _ _ hwrite, okOr_some, ok_bind, hrooted,
    hpool.size]
  rw [rejectIf_of_not (by simp)]
  rfl

theorem onPool_snapshot {o : Option (PoolAccumulator T)}
    {r : Option (CommitmentTreeFrontier × PoolAccumulator T)} (hexact : ∀ pool ∈ o, pool.Exact)
    (h : onPool (snapshotPool p) o = .ok r) :
    onPool (seedPool T p) (r.map Prod.fst) = .ok (r.map Prod.snd) ∧
      CommitmentTreeFrontiers.size (r.map Prod.fst) = poolSize o ∧
      poolSize (r.map Prod.snd) = poolSize o ∧ (r.map Prod.fst).isSome = o.isSome := by
  rcases onPool_eq_ok.mp h with ⟨rfl, rfl⟩ | ⟨pool, ⟨frontier, rooted⟩, rfl, rfl, hsnapshot⟩
  · exact ⟨rfl, rfl, rfl, rfl⟩
  · obtain ⟨hseed, hsize, hrooted⟩ := snapshotPool_seed hT (hexact pool rfl) hsnapshot
    exact ⟨by simp [onPool, hseed, Except.map], hsize, hrooted, rfl⟩

/-- Taking snapshots keeps the sizes, and seeding from them gives the accumulator back: a caller
may carry the accumulator on or start again from the checkpoint. -/
theorem CommitmentTreeAccumulator.Exact.reseed {acc rooted : CommitmentTreeAccumulator T}
    (hacc : acc.Exact) (h : acc.validatedFrontiers = .ok (f, rooted)) :
    fromValidatedFrontiers T acc.tipHeight f acc.activations = .ok rooted ∧
      f.tipMetadata = acc.tipMetadata ∧ rooted.tipMetadata = acc.tipMetadata := by
  simp only [validatedFrontiers, bind_eq_ok] at h
  obtain ⟨rs, hs, ro, ho, ri, hi, h⟩ := h
  cases h
  obtain ⟨hsSeed, hsSize, hsRooted, hsSome⟩ := onPool_snapshot hT hacc.sapling hs
  obtain ⟨hoSeed, hoSize, hoRooted, hoSome⟩ := onPool_snapshot hT hacc.orchard ho
  obtain ⟨hiSeed, hiSize, hiRooted, hiSome⟩ := onPool_snapshot hT hacc.ironwood hi
  refine ⟨?_, ?_, ?_⟩
  · simp only [fromValidatedFrontiers, bind_eq_ok, validatePoolActivationFrontier, rejectIf_eq_ok,
      not_not]
    exact ⟨(), by rw [hsSome, hacc.saplingActive], (), by rw [hoSome, hacc.orchardActive], (),
      by rw [hiSome, hacc.ironwoodActive], _, hsSeed, _, hoSeed, _, hiSeed, rfl⟩
  · simp only [CommitmentTreeFrontiers.tipMetadata, tipMetadata, hsSize, hoSize, hiSize]
  · simp only [tipMetadata, hsRooted, hoRooted, hiRooted]

end

end Accumulator

end Zinder
