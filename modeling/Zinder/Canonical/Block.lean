import Zinder.Canonical.Store

/-!
# Zinder.Canonical.Block

One block as the canonical store sees it: the checks it must pass (`validate_block`) and the
subtree roots it must bring (`required_subtree_root_ranges`).

`completedBetween` lists the subtrees completed from one tip to the next;
`requiredSubtreeRootRanges_eq_ok` ties the checked ranges of the source to that list.
-/

namespace Zinder.Canonical

open List

variable {D : Type}

/-! ## Block validation -/

/-- `u32::try_from` on a signed integer. -/
def u32OfInt (x : Int) : Option Nat :=
  if 0 ≤ x ∧ x < (u32Bound : Int) then some x.toNat else none

/-- `<[u8; 32]>::try_from` on a byte slice. -/
def bytes32OfBytes (bytes : Bytes) : Option Bytes32 :=
  if h : bytes.length = 32 then some ⟨bytes, h⟩ else none

section Validate

variable {E : Env D}

def validateReplayEnvelope [DecidableEq D] (b : CanonicalBuildBlock E) :
    Except CanonicalStoreError Unit :=
  let height := b.height
  rejectIf
    (b.replayEnvelope.blockHeight ≠ b.height ∨ b.replayEnvelope.blockHash ≠ b.hash ∨
      b.replayEnvelope.parentHash ≠ b.parentHash ∨ b.replayEnvelope.referenceDigest ≠ b.digest)
    (.blockLoadSequence s!"block {height} replay envelope does not match its canonical facts")

variable (b : CanonicalBuildBlock E)

def validateCompactTransaction (t : CompactTransaction) : Except CanonicalStoreError Unit := do
  let height := b.height
  let index := t.index
  let transaction ← okOr b.facts.transactions[t.index]?
    (.blockLoadSequence
      s!"block {height} compact transaction index {index} is absent from canonical facts")
  rejectIf (transaction.transactionId ≠ t.transactionId)
    (.blockLoadSequence
      s!"block {height} compact transaction {index} has the wrong transaction id")

def validateCompactBlockPayload : Except CanonicalStoreError Unit := do
  let height := b.height
  rejectIf
    (b.compactBlock.height ≠ b.height ∨ b.compactBlock.blockHash ≠ b.hash ∨
      b.compactBlock.previousBlockHash ≠ b.parentHash ∨
      u32OfInt b.facts.blockHeader.blockTime ≠ some b.compactBlock.time ∨
      b.compactBlock.chainMetadata ≠ b.tipMetadata)
    (.blockLoadSequence
      s!"block {height} compact payload identity or tree positions do not match canonical facts")
  let _ ← collect (validateCompactTransaction b) b.compactBlock.transactions
  .ok ()

def validateTransactionBlob (entry : (CanonicalTransactionFacts × TransactionBlobArtifact) × Nat) :
    Except CanonicalStoreError Unit := do
  let ((transaction, blob), index) := entry
  let height := b.height
  rejectIf (u32Bound ≤ index)
    (.blockLoadSequence s!"block {height} transaction count exceeds u32::MAX")
  rejectIf
    (blob.location.transactionId ≠ transaction.transactionId ∨
      blob.location.blockHeight ≠ b.height ∨ blob.location.blockHash ≠ b.hash ∨
      blob.location.txIndexInBlock ≠ index)
    (.blockLoadSequence s!"block {height} transaction {index} raw blob has the wrong location")
  rejectIf (E.hash.serializedBytes blob.rawTransactionBytes ≠ transaction.serializedBytesDigest)
    (.blockLoadSequence
      s!"block {height} transaction {index} raw bytes do not match canonical facts")

def validateTransactionBlobs (retention : RawBlobRetention) (b : CanonicalBuildBlock E) :
    Except CanonicalStoreError Unit := do
  let height := b.height
  let expected := if retention.retainsTransactionBlobs then b.facts.transactions.length else 0
  let kept := retention.asKebabCase
  let observed := b.transactionBlobs.length
  rejectIf (b.transactionBlobs.length ≠ expected)
    (.blockLoadSequence (s!"block {height} requires {expected} raw transaction blobs " ++
      s!"under {kept} retention but contains {observed}"))
  let _ ← collect (validateTransactionBlob b)
    (b.facts.transactions.zip b.transactionBlobs).zipIdx
  .ok ()

def validateBlockBlob (retention : RawBlobRetention) (b : CanonicalBuildBlock E) :
    Except CanonicalStoreError Unit :=
  let height := b.height
  let kept := retention.asKebabCase
  match retention.retainsBlockBlobs, b.blockBlob with
  | false, some _ =>
    .error (.blockLoadSequence
      s!"block {height} unexpectedly contains a raw block under {kept} retention")
  | true, none =>
    .error (.blockLoadSequence s!"block {height} is missing its raw block under {kept} retention")
  | true, some blob => do
    rejectIf (blob.height ≠ b.height ∨ blob.blockHash ≠ b.hash ∨ blob.parentHash ≠ b.parentHash)
      (.blockLoadSequence
        s!"block {height} raw block identity does not match its canonical facts")
    rejectIf (E.hash.serializedBytes blob.rawBlockBytes ≠ b.facts.serializedBytesDigest)
      (.blockLoadSequence s!"block {height} raw bytes do not match canonical facts")
  | false, none => .ok ()

def treeStateCheckpointRequired (height transitionTipHeight : Nat) : Bool :=
  height = transitionTipHeight ∨ height % treeStateCheckpointStride = 0

def validateTreeStateCheckpoint (transitionTipHeight : Nat) (b : CanonicalBuildBlock E) :
    Except CanonicalStoreError Unit :=
  let height := b.height
  match treeStateCheckpointRequired b.height transitionTipHeight, b.treeStateCheckpoint with
  | true, none =>
    .error (.blockLoadSequence s!"block {height} is missing its required tree-state checkpoint")
  | false, some _ =>
    .error (.blockLoadSequence
      s!"block {height} has a tree-state checkpoint outside the global cadence and transition tip")
  | true, some checkpoint =>
    rejectIf
      (checkpoint.blockId ≠ b.blockId ∨
        (checkpoint.blockTimeSeconds : Int) ≠ b.facts.blockHeader.blockTime ∨
        checkpoint.tipMetadata ≠ b.tipMetadata)
      (.blockLoadSequence
        s!"block {height} tree-state checkpoint does not match its canonical identity and tree positions")
  | false, none => .ok ()

def validateBlockFinalNoteCommitmentRoots (workload : CanonicalStoreWorkload)
    (b : CanonicalBuildBlock E) : Except CanonicalStoreError Unit :=
  let height := b.height
  match workload, b.blockFinalNoteCommitmentRoots with
  | .wallet, some _ =>
    .error (.blockLoadSequence
      s!"wallet block {height} unexpectedly contains explorer final note-commitment roots")
  | .explorer, some roots =>
    rejectIf (roots.height ≠ b.height ∨ roots.blockHash ≠ b.hash)
      (.blockLoadSequence
        s!"explorer block {height} final note-commitment roots do not match its canonical identity")
  | .wallet, none => .ok ()
  | .explorer, none => .ok ()

def validateBlock [DecidableEq D] (workload : CanonicalStoreWorkload)
    (retention : RawBlobRetention) (b : CanonicalBuildBlock E) (transitionTipHeight : Nat) :
    Except CanonicalStoreError Unit := do
  let height := b.height
  validateReplayEnvelope b
  rejectIf (b.compactBlock.height ≠ b.height ∨ b.compactBlock.blockHash ≠ b.hash)
    (.blockLoadSequence s!"block {height} compact artifact does not match its canonical facts")
  validateCompactBlockPayload b
  validateTransactionBlobs retention b
  validateBlockBlob retention b
  validateTreeStateCheckpoint transitionTipHeight b
  validateBlockFinalNoteCommitmentRoots workload b

/-- `validate_live_block`: a live block is its own transition tip. -/
def validateLiveBlock [DecidableEq D] (workload : CanonicalStoreWorkload)
    (retention : RawBlobRetention) (b : CanonicalBuildBlock E) :
    Except CanonicalStoreError Unit :=
  validateBlock workload retention b b.height

end Validate

/-! ## Required subtree roots -/

structure SubtreeRootRange where
  protocol : ShieldedProtocol
  startIndex : Nat
  maxEntries : Nat
deriving DecidableEq

def SubtreeRootRange.indexes (r : SubtreeRootRange) : List (ShieldedProtocol × Nat) :=
  (List.range' r.startIndex r.maxEntries).map (r.protocol, ·)

variable (predecessor tip : ChainTipMetadata)

def requiredSubtreeRootRange (protocol : ShieldedProtocol) :
    Except CanonicalStoreError (Option SubtreeRootRange) := do
  let startIndex := predecessor.completedSubtreeCount protocol
  let completed := tip.completedSubtreeCount protocol
  let name := protocol.name
  let rootCount ← okOr (checkedSub completed startIndex)
    (.subtreeRootSequence
      s!"{name} completed-subtree count regressed from {startIndex} to {completed}")
  .ok (if rootCount = 0 then none else some ⟨protocol, startIndex, rootCount⟩)

def requiredSubtreeRootRanges : Except CanonicalStoreError (List SubtreeRootRange) := do
  let ranges ← collect (requiredSubtreeRootRange predecessor tip) shieldedProtocols
  .ok ranges.reduceOption

/-- The subtree indexes completed between two tips, in range order. -/
def completedBetween : List (ShieldedProtocol × Nat) :=
  shieldedProtocols.flatMap fun p =>
    (List.range' (predecessor.completedSubtreeCount p)
      (tip.completedSubtreeCount p - predecessor.completedSubtreeCount p)).map (p, ·)

/-- No protocol's completed-subtree count falls from `a` to `b`. -/
def SubtreeMonotone (a b : ChainTipMetadata) : Prop :=
  ∀ p, a.completedSubtreeCount p ≤ b.completedSubtreeCount p

theorem SubtreeMonotone.refl (a : ChainTipMetadata) : SubtreeMonotone a a := fun _ => le_rfl

theorem SubtreeMonotone.trans {a b c : ChainTipMetadata} (h₁ : SubtreeMonotone a b)
    (h₂ : SubtreeMonotone b c) : SubtreeMonotone a c := fun p => (h₁ p).trans (h₂ p)

variable {a b : ChainTipMetadata}

theorem mem_completedBetween {p : ShieldedProtocol} {i : Nat} :
    (p, i) ∈ completedBetween a b ↔
      a.completedSubtreeCount p ≤ i ∧ i < b.completedSubtreeCount p := by
  have hp := mem_shieldedProtocols p
  simp only [completedBetween, mem_flatMap, mem_map, mem_range'_1, Prod.mk.injEq]
  constructor
  · rintro ⟨q, _, j, hj, rfl, rfl⟩
    omega
  · intro h
    exact ⟨p, hp, i, by omega, rfl, rfl⟩

theorem filter_range'_eq {o x y z : Nat} (hox : o ≤ x) (hxy : x ≤ y) (hyz : y ≤ z) :
    (List.range' o (z - o)).filter (fun i => x ≤ i ∧ i < y) = List.range' x (y - x) := by
  obtain ⟨l, rfl⟩ := Nat.exists_eq_add_of_le hox
  obtain ⟨m, rfl⟩ := Nat.exists_eq_add_of_le hxy
  obtain ⟨n, rfl⟩ := Nat.exists_eq_add_of_le hyz
  have hsplit : List.range' o (o + l + m + n - o) =
      List.range' o l ++ (List.range' (o + l) m ++ List.range' (o + l + m) n) := by
    rw [range'_append_1, range'_append_1]
    congr 1
    omega
  have hbelow : (List.range' o l).filter (fun i => o + l ≤ i ∧ i < o + l + m) = [] := by
    simp only [filter_eq_nil_iff, mem_range'_1, decide_eq_true_eq]
    omega
  have habove :
      (List.range' (o + l + m) n).filter (fun i => o + l ≤ i ∧ i < o + l + m) = [] := by
    simp only [filter_eq_nil_iff, mem_range'_1, decide_eq_true_eq]
    omega
  have hinside : (List.range' (o + l) m).filter (fun i => o + l ≤ i ∧ i < o + l + m) =
      List.range' (o + l) m := by
    simp only [filter_eq_self, mem_range'_1, decide_eq_true_eq]
    omega
  rw [hsplit, filter_append, filter_append, hbelow, hinside, habove, nil_append,
    append_nil, Nat.add_sub_cancel_left]

theorem filter_completedBetween {a b origin tip : ChainTipMetadata}
    (horigin : SubtreeMonotone origin a) (hab : SubtreeMonotone a b)
    (htip : SubtreeMonotone b tip) :
    (completedBetween origin tip).filter (· ∈ completedBetween a b) = completedBetween a b := by
  have hmem : ∀ x : ShieldedProtocol × Nat, decide (x ∈ completedBetween a b) =
      decide (a.completedSubtreeCount x.1 ≤ x.2 ∧ x.2 < b.completedSubtreeCount x.1) :=
    fun x => decide_eq_decide.mpr mem_completedBetween
  simp only [hmem]
  rw [completedBetween, completedBetween, filter_flatMap]
  refine flatMap_congr fun p _ => ?_
  rw [filter_map]
  exact congrArg (List.map (p, ·)) (filter_range'_eq (horigin p) (hab p) (htip p))

theorem completedBetween_nodup (a b : ChainTipMetadata) : (completedBetween a b).Nodup := by
  refine nodup_flatMap.mpr ⟨fun p _ => ?_, ?_⟩
  · exact (nodup_range').map (Prod.mk_right_injective p)
  · have hne : shieldedProtocols.Pairwise (· ≠ ·) := by decide
    refine hne.imp fun {p q} hpq => ?_
    intro x hx hy
    simp only [mem_map] at hx hy
    obtain ⟨_, _, rfl⟩ := hx
    obtain ⟨_, _, h⟩ := hy
    exact hpq (congrArg Prod.fst h).symm

theorem requiredSubtreeRootRange_eq_ok {p : ShieldedProtocol} {r : Option SubtreeRootRange} :
    requiredSubtreeRootRange a b p = .ok r ↔
      a.completedSubtreeCount p ≤ b.completedSubtreeCount p ∧
      r = if b.completedSubtreeCount p - a.completedSubtreeCount p = 0 then none
        else some ⟨p, a.completedSubtreeCount p,
          b.completedSubtreeCount p - a.completedSubtreeCount p⟩ := by
  simp only [requiredSubtreeRootRange, bind_eq_ok, okOr_eq_ok, checkedSub_eq_some]
  constructor
  · rintro ⟨_, ⟨hle, rfl⟩, h⟩
    cases h
    exact ⟨hle, rfl⟩
  · rintro ⟨hle, rfl⟩
    exact ⟨_, ⟨hle, rfl⟩, rfl⟩

/-- The ranges exist exactly when no count falls, and together they list `completedBetween`. -/
theorem requiredSubtreeRootRanges_eq_ok {rs : List SubtreeRootRange}
    (h : requiredSubtreeRootRanges a b = .ok rs) :
    SubtreeMonotone a b ∧ rs.flatMap SubtreeRootRange.indexes = completedBetween a b := by
  simp only [requiredSubtreeRootRanges, bind_eq_ok, collect_eq_ok, shieldedProtocols] at h
  obtain ⟨rs', hrs, h⟩ := h
  cases h
  have hrange : ∀ (p : ShieldedProtocol) (r : Option SubtreeRootRange),
      requiredSubtreeRootRange a b p = .ok r →
      a.completedSubtreeCount p ≤ b.completedSubtreeCount p ∧
      r.toList.flatMap SubtreeRootRange.indexes =
        (List.range' (a.completedSubtreeCount p)
          (b.completedSubtreeCount p - a.completedSubtreeCount p)).map (p, ·) := by
    intro p r hr
    obtain ⟨hle, rfl⟩ := requiredSubtreeRootRange_eq_ok.mp hr
    refine ⟨hle, ?_⟩
    split
    · next hz => simp [hz]
    · simp [SubtreeRootRange.indexes]
  cases hrs with
  | cons hs hrs =>
    cases hrs with
    | cons ho hrs =>
      cases hrs with
      | cons hi hrs =>
        cases hrs
        obtain ⟨h1, e1⟩ := hrange _ _ hs
        obtain ⟨h2, e2⟩ := hrange _ _ ho
        obtain ⟨h3, e3⟩ := hrange _ _ hi
        refine ⟨fun p => by cases p <;> assumption, ?_⟩
        simp only [completedBetween, shieldedProtocols, flatMap_cons, flatMap_nil,
          append_nil, ← e1, ← e2, ← e3, ← flatMap_append, List.reduceOption]
        congr 1
        rename_i r1 r2 r3
        cases r1 <;> cases r2 <;> cases r3 <;> rfl

theorem requiredSubtreeRootRanges_of_monotone (h : SubtreeMonotone a b) :
    ∃ rs, requiredSubtreeRootRanges a b = .ok rs := by
  simp only [requiredSubtreeRootRanges, bind_eq_ok, collect_eq_ok, shieldedProtocols]
  have hrange := fun p => requiredSubtreeRootRange_eq_ok.mpr ⟨h p, rfl⟩
  exact ⟨_, _, .cons (hrange .sapling) (.cons (hrange .orchard) (.cons (hrange .ironwood) .nil)),
    rfl⟩

end Zinder.Canonical
