import Zinder.Canonical.Rows

/-!
# Zinder.Canonical.Chain

The visible chain, as a list of blocks above the history predecessor.

* `Linked` — heights and parent hashes follow each other;
* `RootsLinked` — every block carries exactly the subtree roots it completes;
* `sequenceSummary` — the summary a true evidence record holds for a chain;
* `storedRows` — the rows a store with this visible chain holds.

The last section says what one write does to a store that holds the rows of one chain:
`agreesOn_replace` is the step every live transition takes.
-/

namespace Zinder.Canonical

open KeyValue List

variable {D : Type} {E : Env D}

/-! ## Admitted blocks -/

structure Admitted (b : CanonicalBuildBlock E) : Prop where
  envelope_height : b.replayEnvelope.blockHeight = b.height
  envelope_hash : b.replayEnvelope.blockHash = b.hash
  envelope_parent : b.replayEnvelope.parentHash = b.parentHash
  envelope_digest : b.replayEnvelope.referenceDigest = b.digest
  compact_height : b.compactBlock.height = b.height
  compact_hash : b.compactBlock.blockHash = b.hash
  compact_metadata : b.compactBlock.chainMetadata = b.tipMetadata
  blobs_le : b.transactionBlobs.length ≤ b.facts.transactions.length

theorem validateBlock_admitted [DecidableEq D] {w : CanonicalStoreWorkload} {r : RawBlobRetention}
    {b : CanonicalBuildBlock E} {tip : Nat} (h : validateBlock w r b tip = .ok ()) :
    Admitted b := by
  simp only [validateBlock, bind_eq_ok, Unique.exists_iff, validateReplayEnvelope,
    validateCompactBlockPayload, validateTransactionBlobs, rejectIf_eq_ok, not_or, not_not] at h
  obtain ⟨⟨h1, h2, h3, h4⟩, ⟨h5, h6⟩, ⟨⟨_, _, _, _, h7⟩, _⟩, ⟨hlen, _⟩, _⟩ := h
  refine ⟨h1, h2, h3, h4, h5, h6, h7, ?_⟩
  split at hlen <;> omega

/-! ## Chains -/

/-- A visible block with the subtree roots stored when it was committed. -/
structure VisibleBlock (E : Env D) where
  block : CanonicalBuildBlock E
  roots : List SubtreeRootArtifact

abbrev Chain (E : Env D) := List (VisibleBlock E)

namespace VisibleBlock

def rows (v : VisibleBlock E) : List (Row (Val D)) :=
  blockRows v.block ++ v.roots.map SubtreeRootArtifact.row

def ownedKeys (v : VisibleBlock E) : List Key :=
  blockKeys v.block.height v.block.hash v.block.transactionIds ++
    (v.roots.map SubtreeRootArtifact.position).map subtreeKey

end VisibleBlock

def tipId (start : BlockId) : Chain E → BlockId
  | [] => start
  | v :: chain => tipId v.block.blockId chain

def tipSizes (start : ChainTipMetadata) : Chain E → ChainTipMetadata
  | [] => start
  | v :: chain => tipSizes v.block.tipMetadata chain

/-- Each block is the child of the one before it, at the next height. -/
def Linked : BlockId → Chain E → Prop
  | _, [] => True
  | parent, v :: chain =>
    v.block.height = parent.height + 1 ∧ v.block.parentHash = parent.hash ∧
      Linked v.block.blockId chain

/-- Each block carries exactly the roots completed between its parent's tree sizes and its own. -/
def RootsLinked : ChainTipMetadata → Chain E → Prop
  | _, [] => True
  | sizes, v :: chain =>
    SubtreeMonotone sizes v.block.tipMetadata ∧
      v.roots.map SubtreeRootArtifact.position = completedBetween sizes v.block.tipMetadata ∧
      RootsLinked v.block.tipMetadata chain

/-- Transaction ids and block hashes are unique within the chain. -/
structure UniqueIds (chain : Chain E) : Prop where
  hashes : (chain.map fun v => v.block.hash).Nodup
  transactionIds : (chain.flatMap fun v => v.block.transactionIds).Nodup

@[simp] theorem tipId_append (start : BlockId) (a b : Chain E) :
    tipId start (a ++ b) = tipId (tipId start a) b := by
  induction a generalizing start with
  | nil => rfl
  | cons v a ih => exact ih _

@[simp] theorem tipSizes_append (start : ChainTipMetadata) (a b : Chain E) :
    tipSizes start (a ++ b) = tipSizes (tipSizes start a) b := by
  induction a generalizing start with
  | nil => rfl
  | cons v a ih => exact ih _

variable {v : VisibleBlock E} {chain : Chain E} {k : Key} {start : BlockId}

theorem linked_append {a b : Chain E} :
    Linked start (a ++ b) ↔ Linked start a ∧ Linked (tipId start a) b := by
  induction a generalizing start with
  | nil => simp [Linked, tipId]
  | cons v a ih => simp [Linked, tipId, ih, and_assoc]

theorem rootsLinked_append {start : ChainTipMetadata} {a b : Chain E} :
    RootsLinked start (a ++ b) ↔ RootsLinked start a ∧ RootsLinked (tipSizes start a) b := by
  induction a generalizing start with
  | nil => simp [RootsLinked, tipSizes]
  | cons v a ih => simp [RootsLinked, tipSizes, ih, and_assoc]

section

variable (h : Linked start chain)
include h

theorem Linked.tipId_height : (tipId start chain).height = start.height + chain.length := by
  induction chain generalizing start with
  | nil => rfl
  | cons v chain ih =>
    have := ih h.2.2
    simp only [tipId, length_cons, this, CanonicalBuildBlock.blockId_height, h.1]
    omega

theorem Linked.height_of_getElem? {i : Nat} (hi : chain[i]? = some v) :
    v.block.height = start.height + 1 + i := by
  induction chain generalizing start i with
  | nil => simp at hi
  | cons w chain ih =>
    cases i with
    | zero =>
      simp only [getElem?_cons_zero, Option.some.injEq] at hi
      rw [← hi, h.1]
    | succ i =>
      have := ih h.2.2 (by simpa using hi)
      rw [this, CanonicalBuildBlock.blockId_height, h.1]
      omega

theorem Linked.lt_height (hv : v ∈ chain) : start.height < v.block.height := by
  obtain ⟨i, hi⟩ := mem_iff_getElem?.mp hv
  rw [h.height_of_getElem? hi]
  omega

theorem Linked.pairwise_height : chain.Pairwise fun v w => v.block.height < w.block.height := by
  induction chain generalizing start with
  | nil => exact List.Pairwise.nil
  | cons v chain ih => exact List.Pairwise.cons (fun w hw => h.2.2.lt_height hw) (ih h.2.2)

end

theorem tipId_concat (start : BlockId) (chain : Chain E) (v : VisibleBlock E) :
    tipId start (chain ++ [v]) = v.block.blockId := by
  simp [tipId]

theorem take_succ_eq {k : Nat} (h : chain[k]? = some v) :
    chain.take (k + 1) = chain.take k ++ [v] := by
  rw [take_add_one, h]
  rfl

/-! ## The summary of a chain -/

/-- The sequence checkpoint a true evidence record holds for `chain`. -/
def sequenceSummary (start : BlockId) (chain : Chain E) : CanonicalSequenceCheckpoint D :=
  { through := tipId start chain
    retainedBlockCount := chain.length
    sequenceDigest := CanonicalBlockFactsSequenceDigest.ofItems E.hash
      (chain.map fun v => v.block.digest)
    logicalReplayBytes := (chain.map fun v => v.block.replayBytes).sum }

theorem sequenceSummary_concat (start : BlockId) (chain : Chain E) (v : VisibleBlock E) :
    sequenceSummary start (chain ++ [v]) =
      { through := v.block.blockId
        retainedBlockCount := (sequenceSummary start chain).retainedBlockCount + 1
        sequenceDigest :=
          (sequenceSummary start chain).sequenceDigest.push E.hash v.block.digest
        logicalReplayBytes :=
          (sequenceSummary start chain).logicalReplayBytes + v.block.replayBytes } := by
  simp [sequenceSummary, tipId, CanonicalBlockFactsSequenceDigest.ofItems_concat]

theorem sequenceSummary_digest (start : BlockId) (chain : Chain E) :
    (sequenceSummary start chain).sequenceDigest =
      ⟨(sequenceSummary start chain).retainedBlockCount,
        (sequenceSummary start chain).sequenceDigest.bytes⟩ := by
  have hcount : (sequenceSummary start chain).sequenceDigest.blockCount =
      (sequenceSummary start chain).retainedBlockCount := by simp [sequenceSummary]
  rw [← hcount]

/-! ## Ownership of keys -/

def Key.height? : Key → Option Nat
  | .blockHeader h | .blockReplay h | .compactBlock h | .blockBlob h
  | .treeStateCheckpoint h | .blockFinalNoteCommitmentRoots h => some h
  | _ => none

def Key.IsHeightKey (k : Key) : Prop := k.height?.isSome = true

theorem mem_ownedKeys :
    k ∈ v.ownedKeys ↔
      match k with
      | .blockHeader h | .blockReplay h | .compactBlock h | .blockBlob h
      | .treeStateCheckpoint h | .blockFinalNoteCommitmentRoots h => h = v.block.height
      | .blockHashIndex x => x = v.block.hash
      | .transactionLocation t => t ∈ v.block.transactionIds
      | .transactionBlob h i => h = v.block.height ∧ i < v.block.transactionIds.length
      | .subtreeRoot p i => (p, i) ∈ v.roots.map SubtreeRootArtifact.position
      | _ => False := by
  simp only [VisibleBlock.ownedKeys, mem_append, mem_blockKeys]
  cases k <;> simp [subtreeKey, Prod.ext_iff]

theorem height_of_mem_ownedKeys {h : Nat} (hk : k ∈ v.ownedKeys) (hh : k.height? = some h) :
    v.block.height = h := by
  rw [mem_ownedKeys] at hk
  cases k <;> simp_all [Key.height?]

theorem rows_keys_sublist (hv : Admitted v.block) : v.rows.keys.Sublist v.ownedKeys := by
  rw [VisibleBlock.rows, keys_append, rootRows_keys]
  exact (blockRows_keys_sublist v.block hv.blobs_le).append_right _

abbrev Apart (k : Key) (chain : Chain E) : Prop :=
  chain.Pairwise fun v w => k ∈ v.ownedKeys → k ∉ w.ownedKeys

theorem Linked.apart (h : Linked start chain) (hk : k.IsHeightKey) : Apart k chain := by
  obtain ⟨n, hn⟩ := Option.isSome_iff_exists.mp hk
  refine h.pairwise_height.imp fun {v w} hlt hv hw => ?_
  have := height_of_mem_ownedKeys hv hn
  have := height_of_mem_ownedKeys hw hn
  omega

theorem mem_completedBetween_of_tail {start sizes : ChainTipMetadata} (h : RootsLinked start chain)
    (hmono : SubtreeMonotone sizes start) (hv : v ∈ chain) {p : ShieldedProtocol} {i : Nat}
    (hi : (p, i) ∈ v.roots.map SubtreeRootArtifact.position) :
    sizes.completedSubtreeCount p ≤ i := by
  induction chain generalizing start with
  | nil => simp at hv
  | cons w chain ih =>
    obtain ⟨hw, hroots, hrest⟩ := h
    rcases mem_cons.mp hv with rfl | hv
    · rw [hroots, mem_completedBetween] at hi
      exact (hmono p).trans hi.1
    · exact ih hrest (hmono.trans hw) hv

theorem RootsLinked.monotone {start : ChainTipMetadata} (h : RootsLinked start chain) :
    SubtreeMonotone start (tipSizes start chain) := by
  induction chain generalizing start with
  | nil => exact SubtreeMonotone.refl _
  | cons v chain ih => exact h.1.trans (ih h.2.2)

theorem RootsLinked.apart {start : ChainTipMetadata} (h : RootsLinked start chain)
    (p : ShieldedProtocol) (i : Nat) :
    Apart (.subtreeRoot p i) chain := by
  induction chain generalizing start with
  | nil => exact List.Pairwise.nil
  | cons v chain ih =>
    obtain ⟨_, hroots, hrest⟩ := h
    refine List.Pairwise.cons (fun w hw hv hmem => ?_) (ih hrest)
    have hv : (p, i) ∈ v.roots.map SubtreeRootArtifact.position := mem_ownedKeys.mp hv
    rw [hroots, mem_completedBetween] at hv
    have := mem_completedBetween_of_tail hrest (SubtreeMonotone.refl _) hw (mem_ownedKeys.mp hmem)
    omega

theorem UniqueIds.apart {sizes : ChainTipMetadata} (hunique : UniqueIds chain)
    (hlinked : Linked start chain) (hroots : RootsLinked sizes chain) (k : Key) :
    Apart k chain := by
  cases k with
  | blockHashIndex x =>
    have := pairwise_map.mp hunique.hashes
    refine this.imp fun {v w} hne hv hw => ?_
    rw [mem_ownedKeys] at hv hw
    exact hne (hv.symm.trans hw)
  | transactionLocation t =>
    have := (nodup_flatMap.mp hunique.transactionIds).2
    refine this.imp fun {v w} hdisjoint hv hw => ?_
    rw [mem_ownedKeys] at hv hw
    exact hdisjoint hv hw
  | subtreeRoot p i => exact hroots.apart p i
  | transactionBlob h i =>
    refine hlinked.pairwise_height.imp fun {v w} hlt hv hw => ?_
    have hv := (mem_ownedKeys.mp hv).1
    have hw := (mem_ownedKeys.mp hw).1
    omega
  | blockHeader | blockReplay | compactBlock | blockBlob | treeStateCheckpoint
  | blockFinalNoteCommitmentRoots => exact hlinked.apart rfl
  | chainEpoch | chainEvent | storeControl | displacedState | displacedOrder
  | displacedHashPointer | displacedEventContext =>
    exact pairwise_of_forall fun v w hv => by simp [mem_ownedKeys] at hv

/-! ## The rows of a store -/

/-- The rows of a store whose visible chain is `chain`: the checkpoint of the history predecessor,
the roots completed before retained history, and the rows of every visible block. -/
def storedRows (plan : CanonicalStoreBuildPlan) (earlierRoots : List SubtreeRootArtifact)
    (chain : Chain E) : List (Row (Val D)) :=
  predecessorRow plan :: (earlierRoots.map SubtreeRootArtifact.row ++
    chain.flatMap VisibleBlock.rows)

theorem flatMap_keys (chain : Chain E) :
    (chain.flatMap VisibleBlock.rows).keys = chain.flatMap fun v => v.rows.keys := by
  simp [List.keys, map_flatMap]

theorem mem_keys_flatMap (h : ∀ v ∈ chain, Admitted v.block)
    (hk : k ∈ (chain.flatMap VisibleBlock.rows).keys) :
    k ∈ chain.flatMap VisibleBlock.ownedKeys := by
  rw [flatMap_keys, mem_flatMap] at hk
  obtain ⟨v, hv, hk⟩ := hk
  exact mem_flatMap.mpr ⟨v, hv, (rows_keys_sublist (h v hv)).subset hk⟩

/-- Replacing the suffix `gone` of a chain by `new`. The batch deletes every key `gone` owns, puts
the rows of `new`, and touches no other key of the class `S`; the store then agrees with the rows
of the new chain on `S`. -/
theorem agreesOn_replace {S : Key → Prop} {plan : CanonicalStoreBuildPlan}
    {earlier : List SubtreeRootArtifact} {kept gone new : Chain E} {db : Db D} {dels : List Key}
    {rest : List (Op (Val D))}
    (hdb : AgreesOn S db (storedRows plan earlier (kept ++ gone)))
    (hgone : ∀ v ∈ gone, Admitted v.block) (hkept : ∀ v ∈ kept, Admitted v.block)
    (hnew : ∀ v ∈ new, Admitted v.block)
    (hold : ∀ k, S k → Apart k (kept ++ gone)) (hapart : ∀ k, S k → Apart k (kept ++ new))
    (hbase : ∀ k, S k → ∀ v ∈ gone ++ new, k ∈ v.ownedKeys →
      k ∉ (predecessorRow plan :: earlier.map SubtreeRootArtifact.row : List (Row (Val D))).keys)
    (hdels : ∀ k, S k → (k ∈ dels ↔ k ∈ gone.flatMap VisibleBlock.ownedKeys))
    (hone : ∀ k, S k → ∀ v ∈ new, v.rows.keys.count k ≤ 1)
    (hrest : ∀ k, S k → k ∉ rest.map Op.key) :
    AgreesOn S
      (write (dels.map Op.delete ++ (new.flatMap VisibleBlock.rows).map Op.ofRow ++ rest) db)
      (storedRows plan earlier (kept ++ new)) := by
  intro k hk
  have hsplit : ∀ a b : Chain E, storedRows plan earlier (a ++ b) =
      (storedRows plan earlier a : List (Row (Val D))) ++ b.flatMap VisibleBlock.rows := by
    intro a b
    simp [storedRows]
  rw [hsplit]
  have houtside : ∀ suffix : Chain E, Apart k (kept ++ suffix) →
      (∀ v ∈ suffix, k ∈ v.ownedKeys →
        k ∉ (predecessorRow plan :: earlier.map SubtreeRootArtifact.row : List (Row (Val D))).keys) →
      k ∈ suffix.flatMap VisibleBlock.ownedKeys → k ∉ (storedRows plan earlier kept).keys := by
    intro suffix hpair hbase hmem hin
    rw [storedRows, ← cons_append, keys_append, mem_append] at hin
    rcases hin with hin | hin
    · obtain ⟨v, hv, hkv⟩ := mem_flatMap.mp hmem
      exact hbase v hv hkv hin
    · exact notMem_flatMap_of_pairwise hpair (mem_keys_flatMap hkept hin) hmem
  refine lookup_replace (by rw [hdb k hk, hsplit]) ?_ ?_ ?_ ?_ (hrest k hk)
  · exact fun hmem => (hdels k hk).mpr (mem_keys_flatMap hgone hmem)
  · intro hmem
    exact houtside gone (hold k hk) (fun v hv => hbase k hk v (by simp [hv]))
      ((hdels k hk).mp hmem)
  · intro hmem
    exact houtside new (hapart k hk) (fun v hv => hbase k hk v (by simp [hv]))
      (mem_keys_flatMap hnew hmem)
  · rw [flatMap_keys]
    refine count_flatMap_le_one (hone k hk) ?_
    refine (pairwise_append.mp (hapart k hk)).2.1.imp_of_mem fun {v w} hv hw h hkv hkw => ?_
    exact h ((rows_keys_sublist (hnew v hv)).subset hkv) ((rows_keys_sublist (hnew w hw)).subset hkw)

end Zinder.Canonical
