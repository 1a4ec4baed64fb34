import Zinder.Ingest.FollowSound
import Zinder.Canonical.CommitProgress

/-!
# Zinder.Ingest.PreparedBlock

Every block the follower prepares is one a wallet store admits. The preparation checks less than the
store does: that blobs sit at their transactions, that compact transactions point at the facts they
come from, and that the derived checkpoint has the positioned sizes, all follow from how the block
is built. `prepareLiveBlock_follows` collects them.
-/

namespace Zinder.Ingest

open Canonical List

variable {D : Type} {E : Env D} {L : BlockLibrary}

/-! ## Transactions -/

def Located (H : FactsHash D) (source : SourceBlock)
    (entry : (CanonicalTransactionFacts × TransactionBlobArtifact) × Nat) : Prop :=
  entry.2 < u32Bound ∧
    entry.1.2.location =
      ⟨entry.1.1.transactionId, source.height.val, source.hash, entry.2⟩ ∧
    H.serializedBytes entry.1.2.rawTransactionBytes = entry.1.1.serializedBytesDigest

def BlobsMatch (H : FactsHash D) (source : SourceBlock) (retention : RawBlobRetention)
    (p : PreparedCanonicalTransactions) : Prop :=
  if retention.retainsTransactionBlobs then
    p.transactionBlobs.length = p.facts.length ∧
      ∀ entry ∈ (p.facts.zip p.transactionBlobs).zipIdx, Located H source entry
  else p.transactionBlobs = []

variable {activations : NetworkUpgradeActivations} {source : SourceBlock}
  {p : PreparedCanonicalBlock E} {retention : RawBlobRetention} {sizes : ChainTipMetadata}
  {H : FactsHash D}

theorem prepareCanonicalTransaction_eq_ok {state state' : Nat × PreparedCanonicalTransactions}
    {entry : (L.Transaction × Nat) × Nat} (hindex : state.2.facts.length = entry.2)
    (hmatch : BlobsMatch H source retention state.2)
    (h : prepareCanonicalTransaction H source activations retention state entry = .ok state') :
    BlobsMatch H source retention state'.2 ∧ state'.2.facts.length = entry.2 + 1 ∧
      entry.2 < u32Bound := by
  simp only [prepareCanonicalTransaction, bind_eq_ok, rejectIf_eq_ok, not_le] at h
  obtain ⟨_, hlt, ⟨raw, _⟩, _, set, _, h⟩ := h
  cases h
  refine ⟨?_, by simp [hindex], hlt⟩
  unfold BlobsMatch at hmatch ⊢
  split at hmatch
  · next hretains =>
    obtain ⟨hlength, hlocated⟩ := hmatch
    rw [if_pos hretains, if_pos hretains]
    refine ⟨by simp [hlength], ?_⟩
    rw [zip_append hlength.symm, zipIdx_append]
    intro e he
    rcases mem_append.mp he with he | he
    · exact hlocated e he
    · have hposition : (state.2.facts.zip state.2.transactionBlobs).length = entry.2 := by
        rw [length_zip, hlength, Nat.min_self, hindex]
      simp only [zip_cons_cons, zip_nil_left, Nat.zero_add, hposition,
        zipIdx_singleton, mem_singleton] at he
      subst he
      exact ⟨hlt, rfl, rfl⟩
  · next hretains =>
    rw [if_neg hretains, if_neg hretains, hmatch]
    rfl

theorem prepareTransactions_loop {entries : List (L.Transaction × Nat)}
    {state state' : Nat × PreparedCanonicalTransactions} {k : Nat} (hk : state.2.facts.length = k)
    (hbound : k ≤ u32Bound) (hmatch : BlobsMatch H source retention state.2)
    (h : loop (prepareCanonicalTransaction (L := L) H source activations retention)
      state (entries.zipIdx k) = .ok state') :
    BlobsMatch H source retention state'.2 ∧ state'.2.facts.length ≤ u32Bound := by
  induction entries generalizing state k with
  | nil =>
    cases h
    exact ⟨hmatch, hk.trans_le hbound⟩
  | cons entry entries ih =>
    rw [zipIdx_cons, loop_cons_eq_ok] at h
    obtain ⟨next, hstep, hrest⟩ := h
    obtain ⟨hnext, hlength, hlt⟩ := prepareCanonicalTransaction_eq_ok hk hmatch hstep
    exact ih hlength hlt hnext hrest

theorem prepareTransactions_eq_ok {parsed : L.Block} {p : PreparedCanonicalTransactions}
    (h : prepareCanonicalTransactionsFromParsed H parsed source activations retention = .ok p) :
    BlobsMatch H source retention p ∧ p.facts.length ≤ u32Bound := by
  simp only [prepareCanonicalTransactionsFromParsed, bind_eq_ok] at h
  obtain ⟨⟨_, _⟩, _, ⟨_, _⟩, hloop, _, _, h⟩ := h
  cases h
  refine prepareTransactions_loop rfl (Nat.zero_le _) ?_ hloop
  unfold BlobsMatch
  split <;> simp

/-! ## Compact transactions -/

def PointsAt (facts : List CanonicalTransactionFacts) (t : CompactTransaction) : Prop :=
  ∃ f, facts[t.index]? = some f ∧ f.transactionId = t.transactionId

theorem compactTransactions_loop {facts : List CanonicalTransactionFacts}
    {entries : List ((L.Transaction × CanonicalTransactionFacts) × Nat)}
    (hentries : ∀ e ∈ entries, facts[e.2]? = some e.1.2)
    {state state' : List CompactTransaction × ChainTipMetadata}
    (hstate : ∀ t ∈ state.1, PointsAt facts t)
    (h : loop (compactTransaction (L := L)) state entries = .ok state') :
    ∀ t ∈ state'.1, PointsAt facts t := by
  induction entries generalizing state with
  | nil =>
    cases h
    exact hstate
  | cons entry entries ih =>
    obtain ⟨next, hstep, hrest⟩ := loop_cons_eq_ok.mp h
    refine ih (fun e he => hentries e (mem_cons_of_mem _ he)) ?_ hrest
    simp only [compactTransaction, bind_eq_ok] at hstep
    obtain ⟨_, _, _, _, _, _, _, _, hstep⟩ := hstep
    cases hstep
    split
    · intro t ht
      rcases mem_append.mp ht with ht | ht
      · exact hstate t ht
      · rw [mem_singleton] at ht
        subst ht
        exact ⟨entry.1.2, hentries entry mem_cons_self, rfl⟩
    · exact hstate

theorem compactTransactions_eq_ok {parsed : L.Block} {facts : List CanonicalTransactionFacts}
    {transactions : List CompactTransaction}
    (h : compactTransactions parsed facts = .ok (transactions, sizes)) :
    ∀ t ∈ transactions, PointsAt facts t := by
  simp only [compactTransactions, bind_eq_ok] at h
  obtain ⟨_, _, hloop⟩ := h
  refine compactTransactions_loop (fun e he => ?_) (by simp) hloop
  rw [mem_zipIdx_iff_getElem?, getElem?_zip_eq_some] at he
  exact he.2

/-! ## The prepared block -/

/-- What preparation gives: the facts of the source block, with artifacts that agree with them. -/
structure PreparedSpec (source : SourceBlock) (retention : RawBlobRetention)
    (p : PreparedCanonicalBlock E) : Prop where
  height : p.facts.height = source.height.val
  hash : p.facts.blockHash = source.hash
  parentHash : p.facts.parentHash = source.parentHash
  time : u32OfInt p.facts.blockHeader.blockTime = some source.blockTimeSeconds
  envelope : p.replayEnvelope.toReplayFields =
    encodeCanonicalBlockReplay E.hash E.replay p.facts
  blobs : BlobsMatch E.hash source retention ⟨p.facts.transactions, p.transactionBlobs⟩
  count_le : p.facts.transactions.length ≤ u32Bound
  blockBlob : p.blockBlob = if retention.retainsBlockBlobs then
    some ⟨source.height.val, source.hash, source.parentHash, source.rawBlockBytes⟩ else none
  digest : p.facts.serializedBytesDigest = E.hash.serializedBytes source.rawBlockBytes
  compact : ∃ transactions, p.partialCompactBlock =
      ⟨source.height.val, source.hash, source.parentHash, source.blockTimeSeconds, transactions,
        .empty⟩ ∧
    ∀ t ∈ transactions, PointsAt p.facts.transactions t

theorem prepareCanonicalBlock_eq_ok
    (h : prepareCanonicalBlock L source activations retention = .ok p) :
    PreparedSpec source retention p := by
  simp only [prepareCanonicalBlock, bind_eq_ok, validateParsedBlockIdentity_eq_ok,
    newCompactBlock] at h
  obtain ⟨_, _, parsed, _, _, ⟨_, hhash, hparent, htime⟩, prepared, htransactions,
    ⟨transactions, _⟩, hcompact, compact, ⟨_, _, hnew⟩, h⟩ := h
  cases hnew
  cases h
  obtain ⟨hblobs, hcount⟩ := prepareTransactions_eq_ok htransactions
  exact
    { height := rfl
      hash := hhash
      parentHash := hparent
      time := htime
      envelope := rfl
      blobs := hblobs
      count_le := hcount
      blockBlob := by simp only [blockHeaderArtifactFromParsedBlock, hhash, hparent]
      digest := rfl
      compact := ⟨transactions, rfl, compactTransactions_eq_ok hcompact⟩ }

theorem addTreeSizes_monotone {sizes additions final : ChainTipMetadata}
    (h : addTreeSizes sizes additions = .ok final) : SubtreeMonotone sizes final := by
  simp only [addTreeSizes, bind_eq_ok, okOr_eq_ok, checkedAdd_eq_some] at h
  obtain ⟨_, ⟨_, rfl⟩, _, ⟨_, rfl⟩, _, ⟨_, rfl⟩, h⟩ := h
  cases h
  intro p
  refine Nat.div_le_div_right ?_
  cases p <;> exact Nat.le_add_right _ _

theorem positionCanonicalBlock_eq_ok {running : ChainTipMetadata}
    {positioned : PositionedCanonicalBlock E}
    (h : positionCanonicalBlock p running = .ok positioned) :
    SubtreeMonotone running positioned.tipMetadata ∧
      positioned = ⟨p.facts, p.replayEnvelope, p.blockBlob, p.transactionBlobs,
        { p.partialCompactBlock with chainMetadata := positioned.tipMetadata },
        positioned.tipMetadata⟩ := by
  simp only [positionCanonicalBlock, bind_eq_ok, newCompactBlock] at h
  obtain ⟨final, hfinal, _, ⟨_, _, hnew⟩, h⟩ := h
  cases hnew
  cases h
  exact ⟨addTreeSizes_monotone hfinal, rfl⟩

/-! ## Commitments -/

theorem compactCommitments_of_prepared {commitments : BlockCommitments}
    (h : compactBlockCommitments p = .ok commitments) (subject : String) (height : Nat)
    {compact : CompactBlockArtifact}
    (hcompact : compact.transactions = p.partialCompactBlock.transactions) :
    compactCommitments subject height compact = .ok commitments := by
  have hbytes : ∀ {protocol : ShieldedProtocol} {encoded : List Bytes} {decoded : List Bytes32},
      collect (compactCommitmentBytes p.facts.height protocol) encoded = .ok decoded →
      collect (commitmentBytes subject height protocol) encoded = .ok decoded := by
    intro protocol encoded decoded hcollect
    rw [collect_eq_ok] at hcollect ⊢
    refine hcollect.imp fun bytes value hvalue => ?_
    simp only [compactCommitmentBytes, okOr_eq_ok] at hvalue
    simp only [commitmentBytes, okOr_eq_ok, hvalue]
  simp only [compactBlockCommitments, bind_eq_ok] at h
  obtain ⟨parts, hparts, h⟩ := h
  cases h
  simp only [compactCommitments, bind_eq_ok]
  refine ⟨parts, ?_, rfl⟩
  rw [hcompact, collect_eq_ok]
  rw [collect_eq_ok] at hparts
  refine hparts.imp fun t part hpart => ?_
  simp only [compactTransactionCommitments, bind_eq_ok] at hpart
  obtain ⟨s, hs, o, ho, i, hi, hpart⟩ := hpart
  cases hpart
  simp only [transactionCommitments, bind_eq_ok]
  exact ⟨s, hbytes hs, o, hbytes ho, i, hbytes hi, rfl⟩

/-! ## Admission -/

theorem u32OfInt_eq_some {x : Int} {n : Nat} (h : u32OfInt x = some n) : (n : Int) = x := by
  unfold u32OfInt at h
  split at h
  · next hbounds =>
    rw [Option.some.injEq] at h
    rw [← h]
    exact Int.toNat_of_nonneg hbounds.1
  · cases h

theorem validateLiveBlock_prepared [DecidableEq D] (h : PreparedSpec source retention p)
    {checkpoint : CommitmentTreeCheckpoint}
    (hid : checkpoint.blockId = ⟨source.height.val, source.hash⟩)
    (htime : checkpoint.blockTimeSeconds = source.blockTimeSeconds)
    (hsizes : checkpoint.tipMetadata = sizes) :
    validateLiveBlock .wallet retention (canonicalBuildBlock
      ⟨p.facts, p.replayEnvelope, p.blockBlob, p.transactionBlobs,
        { p.partialCompactBlock with chainMetadata := sizes }, sizes⟩ (some checkpoint) none) =
      .ok () := by
  obtain ⟨transactions, hcompact, hpoints⟩ := h.compact
  have hblobs := h.blobs
  have hcompactHeight : p.partialCompactBlock.height = p.facts.height := by simp [hcompact, h.height]
  have hcompactHash : p.partialCompactBlock.blockHash = p.facts.blockHash := by
    simp [hcompact, h.hash]
  simp only [validateLiveBlock, validateBlock, bind_eq_ok, Unique.exists_iff]
  refine ⟨?_, rejectIf_of_not (not_or.mpr ⟨not_not.mpr hcompactHeight, not_not.mpr hcompactHash⟩),
    ?_, ?_, ?_, ?_, rfl⟩
  · refine rejectIf_of_not ?_
    simp only [canonicalBuildBlock, CanonicalBuildBlock.height, CanonicalBuildBlock.hash,
      CanonicalBuildBlock.parentHash, CanonicalBuildBlock.digest, h.envelope,
      encodeCanonicalBlockReplay]
    simp
  · obtain ⟨us, hus⟩ : ∃ us, collect (validateCompactTransaction (E := E)
        (canonicalBuildBlock ⟨p.facts, p.replayEnvelope, p.blockBlob, p.transactionBlobs,
          { p.partialCompactBlock with chainMetadata := sizes }, sizes⟩ (some checkpoint) none))
        transactions = .ok us := by
      refine collect_unit_ok fun t ht => ?_
      obtain ⟨f, hf, hfid⟩ := hpoints t ht
      simp only [validateCompactTransaction, bind_eq_ok, okOr_eq_ok, rejectIf_eq_ok, not_not]
      exact ⟨f, hf, hfid⟩
    simp only [validateCompactBlockPayload, bind_eq_ok, rejectIf_eq_ok, not_or, not_not]
    refine ⟨(), ⟨hcompactHeight, hcompactHash, ?_, ?_, rfl⟩, us, ?_, trivial⟩
    · simp [canonicalBuildBlock, CanonicalBuildBlock.parentHash, hcompact, h.parentHash]
    · simp [canonicalBuildBlock, hcompact, h.time]
    · simpa [canonicalBuildBlock, hcompact] using hus
  · simp only [validateTransactionBlobs, bind_eq_ok, rejectIf_eq_ok, not_not]
    unfold BlobsMatch at hblobs
    split at hblobs
    · next hretains =>
      obtain ⟨us, hus⟩ : ∃ us, collect (validateTransactionBlob (E := E)
          (canonicalBuildBlock ⟨p.facts, p.replayEnvelope, p.blockBlob, p.transactionBlobs,
            { p.partialCompactBlock with chainMetadata := sizes }, sizes⟩ (some checkpoint) none))
          (p.facts.transactions.zip p.transactionBlobs).zipIdx = .ok us := by
        refine collect_unit_ok fun entry he => ?_
        obtain ⟨hlt, hlocation, hdigest⟩ := hblobs.2 entry he
        simp only [validateTransactionBlob, bind_eq_ok, rejectIf_eq_ok, not_or, not_not, not_le,
          hlocation]
        exact ⟨(), hlt, (), ⟨trivial, h.height.symm, h.hash.symm, trivial⟩, hdigest⟩
      exact ⟨(), by simp only [hretains, if_true]; exact hblobs.1, us, hus, trivial⟩
    · next hretains =>
      have hnone : p.transactionBlobs = [] := hblobs
      refine ⟨(), by simp [hretains, canonicalBuildBlock, hnone], [], ?_, trivial⟩
      simp [canonicalBuildBlock, hnone, collect]
  · simp only [validateBlockBlob, canonicalBuildBlock, h.blockBlob]
    cases hretains : retention.retainsBlockBlobs with
    | false => rfl
    | true =>
      simp only [if_true, bind_eq_ok, rejectIf_eq_ok, not_or, not_not]
      exact ⟨(), ⟨h.height.symm, h.hash.symm, h.parentHash.symm⟩, h.digest.symm⟩
  · have hrequired : ∀ height, treeStateCheckpointRequired height height = true := by
      simp [treeStateCheckpointRequired]
    simp only [validateTreeStateCheckpoint, hrequired]
    refine rejectIf_of_not ?_
    simp only [not_or, not_not]
    refine ⟨?_, ?_, hsizes⟩
    · rw [hid]
      simp only [canonicalBuildBlock, CanonicalBuildBlock.blockId, CanonicalBlockFacts.blockId,
        h.height, h.hash]
    · rw [htime]
      exact u32OfInt_eq_some h.time

theorem prepareLiveBlock_monotone {predecessor checkpoint : CommitmentTreeCheckpoint}
    {block : CanonicalBuildBlock E}
    (h : prepareLiveBlock L source predecessor checkpoint activations retention =
      .ok (block, sizes)) :
    block.tipMetadata = sizes ∧ SubtreeMonotone predecessor.tipMetadata sizes := by
  simp only [prepareLiveBlock, bind_eq_ok, mapError_ok_iff, Unique.exists_iff] at h
  obtain ⟨prepared, _, commitments, _, seeded, _, appended, _, positioned, hpositioned, _, _, _, _,
    h⟩ := h
  cases h
  exact ⟨rfl, (positionCanonicalBlock_eq_ok hpositioned).1⟩

theorem prepareLiveBlock_follows [DecidableEq D] (hT : E.trees.Lawful)
    {predecessor checkpoint : CommitmentTreeCheckpoint} {block : CanonicalBuildBlock E}
    {roots : List CanonicalBuildSubtreeRoot}
    (h : prepareLiveBlock L source predecessor checkpoint activations retention =
      .ok (block, sizes))
    (hparent : source.parentHash = predecessor.blockId.hash)
    (hroots : roots.map CanonicalBuildSubtreeRoot.position =
      completedBetween predecessor.tipMetadata sizes)
    (hheights : ∀ r ∈ roots, r.completingBlockHeight = source.height.val) :
    Follows activations .wallet retention predecessor ⟨block, roots⟩ checkpoint := by
  have hmono := (prepareLiveBlock_monotone h).2
  have hheight := (prepareLiveBlock_identity h).2
  simp only [prepareLiveBlock, bind_eq_ok, mapError_ok_iff, rejectIf_eq_ok, not_not] at h
  obtain ⟨p, hprepared, commitments, hcommitments, seeded, hseeded, appended, happended,
    positioned, hpositioned, _, hsizes, ⟨frontiers, rooted⟩, hfrontiers, _, hderived, h⟩ := h
  cases h
  subst hderived
  have spec := prepareCanonicalBlock_eq_ok hprepared
  have hpositioned := (positionCanonicalBlock_eq_ok hpositioned).2
  -- the accumulator the block was prepared with, and what its snapshot seeds
  obtain ⟨hexact, hactivations⟩ :=
    (CommitmentTreeAccumulator.fromValidatedFrontiers_exact hseeded).append hT happended
  obtain ⟨hreseed, hfrontierSizes, hrootedSizes⟩ := hexact.reseed hT hfrontiers
  have htip := (CommitmentTreeAccumulator.appendBlockCommitments_height happended).2
  have hseedActivations : seeded.activations = activations :=
    (CommitmentTreeAccumulator.fromValidatedFrontiers_eq_ok hseeded).2
  have hvalid : validateLiveBlock .wallet retention (canonicalBuildBlock positioned
      (some ⟨⟨source.height.val, source.hash⟩, source.blockTimeSeconds, frontiers⟩) none) =
      .ok () := by
    rw [hpositioned]
    exact validateLiveBlock_prepared spec rfl rfl (hfrontierSizes.trans hsizes.symm)
  have hblock : positioned.facts = p.facts := by rw [hpositioned]
  have hcompact : positioned.compactBlock.transactions =
      p.partialCompactBlock.transactions := by rw [hpositioned]
  have hblockHeight : (canonicalBuildBlock positioned
      (some ⟨⟨source.height.val, source.hash⟩, source.blockTimeSeconds, frontiers⟩) none).height =
      source.height.val := by
    simp only [canonicalBuildBlock, CanonicalBuildBlock.height, hblock, spec.height]
  have hcount : p.transactionBlobs.length ≤ u32Bound := by
    have := (validateBlock_admitted hvalid).blobs_le
    have hle := spec.count_le
    rw [hpositioned] at this
    exact this.trans hle
  exact
    { valid := hvalid
      height := hheight
      parentHash := by
        rw [← hparent, ← spec.parentHash, ← hblock]
        rfl
      checkpoint_eq := rfl
      trees := by
        refine ⟨commitments, seeded, appended, rooted,
          fun subject => compactCommitments_of_prepared hcommitments subject _ hcompact, hseeded,
          ?_, hfrontiers, hrootedSizes.trans hsizes.symm, ?_⟩
        · rw [hblockHeight]
          exact happended
        · rw [hblockHeight, ← htip, ← hseedActivations, ← hactivations]
          exact hreseed
      rows := by
        refine fromBlock_ok ?_ ?_ hmono hroots fun r hr => ?_
        · simp only [canonicalBuildBlock, hblock]
          exact spec.count_le
        · rw [hpositioned]
          exact hcount
        · rw [hheights r hr, hblockHeight] }

end Zinder.Ingest
