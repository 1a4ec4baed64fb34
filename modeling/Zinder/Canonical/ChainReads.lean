import Zinder.Canonical.Chain
import Zinder.Canonical.Reads

/-!
# Zinder.Canonical.ChainReads

Reading a store whose height-keyed families hold exactly the rows of a linked chain.

`HoldsChain` is the relation between a database and its visible chain; each theorem below is what
one read of `Zinder.Canonical.Reads` returns under it. `HoldsChain.resume_eq_ok` is the split law
of the sequence checkpoint: resuming a true prefix summary over the stored rows gives the summary
of the longer prefix.
-/

namespace Zinder.Canonical

open KeyValue List

variable {D : Type} {E : Env D}

/-- The height-keyed families of `db` hold exactly the rows of `chain`, a linked chain of admitted
blocks above the history predecessor. -/
structure HoldsChain (plan : CanonicalStoreBuildPlan) (earlier : List SubtreeRootArtifact)
    (chain : Chain E) (db : Db D) : Prop where
  linked : Linked plan.historyPredecessor.blockId chain
  admitted : ∀ v ∈ chain, Admitted v.block
  rows : AgreesOn Key.IsHeightKey db (storedRows plan earlier chain)

/-! ## Each key once -/

theorem blockKeys_heightKeys_nodup (height : Nat) (hash : BlockHash) (n : Nat) :
    ([.blockHeader height, .blockReplay height, .compactBlock height, .blockHashIndex hash] ++
      (List.range n).map (Key.transactionBlob height) ++
      [.blockBlob height, .treeStateCheckpoint height,
        .blockFinalNoteCommitmentRoots height] : List Key).Nodup := by
  have hblobs : ((List.range n).map (Key.transactionBlob height)).Nodup :=
    nodup_range.map fun a b h => by simpa using h
  simp [nodup_append, hblobs]

variable {plan : CanonicalStoreBuildPlan} {v : VisibleBlock E} {k : Key}
  {earlier : List SubtreeRootArtifact}

theorem count_blockKeys_le_one {height : Nat} {hash : BlockHash} {ids : List TransactionId}
    (h : k.IsHeightKey ∨ ids.Nodup) : (blockKeys height hash ids).count k ≤ 1 := by
  have hcore := nodup_iff_count_le_one.mp
    (blockKeys_heightKeys_nodup height hash ids.length) k
  simp only [count_append] at hcore
  simp only [blockKeys, count_append]
  by_cases hloc : ∃ t, k = .transactionLocation t
  · obtain ⟨t, rfl⟩ := hloc
    have hids : ids.Nodup := h.resolve_left (by simp [Key.IsHeightKey, Key.height?])
    have := nodup_iff_count_le_one.mp
      (hids.map (f := Key.transactionLocation) fun a b h => by simpa using h)
      (.transactionLocation t)
    have hblobs : ((List.range ids.length).map (Key.transactionBlob height)).count
        (.transactionLocation t) = 0 := count_eq_zero.mpr (by simp)
    have hfirst : ([.blockHeader height, .blockReplay height, .compactBlock height,
        .blockHashIndex hash] : List Key).count (.transactionLocation t) = 0 :=
      count_eq_zero.mpr (by simp)
    have hlast : ([.blockBlob height, .treeStateCheckpoint height,
        .blockFinalNoteCommitmentRoots height] : List Key).count (.transactionLocation t) = 0 :=
      count_eq_zero.mpr (by simp)
    omega
  · have : (ids.map Key.transactionLocation).count k = 0 := by
      refine count_eq_zero.mpr fun hmem => hloc ?_
      obtain ⟨t, _, rfl⟩ := mem_map.mp hmem
      exact ⟨t, rfl⟩
    omega

theorem count_ownedKeys_of_heightKey (hk : k.IsHeightKey) : v.ownedKeys.count k ≤ 1 := by
  have hroots : ((v.roots.map SubtreeRootArtifact.position).map subtreeKey).count k = 0 := by
    refine count_eq_zero.mpr fun hmem => ?_
    obtain ⟨_, _, rfl⟩ := mem_map.mp hmem
    simp [Key.IsHeightKey, Key.height?, subtreeKey] at hk
  have hblock : (blockKeys v.block.height v.block.hash v.block.transactionIds).count k ≤ 1 :=
    count_blockKeys_le_one (.inl hk)
  rw [VisibleBlock.ownedKeys, count_append]
  omega

theorem count_rows_of_heightKey (hv : Admitted v.block) (hk : k.IsHeightKey) :
    v.rows.keys.count k ≤ 1 :=
  ((rows_keys_sublist hv).count_le k).trans (count_ownedKeys_of_heightKey hk)

theorem notMem_base_of_lt (hk : k.IsHeightKey) (hmem : k ∈ v.ownedKeys)
    (hlt : plan.historyPredecessor.blockId.height < v.block.height) :
    k ∉ (predecessorRow plan :: earlier.map SubtreeRootArtifact.row : List (Row (Val D))).keys := by
  obtain ⟨n, hn⟩ := Option.isSome_iff_exists.mp hk
  have hheight := height_of_mem_ownedKeys hmem hn
  rw [keys_cons, rootRows_keys, mem_cons, not_or]
  constructor
  · rintro rfl
    simp only [predecessorRow, Key.height?, Option.some.injEq] at hn
    omega
  · intro hroot
    obtain ⟨_, _, rfl⟩ := mem_map.mp hroot
    simp [subtreeKey, Key.height?] at hn

theorem count_storedRows_le_one {chain : Chain E} (hadmitted : ∀ v ∈ chain, Admitted v.block)
    (hapart : Apart k chain) (hone : ∀ v ∈ chain, v.rows.keys.count k ≤ 1)
    (hbaseOne :
      (predecessorRow plan :: earlier.map SubtreeRootArtifact.row : List (Row (Val D))).keys.count k ≤ 1)
    (hbase : ∀ v ∈ chain, k ∈ v.ownedKeys →
      k ∉ (predecessorRow plan :: earlier.map SubtreeRootArtifact.row : List (Row (Val D))).keys) :
    (storedRows plan earlier chain).keys.count k ≤ 1 := by
  have hchain : (chain.flatMap VisibleBlock.rows).keys.count k ≤ 1 := by
    rw [flatMap_keys]
    refine count_flatMap_le_one hone (hapart.imp_of_mem fun {v w} hv hw hvw hkv hkw => ?_)
    exact hvw ((rows_keys_sublist (hadmitted v hv)).subset hkv)
      ((rows_keys_sublist (hadmitted w hw)).subset hkw)
  rw [storedRows, ← cons_append, keys_append, count_append]
  by_cases hmem : k ∈ (chain.flatMap VisibleBlock.rows).keys
  · obtain ⟨v, hv, hkv⟩ := mem_flatMap.mp (mem_keys_flatMap hadmitted hmem)
    rw [count_eq_zero.mpr (hbase v hv hkv)]
    omega
  · rw [count_eq_zero.mpr hmem]
    omega

theorem count_storedRows_of_heightKey {chain : Chain E}
    (hlinked : Linked plan.historyPredecessor.blockId chain)
    (hadmitted : ∀ v ∈ chain, Admitted v.block) (hk : k.IsHeightKey) :
    (storedRows plan earlier chain).keys.count k ≤ 1 := by
  refine count_storedRows_le_one hadmitted (hlinked.apart hk)
    (fun v hv => count_rows_of_heightKey (hadmitted v hv) hk) ?_
    fun v hv hmem => notMem_base_of_lt hk hmem (hlinked.lt_height hv)
  have hroots : k ∉ (earlier.map SubtreeRootArtifact.row : List (Row (Val D))).keys := by
    rw [rootRows_keys]
    intro hroot
    obtain ⟨_, _, rfl⟩ := mem_map.mp hroot
    simp [subtreeKey, Key.IsHeightKey, Key.height?] at hk
  rw [keys_cons, count_cons, count_eq_zero.mpr hroots]
  split <;> omega

namespace HoldsChain

variable {plan : CanonicalStoreBuildPlan} {earlier : List SubtreeRootArtifact} {chain : Chain E}
  {db : Db D}

theorem count_le_one (h : HoldsChain plan earlier chain db) {k : Key} (hk : k.IsHeightKey) :
    (storedRows plan earlier chain).keys.count k ≤ 1 :=
  count_storedRows_of_heightKey h.linked h.admitted hk

variable {v : VisibleBlock E} {c : CanonicalSequenceCheckpoint D}

section

variable (h : HoldsChain plan earlier chain db)
include h

theorem lookup_row (hv : v ∈ chain) {r : Row (Val D)} (hr : r ∈ blockRows v.block)
    (hk : r.1.IsHeightKey) :
    db.lookup r.1 = some r.2 := by
  have hrow : r ∈ v.rows := mem_append_left _ hr
  rw [h.rows r.1 hk]
  refine dlookup_of_mem ?_ (h.count_le_one hk)
  exact mem_cons_of_mem _ (mem_append_right _ (mem_flatMap.mpr ⟨v, hv, hrow⟩))

theorem lookup_header (hv : v ∈ chain) :
    db.lookup (Key.blockHeader v.block.height) = some v.block.facts.blockHeader :=
  h.lookup_row hv (r := ⟨.blockHeader v.block.height, v.block.facts.blockHeader⟩)
    (by simp [blockRows]) rfl

theorem lookup_replay (hv : v ∈ chain) :
    db.lookup (Key.blockReplay v.block.height) = some v.block.replayEnvelope.bytes :=
  h.lookup_row hv (r := ⟨.blockReplay v.block.height, v.block.replayEnvelope.bytes⟩)
    (by simp [blockRows]) rfl

theorem lookup_compact (hv : v ∈ chain) :
    db.lookup (Key.compactBlock v.block.height) = some v.block.compactBlock :=
  h.lookup_row hv (r := ⟨.compactBlock v.block.height, v.block.compactBlock⟩)
    (by simp [blockRows]) rfl

theorem owner_of_lookup {k : Key} (hk : k.IsHeightKey) (hsome : (db.lookup k).isSome) :
    k = .treeStateCheckpoint plan.historyPredecessor.blockId.height ∨
      ∃ v ∈ chain, k ∈ v.ownedKeys := by
  rw [h.rows k hk, dlookup_isSome, storedRows, keys_cons, keys_append,
    rootRows_keys, mem_cons, mem_append] at hsome
  rcases hsome with hpre | hroot | hmem
  · exact .inl hpre
  · obtain ⟨_, _, rfl⟩ := mem_map.mp hroot
    simp [subtreeKey, Key.IsHeightKey, Key.height?] at hk
  · exact .inr (mem_flatMap.mp (mem_keys_flatMap h.admitted hmem))

/-! ## Reads -/

theorem retainedBlockHash_eq (hv : v ∈ chain) :
    retainedBlockHash db v.block.height = .ok v.block.hash := by
  simp only [retainedBlockHash, h.lookup_header hv, okOr_some, ok_bind]
  rfl

theorem block_of_retainedBlockHash {height : Nat} {hash : BlockHash}
    (hread : retainedBlockHash db height = .ok hash) :
    ∃ v ∈ chain, v.block.height = height ∧ v.block.hash = hash := by
  have hsome : (db.lookup (Key.blockHeader height)).isSome := by
    simp only [retainedBlockHash, bind_eq_ok, okOr_eq_ok] at hread
    obtain ⟨_, hlookup, _⟩ := hread
    simp [hlookup]
  rcases h.owner_of_lookup (k := .blockHeader height) rfl hsome with hkey | ⟨v, hv, hmem⟩
  · cases hkey
  · have hheight : height = v.block.height := mem_ownedKeys.mp hmem
    subst hheight
    rw [h.retainedBlockHash_eq hv] at hread
    cases hread
    exact ⟨v, hv, rfl, rfl⟩

theorem readPersistedTipMetadata_eq (hv : v ∈ chain) :
    readPersistedTipMetadata db v.block.blockId = .ok v.block.tipMetadata := by
  have ha := h.admitted v hv
  simp only [readPersistedTipMetadata, bind_eq_ok, okOr_eq_ok, rejectIf_eq_ok, not_or, not_not]
  exact ⟨_, h.lookup_compact hv, (), ⟨ha.compact_height, ha.compact_hash⟩,
    congrArg Except.ok ha.compact_metadata⟩

end

variable [DecidableEq D]

section

variable (h : HoldsChain plan earlier chain db)
include h

theorem readPersistedReplay_eq_ok (hv : v ∈ chain) :
    ∃ facts : CanonicalBlockFacts, facts.height = v.block.height ∧
      facts.blockHash = v.block.hash ∧ facts.parentHash = v.block.parentHash ∧
      (v.block.OwnEnvelope → facts = v.block.facts) ∧
      ∀ p, readPersistedReplay E db v.block.height = .ok p ↔
        v.block.replayBytes < u64Bound ∧ p = ⟨⟨v.block.digest, facts⟩, v.block.replayBytes⟩ := by
  have ha := h.admitted v hv
  obtain ⟨facts, hdecode, hheight, hhash, hparent, hown⟩ := v.block.replayEnvelope.decode
  rw [ha.envelope_height] at hheight
  rw [ha.envelope_hash] at hhash
  rw [ha.envelope_parent] at hparent
  rw [ha.envelope_digest] at hdecode
  refine ⟨facts, hheight, hhash, hparent, hown _, fun p => ?_⟩
  simp only [readPersistedReplay, h.lookup_replay hv, okOr_some, ok_bind, decodePersistedReplay,
    hdecode, Except.mapError]
  rw [rejectIf_of_not (by simpa using hheight), ok_bind, ok_bind]
  simp only [bind_eq_ok, rejectIf_eq_ok, not_le, CanonicalBuildBlock.replayBytes]
  constructor
  · rintro ⟨_, hlt, hp⟩
    cases hp
    exact ⟨hlt, rfl⟩
  · rintro ⟨hlt, rfl⟩
    exact ⟨(), hlt, rfl⟩

theorem block_of_readPersistedReplay {height : Nat} {p : PersistedReplayStep D}
    (hread : readPersistedReplay E db height = .ok p) :
    ∃ v ∈ chain, v.block.height = height := by
  have hsome : (db.lookup (Key.blockReplay height)).isSome := by
    simp only [readPersistedReplay, bind_eq_ok, okOr_eq_ok] at hread
    obtain ⟨_, hlookup, _⟩ := hread
    simp [hlookup]
  rcases h.owner_of_lookup (k := .blockReplay height) rfl hsome with hkey | ⟨v, hv, hmem⟩
  · cases hkey
  · have hheight : height = v.block.height := mem_ownedKeys.mp hmem
    exact ⟨v, hv, hheight.symm⟩

/-! ## The sequence checkpoint -/

theorem resumeStep_eq_ok {k : Nat} (hv : chain[k]? = some v) :
    resumeStep E db (sequenceSummary plan.historyPredecessor.blockId (chain.take k))
        v.block.height = .ok c →
      c = sequenceSummary plan.historyPredecessor.blockId (chain.take (k + 1)) := by
  intro hstep
  have hmem : v ∈ chain := mem_of_getElem? hv
  obtain ⟨facts, _, hhash, _, _, hread⟩ := h.readPersistedReplay_eq_ok hmem
  simp only [resumeStep, bind_eq_ok, rejectIf_eq_ok, okOr_eq_ok, hread,
    CanonicalBlockFactsSequenceDigest.tryAppend_eq_some, checkedAdd_eq_some, Unique.exists_iff]
    at hstep
  obtain ⟨_, ⟨_, rfl⟩, _, _, ⟨_, rfl⟩, _, ⟨_, rfl⟩, _, ⟨_, rfl⟩, hc⟩ := hstep
  cases hc
  rw [take_succ_eq hv, sequenceSummary_concat]
  simp only [hhash]
  rfl

theorem resume_loop_eq_ok {k n : Nat}
    (hloop : loop (resumeStep E db)
      (sequenceSummary plan.historyPredecessor.blockId (chain.take k))
      (List.range' (plan.historyPredecessor.blockId.height + k + 1) n) = .ok c)
    (hn : k + n ≤ chain.length) :
    c = sequenceSummary plan.historyPredecessor.blockId (chain.take (k + n)) := by
  induction n generalizing k with
  | zero =>
    simp only [range'_zero, loop_nil, Except.ok.injEq] at hloop
    rw [← hloop, Nat.add_zero]
  | succ n ih =>
    rw [range'_succ, loop_cons_eq_ok] at hloop
    obtain ⟨t, hstep, hrest⟩ := hloop
    have hlt : k < chain.length := by omega
    have hv : chain[k]? = some chain[k] := getElem?_eq_getElem hlt
    have hheight : plan.historyPredecessor.blockId.height + k + 1 = chain[k].block.height := by
      rw [h.linked.height_of_getElem? hv]
      omega
    rw [hheight] at hstep
    rw [h.resumeStep_eq_ok hv hstep] at hrest
    have := ih (k := k + 1) hrest (by omega)
    rw [this, Nat.add_assoc, Nat.add_comm 1 n]

theorem resume_eq_ok {k through maximum : Nat}
    (hresume : resumePersistedSequenceCheckpoint E db
      (sequenceSummary plan.historyPredecessor.blockId (chain.take k)) through maximum = .ok c)
    (hk : k ≤ chain.length)
    (hthrough : through ≤ plan.historyPredecessor.blockId.height + chain.length) :
    plan.historyPredecessor.blockId.height + k ≤ through ∧
      c = sequenceSummary plan.historyPredecessor.blockId
        (chain.take (through - plan.historyPredecessor.blockId.height)) := by
  have hheight : (tipId plan.historyPredecessor.blockId (chain.take k)).height =
      plan.historyPredecessor.blockId.height + k := by
    have hlink : Linked plan.historyPredecessor.blockId (chain.take k) :=
      (linked_append.mp (by rw [take_append_drop]; exact h.linked)).1
    rw [hlink.tipId_height, length_take]
    omega
  simp only [resumePersistedSequenceCheckpoint, bind_eq_ok, okOr_eq_ok, checkedSub_eq_some,
    rejectIf_eq_ok] at hresume
  obtain ⟨_, ⟨hle, rfl⟩, _, _, hloop⟩ := hresume
  have hstart : (sequenceSummary plan.historyPredecessor.blockId (chain.take k)).through.height =
      plan.historyPredecessor.blockId.height + k := hheight
  rw [hstart] at hle hloop
  refine ⟨hle, ?_⟩
  have hend : through - plan.historyPredecessor.blockId.height =
      k + (through - (plan.historyPredecessor.blockId.height + k)) := by omega
  rw [hend]
  exact h.resume_loop_eq_ok hloop (by omega)

end

end HoldsChain

end Zinder.Canonical
