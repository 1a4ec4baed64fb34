import Zinder.Lib.Overlay
import Zinder.Mempool.EventStore

/-!
# Zinder.Mempool.Index

The process-local mempool index (`mempool/index.rs`): entries by transaction id, the transparent
overlays that guard them against double spends, and the outputs by address script.

`Applicable` says in terms of the entries alone when a transition can be applied. On an index whose
overlays match its entries (`MempoolIndex.Coherent`), `preflightEvent` decides exactly that
(`preflightEvent_eq_apply`), and a transition that passed it is applied, keeps the overlays matched
and changes the entries as the transition's keyed change says (`applyToIndex_applicable`).
-/

namespace Zinder.Mempool

open Std (ExtTreeMap)

inductive MempoolApplyOutcome where
  | applied
  | noChange
deriving DecidableEq

inductive MempoolIndexPreflight where
  | apply
  | noChange
deriving DecidableEq

inductive MempoolIndexInvariantError where
  | outputCollision (outpoint : TransparentOutPoint)
  | spendCollision (outpoint : TransparentOutPoint)
  | duplicateOutput (outpoint : TransparentOutPoint)
  | duplicateSpend (outpoint : TransparentOutPoint)
deriving DecidableEq

structure MempoolIndex where
  entries : ExtTreeMap TransactionId MempoolEntry
  outputByOutpoint : ExtTreeMap TransparentOutPoint TransparentMempoolOutput
  spendByOutpoint : ExtTreeMap TransparentOutPoint TransactionId
  outputsByAddress : Buckets TransparentAddressScriptHash TransparentOutPoint
    TransparentMempoolOutput compare compare
  lastAppliedEvent : Option MempoolEventPosition

def MempoolIndex.new : MempoolIndex := ⟨∅, ∅, ∅, ∅, none⟩

/-! ## Preflight -/

/-- One of the two loops of `preflight_event`: no outpoint of the entry repeats or is taken. -/
def checkOutpoints (duplicate collision : TransparentOutPoint → MempoolIndexInvariantError)
    (taken : TransparentOutPoint → Bool) :
    (seen outpoints : List TransparentOutPoint) → Except MempoolIndexInvariantError Unit
  | _, [] => .ok ()
  | seen, o :: rest => do
    rejectIf (o ∈ seen) (duplicate o)
    rejectIf (taken o = true) (collision o)
    checkOutpoints duplicate collision taken (o :: seen) rest

variable (index : MempoolIndex)

def MempoolIndex.preflightEvent (event : MempoolEvent) :
    Except MempoolIndexInvariantError MempoolIndexPreflight :=
  match event with
  | .added entry =>
    if index.entries.contains entry.transactionId then .ok .noChange
    else do
      checkOutpoints .duplicateOutput .outputCollision index.outputByOutpoint.contains []
        entry.createdOutpoints
      checkOutpoints .duplicateSpend .spendCollision index.spendByOutpoint.contains []
        entry.spentOutpoints
      .ok .apply
  | .invalidated id _ => .ok (if index.entries.contains id then .apply else .noChange)
  | .mined id _ _ => .ok (if index.entries.contains id then .apply else .noChange)

/-! ## Transitions -/

/-- Where an output stands among the outputs by address. -/
def addressKey (output : TransparentMempoolOutput) :
    TransparentAddressScriptHash × TransparentOutPoint :=
  (output.addressScriptHash, output.outpoint)

def indexSecondaryOverlays (entry : MempoolEntry) : MempoolIndex :=
  { index with
    outputByOutpoint := entry.transparentOutputs.foldl
      (fun m output => m.insert output.outpoint output) index.outputByOutpoint
    spendByOutpoint := entry.transparentSpends.foldl
      (fun m spend => m.insert spend.spentOutpoint entry.transactionId) index.spendByOutpoint
    outputsByAddress := entry.transparentOutputs.foldl
      (fun m output => m.put (addressKey output) output) index.outputsByAddress }

def unindexSecondaryOverlays (entry : MempoolEntry) : MempoolIndex :=
  { index with
    outputByOutpoint := entry.transparentOutputs.foldl
      (fun m output => m.erase output.outpoint) index.outputByOutpoint
    spendByOutpoint := entry.transparentSpends.foldl
      (fun m spend => m.erase spend.spentOutpoint) index.spendByOutpoint
    outputsByAddress := entry.transparentOutputs.foldl
      (fun m output => m.del (addressKey output)) index.outputsByAddress }

namespace MempoolIndex

def applyAdded (entry : MempoolEntry) (appliedEvent : MempoolEventPosition) :
    MempoolApplyOutcome × MempoolIndex :=
  let index := { index with lastAppliedEvent := some appliedEvent }
  if index.entries.contains entry.transactionId then (.noChange, index)
  else (.applied, indexSecondaryOverlays
    { index with entries := index.entries.insert entry.transactionId entry } entry)

variable (id : TransactionId) (appliedEvent : MempoolEventPosition)

def removeEntry : MempoolApplyOutcome × MempoolIndex :=
  let index := { index with lastAppliedEvent := some appliedEvent }
  match index.entries[id]? with
  | none => (.noChange, index)
  | some removed =>
    (.applied, unindexSecondaryOverlays { index with entries := index.entries.erase id } removed)

def applyInvalidated : MempoolApplyOutcome × MempoolIndex :=
  index.removeEntry id appliedEvent

def applyMined : MempoolApplyOutcome × MempoolIndex :=
  index.removeEntry id appliedEvent

def isInMempool (id : TransactionId) : Bool := index.entries.contains id

end MempoolIndex

/-- `apply_to_index`: the transition's own `apply_*`. -/
def applyToIndex (event : MempoolEvent) (position : MempoolEventPosition) :
    MempoolApplyOutcome × MempoolIndex :=
  match event with
  | .added entry => index.applyAdded entry position
  | .invalidated id _ => index.applyInvalidated id position
  | .mined id _ _ => index.applyMined id position

/-! ## Snapshot pages -/

structure MempoolSnapshotPage where
  entries : List MempoolEntry
  nextAfterTransactionId : Option TransactionId
  lastAppliedEvent : Option MempoolEventPosition

/-- The entries behind a transaction id, in ascending order of their ids. -/
def MempoolIndex.entriesAfter (after : Option TransactionId) : List MempoolEntry :=
  match after with
  | none => index.entries.toList.map Prod.snd
  | some id => (index.entries.toList.filter fun e => (compare id e.1).isLT).map Prod.snd

/-- `snapshot_page`: the next entries, with one entry of lookahead. -/
def MempoolIndex.snapshotPage (maxEntries : Nat) (after : Option TransactionId) :
    MempoolSnapshotPage :=
  let fetched := (index.entriesAfter after).take (maxEntries + 1)
  let entries := fetched.take maxEntries
  { entries
    nextAfterTransactionId :=
      if fetched.length > maxEntries then entries.getLast?.map MempoolEntry.transactionId else none
    lastAppliedEvent := index.lastAppliedEvent }

/-! ## Coherent indexes -/

def MempoolIndex.entryMap : TransactionId → Option MempoolEntry :=
  fun id => index.entries[id]?

def MempoolIndex.OwnIds : Prop :=
  ∀ (id : TransactionId) (e : MempoolEntry), index.entries[id]? = some e → e.transactionId = id

/-- Entries under their own ids, none of whose spends another entry has. -/
structure MempoolIndex.Coherent (index : MempoolIndex) : Prop where
  transactionId : index.OwnIds
  outputs : ∀ o : TransparentOutPoint, index.outputByOutpoint[o]?.isSome ↔
    ∃ e : MempoolEntry, index.entries[o.transactionId]? = some e ∧ o ∈ e.createdOutpoints
  spends : ∀ (o : TransparentOutPoint) (id : TransactionId), index.spendByOutpoint[o]? = some id ↔
    ∃ e : MempoolEntry, index.entries[id]? = some e ∧ o ∈ e.spentOutpoints

/-- When a transition can be applied to a set of entries: a new transaction spends nothing twice and
nothing that a live one spends; a removed one is there. -/
def Applicable (entries : TransactionId → Option MempoolEntry) : MempoolEvent → Prop
  | .added entry => entries entry.transactionId = none ∧ entry.spentOutpoints.Nodup ∧
    ∀ id e, entries id = some e → ∀ o ∈ entry.spentOutpoints, o ∉ e.spentOutpoints
  | .invalidated id _ => entries id ≠ none
  | .mined id _ _ => entries id ≠ none

theorem MempoolIndex.coherent_new : MempoolIndex.new.Coherent where
  transactionId id e h := by simp [new] at h
  outputs o := by simp [new]
  spends o id := by simp [new]

section Preflight

variable {index}

theorem checkOutpoints_eq_ok {duplicate collision : TransparentOutPoint →
      MempoolIndexInvariantError}
    {taken : TransparentOutPoint → Bool} {seen outpoints : List TransparentOutPoint} {u : Unit} :
    checkOutpoints duplicate collision taken seen outpoints = .ok u ↔
      outpoints.Nodup ∧ ∀ o ∈ outpoints, o ∉ seen ∧ taken o = false := by
  induction outpoints generalizing seen with
  | nil => simp [checkOutpoints]
  | cons o rest ih =>
    simp only [checkOutpoints, bind_eq_ok, rejectIf_eq_ok, ih, List.nodup_cons, List.mem_cons,
      not_or, forall_eq_or_imp, Bool.not_eq_true]
    constructor
    · rintro ⟨_, hseen, _, htaken, hnodup, hrest⟩
      exact ⟨⟨fun hmem => (hrest o hmem).1.1 rfl, hnodup⟩, ⟨hseen, htaken⟩,
        fun o' ho' => ⟨(hrest o' ho').1.2, (hrest o' ho').2⟩⟩
    · rintro ⟨⟨hnotin, hnodup⟩, ⟨hseen, htaken⟩, hrest⟩
      refine ⟨(), hseen, (), htaken, hnodup, fun o' ho' => ⟨⟨?_, (hrest o' ho').1⟩, (hrest o' ho').2⟩⟩
      rintro rfl
      exact hnotin ho'

theorem contains_eq_isSome (id : TransactionId) :
    index.entries.contains id = (index.entryMap id).isSome := by
  rw [MempoolIndex.entryMap, ExtTreeMap.isSome_getElem?_eq_contains]

/-- On a coherent index the overlay checks pass exactly for applicable transitions. -/
theorem preflightEvent_eq_apply (h : index.Coherent) {event : MempoolEvent} :
    index.preflightEvent event = .ok .apply ↔ Applicable index.entryMap event := by
  cases event with
  | added entry =>
    rw [MempoolIndex.preflightEvent, contains_eq_isSome, Applicable]
    cases hlive : index.entryMap entry.transactionId with
    | some e => simp
    | none =>
      have houtputs : checkOutpoints .duplicateOutput .outputCollision
          index.outputByOutpoint.contains [] entry.createdOutpoints = .ok () := by
        rw [checkOutpoints_eq_ok]
        refine ⟨entry.nodup_createdOutpoints, fun o ho => ⟨List.not_mem_nil, ?_⟩⟩
        rw [← ExtTreeMap.isSome_getElem?_eq_contains, Bool.eq_false_iff]
        intro htaken
        obtain ⟨e, he, _⟩ := (h.outputs o).mp htaken
        rw [MempoolEntry.transactionId_of_mem_createdOutpoints ho] at he
        rw [MempoolIndex.entryMap, he] at hlive
        cases hlive
      simp only [Option.isSome_none, Bool.false_eq_true, if_false, bind_eq_ok, houtputs,
        true_and, checkOutpoints_eq_ok, and_true, exists_const]
      refine and_congr_right fun _ => ?_
      constructor
      · intro hfree id e he o ho hspent
        have := (hfree o ho).2
        rw [← ExtTreeMap.isSome_getElem?_eq_contains, (h.spends o id).mpr ⟨e, he, hspent⟩] at this
        cases this
      · intro hfree o ho
        refine ⟨List.not_mem_nil, ?_⟩
        rw [← ExtTreeMap.isSome_getElem?_eq_contains, Bool.eq_false_iff]
        intro htaken
        obtain ⟨id, hid⟩ := Option.isSome_iff_exists.mp htaken
        obtain ⟨e, he, hspent⟩ := (h.spends o id).mp hid
        exact hfree id e he o ho hspent
  | invalidated id reason =>
    rw [MempoolIndex.preflightEvent, contains_eq_isSome, Applicable]
    cases index.entryMap id <;> simp
  | mined id height hash =>
    rw [MempoolIndex.preflightEvent, contains_eq_isSome, Applicable]
    cases index.entryMap id <;> simp

theorem preflightEvent_eq_noChange {event : MempoolEvent} :
    index.preflightEvent event = .ok .noChange ↔
      ((index.entryMap event.transactionId).isSome ↔ event.change.value ≠ none) := by
  cases event with
  | added entry =>
    rw [MempoolIndex.preflightEvent, contains_eq_isSome]
    cases hlive : index.entryMap entry.transactionId with
    | some e => simp [MempoolEvent.transactionId, hlive]
    | none => simp [MempoolEvent.transactionId, hlive, bind_eq_ok]
  | invalidated id reason =>
    rw [MempoolIndex.preflightEvent, contains_eq_isSome]
    cases hlive : index.entryMap id <;> simp [MempoolEvent.transactionId, hlive]
  | mined id height hash =>
    rw [MempoolIndex.preflightEvent, contains_eq_isSome]
    cases hlive : index.entryMap id <;> simp [MempoolEvent.transactionId, hlive]

end Preflight

section Apply

variable {index}

theorem getElem?_insert_entry (id id' : TransactionId) (entry : MempoolEntry) :
    (index.entries.insert id entry)[id']? = if id' =
      id then some entry else index.entries[id']? := by
  rw [ExtTreeMap.getElem?_insert]
  by_cases h : id' = id
  · subst h
    simp
  · have hne : ¬ id = id' := fun heq => h heq.symm
    simp [h, hne]

theorem getElem?_erase_entry (id id' : TransactionId) :
    (index.entries.erase id)[id']? = if id' = id then none else index.entries[id']? := by
  rw [ExtTreeMap.getElem?_erase]
  by_cases h : id' = id
  · subst h
    simp
  · have hne : ¬ id = id' := fun heq => h heq.symm
    simp [h, hne]

theorem applyAdded_new {entry : MempoolEntry} (hnew : index.entryMap entry.transactionId = none)
    (position : MempoolEventPosition) :
    (index.applyAdded entry position).1 = .applied ∧
      (index.applyAdded entry position).2.entryMap =
        (MempoolEvent.added entry).change.apply index.entryMap := by
  have hcontains : index.entries.contains entry.transactionId = false := by
    rw [contains_eq_isSome, hnew]
    rfl
  refine ⟨by simp [MempoolIndex.applyAdded, hcontains], ?_⟩
  funext id
  simp only [MempoolIndex.entryMap, MempoolIndex.applyAdded, hcontains, Bool.false_eq_true, if_false,
    indexSecondaryOverlays, getElem?_insert_entry]
  exact (Function.update_apply ..).symm

theorem removeEntry_present {id : TransactionId} (hlive : index.entryMap id ≠ none)
    (position : MempoolEventPosition) :
    (index.removeEntry id position).1 = .applied ∧
      (index.removeEntry id position).2.entryMap =
        KeyedLog.Change.apply index.entryMap ⟨id, none⟩ := by
  obtain ⟨removed, hremoved⟩ := Option.ne_none_iff_exists'.mp hlive
  have hremoved' : index.entries[id]? = some removed := hremoved
  refine ⟨by simp [MempoolIndex.removeEntry, hremoved'], ?_⟩
  funext id'
  simp only [MempoolIndex.entryMap, MempoolIndex.removeEntry, hremoved', unindexSecondaryOverlays,
    getElem?_erase_entry]
  exact (Function.update_apply ..).symm

theorem applyToIndex_of_preflight {event : MempoolEvent}
    (h : index.preflightEvent event = .ok .apply) (position : MempoolEventPosition) :
    (applyToIndex index event position).1 = .applied ∧
      (applyToIndex index event position).2.entryMap = event.change.apply index.entryMap := by
  have hchanges : ¬ ((index.entryMap event.transactionId).isSome ↔ event.change.value ≠ none) := by
    intro hsame
    rw [preflightEvent_eq_noChange.mpr hsame] at h
    cases h
  cases event with
  | added entry =>
    refine applyAdded_new ?_ position
    cases hlive : index.entryMap entry.transactionId with
    | none => rfl
    | some e => exact absurd (by simp [MempoolEvent.transactionId, hlive]) hchanges
  | invalidated id reason =>
    refine removeEntry_present (fun hnone => hchanges ?_) position
    simp [MempoolEvent.transactionId, hnone]
  | mined id height hash =>
    refine removeEntry_present (fun hnone => hchanges ?_) position
    simp [MempoolEvent.transactionId, hnone]

theorem ownIds_of_apply {index' : MempoolIndex} {c : KeyedLog.Change TransactionId MempoolEntry}
    (h : index.OwnIds) (hmap : index'.entryMap = c.apply index.entryMap)
    (hown : ∀ e, c.value = some e → e.transactionId = c.key) : index'.OwnIds := by
  intro id e he
  rw [show index'.entries[id]? = c.apply index.entryMap id from congrFun hmap id] at he
  by_cases hid : id = c.key
  · subst hid
    rw [KeyedLog.Change.apply_self] at he
    exact hown e he
  · rw [KeyedLog.Change.apply_of_ne hid] at he
    exact h id e he

theorem ownIds_applyAdded (h : index.OwnIds) (entry : MempoolEntry)
    (position : MempoolEventPosition) : (index.applyAdded entry position).2.OwnIds := by
  cases hlive : index.entryMap entry.transactionId with
  | some e =>
    have hcontains : index.entries.contains entry.transactionId = true := by
      rw [contains_eq_isSome, hlive]
      rfl
    simp only [MempoolIndex.applyAdded, hcontains, if_true]
    exact h
  | none =>
    refine ownIds_of_apply h (applyAdded_new hlive position).2 fun e he => ?_
    cases he
    rfl

theorem ownIds_removeEntry (h : index.OwnIds) (id : TransactionId)
    (position : MempoolEventPosition) : (index.removeEntry id position).2.OwnIds := by
  cases hlive : index.entryMap id with
  | none =>
    have hnone : index.entries[id]? = none := hlive
    simp only [MempoolIndex.removeEntry, hnone]
    exact h
  | some removed =>
    refine ownIds_of_apply h (removeEntry_present (by rw [hlive]; simp) position).2 fun e he => ?_
    cases he

theorem ownIds_applyToIndex (h : index.OwnIds) (event : MempoolEvent)
    (position : MempoolEventPosition) : (applyToIndex index event position).2.OwnIds := by
  cases event with
  | added entry => exact ownIds_applyAdded h entry position
  | invalidated id reason => exact ownIds_removeEntry h id position
  | mined id height hash => exact ownIds_removeEntry h id position

/-- An entry that does not count changes nothing by coming or going. -/
theorem exists_entry_congr {m m' : TransactionId → Option MempoolEntry} {id : TransactionId}
    {P : MempoolEntry → Prop} (hoff : ∀ id', id' ≠ id → m' id' = m id')
    (hm : ∀ e, m id = some e → ¬ P e) (hm' : ∀ e, m' id = some e → ¬ P e) (id' : TransactionId) :
    (∃ e, m id' = some e ∧ P e) ↔ ∃ e, m' id' = some e ∧ P e := by
  by_cases hid : id' = id
  · rw [hid]
    exact iff_of_false (fun ⟨e, he, hP⟩ => hm e he hP) fun ⟨e, he, hP⟩ => hm' e he hP
  · rw [hoff id' hid]

theorem coherent_applyAdded (h : index.Coherent) {entry : MempoolEntry}
    (happlicable : Applicable index.entryMap (.added entry)) (position : MempoolEventPosition) :
    (index.applyAdded entry position).2.Coherent := by
  obtain ⟨hnew, _, hfree⟩ := happlicable
  have hnew' : index.entries[entry.transactionId]? = none := hnew
  have hcontains : index.entries.contains entry.transactionId = false := by
    rw [contains_eq_isSome, hnew]
    rfl
  have hentries : ∀ id, (index.applyAdded entry position).2.entries[id]? =
      if id = entry.transactionId then some entry else index.entries[id]? := fun id =>
    (congrFun (applyAdded_new hnew position).2 id).trans (Function.update_apply ..)
  refine ⟨ownIds_applyAdded h.transactionId entry position, ?_, ?_⟩
  · intro o
    simp only [MempoolIndex.applyAdded, hcontains, Bool.false_eq_true, if_false,
      indexSecondaryOverlays, TreeMap.isSome_foldl_insert, getElem?_insert_entry]
    rw [h.outputs o]
    constructor
    · rintro (hmem | ⟨e, he, hcreated⟩)
      · rw [if_pos (MempoolEntry.transactionId_of_mem_createdOutpoints hmem)]
        exact ⟨entry, rfl, hmem⟩
      · refine ⟨e, ?_, hcreated⟩
        rw [if_neg, he]
        intro hid
        rw [hid, hnew'] at he
        cases he
    · rintro ⟨e, he, hcreated⟩
      split at he
      · cases he
        exact .inl hcreated
      · exact .inr ⟨e, he, hcreated⟩
  · intro o id
    rw [hentries]
    simp only [MempoolIndex.applyAdded, hcontains, Bool.false_eq_true, if_false,
      indexSecondaryOverlays, TreeMap.getElem?_foldl_insert]
    by_cases hspent : o ∈ entry.spentOutpoints
    · have hin : o ∈ entry.transparentSpends.map TransparentMempoolSpend.spentOutpoint := hspent
      rw [if_pos hin]
      constructor
      · intro hid
        cases hid
        exact ⟨entry, if_pos rfl, hspent⟩
      · rintro ⟨e, he, hspent'⟩
        split at he
        · next hid => rw [hid]
        · exact absurd hspent' (hfree id e he o hspent)
    · have hout : o ∉ entry.transparentSpends.map TransparentMempoolSpend.spentOutpoint := hspent
      rw [if_neg hout, h.spends o id]
      exact exists_entry_congr (fun id' hne => if_neg hne) (by simp [hnew']) (by simpa using hspent) id

theorem coherent_removeEntry (h : index.Coherent) {id : TransactionId}
    (hlive : index.entryMap id ≠ none) (position : MempoolEventPosition) :
    (index.removeEntry id position).2.Coherent := by
  obtain ⟨removed, hremoved⟩ := Option.ne_none_iff_exists'.mp hlive
  have hremoved' : index.entries[id]? = some removed := hremoved
  have hentries : ∀ id', (index.removeEntry id position).2.entries[id']? =
      if id' = id then none else index.entries[id']? := fun id' =>
    (congrFun (removeEntry_present hlive position).2 id').trans (Function.update_apply ..)
  have hid := h.transactionId id removed hremoved'
  refine ⟨ownIds_removeEntry h.transactionId id position, ?_, ?_⟩
  · intro o
    rw [hentries]
    simp only [MempoolIndex.removeEntry, hremoved', unindexSecondaryOverlays,
      TreeMap.getElem?_foldl_erase]
    by_cases hcreated : o ∈ removed.createdOutpoints
    · have hin : o ∈ removed.transparentOutputs.map TransparentMempoolOutput.outpoint := hcreated
      have howner : o.transactionId = id :=
        (MempoolEntry.transactionId_of_mem_createdOutpoints hcreated).trans hid
      rw [if_pos hin, if_pos howner]
      simp
    · have hout : o ∉ removed.transparentOutputs.map TransparentMempoolOutput.outpoint := hcreated
      rw [if_neg hout, h.outputs o]
      exact exists_entry_congr (fun id' hne => if_neg hne) (by simpa [hremoved'] using hcreated)
        (by simp) o.transactionId
  · intro o id'
    rw [hentries]
    simp only [MempoolIndex.removeEntry, hremoved', unindexSecondaryOverlays,
      TreeMap.getElem?_foldl_erase]
    by_cases hspent : o ∈ removed.spentOutpoints
    · have hin : o ∈ removed.transparentSpends.map TransparentMempoolSpend.spentOutpoint := hspent
      rw [if_pos hin]
      constructor
      · intro heq
        cases heq
      · rintro ⟨e, he, hspent'⟩
        split at he
        · cases he
        · next hne =>
          -- Both transactions would be the spender of `o`.
          have h₁ := (h.spends o id).mpr ⟨removed, hremoved', hspent⟩
          have h₂ := (h.spends o id').mpr ⟨e, he, hspent'⟩
          rw [h₁] at h₂
          cases h₂
          exact absurd rfl hne
    · have hout : o ∉ removed.transparentSpends.map TransparentMempoolSpend.spentOutpoint := hspent
      rw [if_neg hout, h.spends o id']
      exact exists_entry_congr (fun id' hne => if_neg hne) (by simpa [hremoved'] using hspent)
        (by simp) id'

/-- An applicable transition is applied: the index stays coherent and its entries change as the
transition says. -/
theorem applyToIndex_applicable (h : index.Coherent) {event : MempoolEvent}
    (happlicable : Applicable index.entryMap event) (position : MempoolEventPosition) :
    (applyToIndex index event position).1 = .applied ∧
      (applyToIndex index event position).2.Coherent ∧
      (applyToIndex index event position).2.entryMap = event.change.apply index.entryMap := by
  obtain ⟨happlied, hentries⟩ :=
    applyToIndex_of_preflight ((preflightEvent_eq_apply h).mpr happlicable) position
  refine ⟨happlied, ?_, hentries⟩
  cases event with
  | added entry => exact coherent_applyAdded h happlicable position
  | invalidated id reason => exact coherent_removeEntry h happlicable position
  | mined id height hash => exact coherent_removeEntry h happlicable position

end Apply

end Zinder.Mempool
