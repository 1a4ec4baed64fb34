import Zinder.Mempool.ListedCodec
import Zinder.Mempool.Index

/-!
# Zinder.Mempool.Overlays

The secondary maps of the mempool index agree with its entries: every run of events that passed their
preflight keeps the three of them equal to those computed afresh from the entries (`overlays_exact`).
-/

namespace Zinder.Mempool

open Std (ExtTreeMap)
open List
open MempoolEntry (transparentOutputs transparentSpends)

namespace MempoolIndex

variable (index : MempoolIndex)

/-- An event is applied when its preflight says so, and left out otherwise. -/
def applyApproved (event : MempoolEvent × MempoolEventPosition) : MempoolIndex :=
  match index.preflightEvent event.1 with
  | .ok .apply => (applyToIndex index event.1 event.2).2
  | _ => index

def applyAllApproved (events : List (MempoolEvent × MempoolEventPosition)) : MempoolIndex :=
  events.foldl applyApproved index

/-- The maps computed afresh: the overlays of the entries, filed one entry after another. -/
def rebuilt : MempoolIndex :=
  (index.entries.toList.map Prod.snd).foldl indexSecondaryOverlays
    { MempoolIndex.new with entries := index.entries, lastAppliedEvent := index.lastAppliedEvent }

end MempoolIndex

/-! ## Exact overlays -/

def MempoolIndex.Live (index : MempoolIndex) (e : MempoolEntry) : Prop :=
  index.entryMap e.transactionId = some e

/-- The three maps hold the outputs and spends of the live entries, and no empty bucket. -/
structure Exact (live : MempoolEntry → Prop) (st : MempoolIndex) : Prop where
  outputs : Mirrors (fun o : TransparentOutPoint => st.outputByOutpoint[o]?) transparentOutputs
    TransparentMempoolOutput.outpoint id live
  spends : Mirrors (fun o : TransparentOutPoint => st.spendByOutpoint[o]?) transparentSpends
    TransparentMempoolSpend.spentOutpoint TransparentMempoolSpend.spendingTransactionId live
  addresses : Mirrors st.outputsByAddress.get transparentOutputs addressKey id live
  buckets : st.outputsByAddress.NoneEmpty

def Compatible (e e' : MempoolEntry) : Prop :=
  e.transactionId ≠ e'.transactionId ∧ ∀ o ∈ e.spentOutpoints, o ∉ e'.spentOutpoints

variable {e e' : MempoolEntry}

theorem Compatible.symm (h : Compatible e e') : Compatible e' e :=
  ⟨h.1.symm, fun o ho' ho => h.2 o ho ho'⟩

theorem Compatible.apart_outputs (h : Compatible e e') :
    Apart transparentOutputs TransparentMempoolOutput.outpoint e e' := by
  intro o ho ho'
  exact h.1 ((MempoolEntry.transactionId_of_mem_createdOutpoints ho).symm.trans
    (MempoolEntry.transactionId_of_mem_createdOutpoints ho'))

theorem Compatible.apart_spends (h : Compatible e e') :
    Apart transparentSpends TransparentMempoolSpend.spentOutpoint e e' :=
  h.2

section Exact

theorem Compatible.apart_addresses {e e' : MempoolEntry} (h : Compatible e e') :
    Apart transparentOutputs addressKey e e' := by
  intro k hk hk'
  obtain ⟨x, hx, rfl⟩ := mem_map.mp hk
  obtain ⟨y, hy, hxy⟩ := mem_map.mp hk'
  refine h.apart_outputs x.outpoint (mem_map.mpr ⟨x, hx, rfl⟩) ?_
  exact mem_map.mpr ⟨y, hy, congrArg Prod.snd hxy⟩

theorem nodup_addressKeys (e : MempoolEntry) : (e.transparentOutputs.map addressKey).Nodup := by
  refine List.Nodup.of_map Prod.snd ?_
  rw [map_map]
  exact e.nodup_createdOutpoints

variable {live live' : MempoolEntry → Prop} {st st' : MempoolIndex} {e : MempoolEntry}

theorem Exact.congr (h : Exact live st) (hlive : ∀ e, live e ↔ live' e) : Exact live' st := by
  have hsame : live = live' := funext fun e => propext (hlive e)
  exact hsame ▸ h

theorem Exact.of_eq (h : Exact live st) (heq : st' = st) : Exact live st' := heq ▸ h

theorem Exact.ext (h : Exact live st) (h' : Exact live st') :
    st.outputByOutpoint = st'.outputByOutpoint ∧ st.spendByOutpoint = st'.spendByOutpoint ∧
      st.outputsByAddress = st'.outputsByAddress := by
  have hsame : ∀ e, live e ↔ live e := fun _ => Iff.rfl
  refine ⟨ExtTreeMap.ext_getElem? fun o => ?_, ExtTreeMap.ext_getElem? fun o => ?_, ?_⟩
  · exact h.outputs.get_eq h'.outputs hsame o
  · exact h.spends.get_eq h'.spends hsame o
  · exact h.buckets.ext h'.buckets (h.addresses.get_eq h'.addresses hsame)

theorem exact_empty (entries : ExtTreeMap TransactionId MempoolEntry)
    (lastAppliedEvent : Option MempoolEventPosition) :
    Exact (fun _ => False) { MempoolIndex.new with entries, lastAppliedEvent } where
  outputs := .empty fun o => by simp [MempoolIndex.new]
  spends := .empty fun o => by simp [MempoolIndex.new]
  addresses := .empty fun k => by simp [MempoolIndex.new, Buckets.get]
  buckets := Buckets.noneEmpty_empty

theorem foldl_insert_spends (e : MempoolEntry) (m : ExtTreeMap TransparentOutPoint TransactionId) :
    e.transparentSpends.foldl (fun m spend => m.insert spend.spentOutpoint e.transactionId) m =
      e.transparentSpends.foldl
        (fun m spend => m.insert spend.spentOutpoint spend.spendingTransactionId) m := by
  rw [transparentSpends, foldl_map, foldl_map]

theorem noneEmpty_foldl {γ : Type} (f : Buckets TransparentAddressScriptHash TransparentOutPoint
      TransparentMempoolOutput compare compare → γ → Buckets TransparentAddressScriptHash
      TransparentOutPoint TransparentMempoolOutput compare compare)
    (hf : ∀ m x, m.NoneEmpty → (f m x).NoneEmpty) (xs : List γ) {m : Buckets
      TransparentAddressScriptHash TransparentOutPoint TransparentMempoolOutput compare compare}
    (h : m.NoneEmpty) : (xs.foldl f m).NoneEmpty := by
  induction xs generalizing m with
  | nil => exact h
  | cons x xs ih => exact ih (hf m x h)

section

variable (h : Exact live st)
include h

theorem Exact.index (hnodup : e.spentOutpoints.Nodup)
    (hcompatible : ∀ e', live e' → Compatible e e') :
    Exact (fun e' => e' = e ∨ live e') (indexSecondaryOverlays st e) where
  outputs := Mirrors.add (TreeMap.keeps _ _) h.outputs e.nodup_createdOutpoints
    fun e' he' => (hcompatible e' he').apart_outputs
  spends := by
    have hadd := Mirrors.add (TreeMap.keeps _ _) h.spends hnodup
      fun e' he' => (hcompatible e' he').apart_spends
    simp only [indexSecondaryOverlays, foldl_insert_spends]
    exact hadd
  addresses := Mirrors.add (Buckets.keeps _ _) h.addresses (nodup_addressKeys e)
    fun e' he' => (hcompatible e' he').apart_addresses
  buckets := noneEmpty_foldl _ (fun _ _ hm => hm.put _ _) _ h.buckets

theorem Exact.unindex (hcompatible : ∀ e', live e' → e' ≠ e → Compatible e e') :
    Exact (fun e' => live e' ∧ e' ≠ e) (unindexSecondaryOverlays st e) where
  outputs := Mirrors.remove (TreeMap.keeps TransparentMempoolOutput.outpoint id) h.outputs
    fun e' he' hne => (hcompatible e' he' hne).apart_outputs
  spends := Mirrors.remove (TreeMap.keeps TransparentMempoolSpend.spentOutpoint
      TransparentMempoolSpend.spendingTransactionId) h.spends
    fun e' he' hne => (hcompatible e' he' hne).apart_spends
  addresses := Mirrors.remove (Buckets.keeps addressKey id) h.addresses
    fun e' he' hne => (hcompatible e' he' hne).apart_addresses
  buckets := noneEmpty_foldl _ (fun _ _ hm => hm.del _) _ h.buckets

theorem Exact.index_all {es : List MempoolEntry} (hnodup : ∀ e ∈ es, e.spentOutpoints.Nodup)
    (hlive : ∀ e ∈ es, ∀ e', live e' → Compatible e e') (hpairwise : es.Pairwise Compatible) :
    Exact (fun e => live e ∨ e ∈ es) (es.foldl indexSecondaryOverlays st) := by
  induction es generalizing live st with
  | nil => exact h.congr fun e => by simp
  | cons e es ih =>
    obtain ⟨hfirst, hrest⟩ := pairwise_cons.mp hpairwise
    have hstep := h.index (hnodup e mem_cons_self) (hlive e mem_cons_self)
    have hall := ih hstep (fun e' he' => hnodup e' (mem_cons_of_mem e he')) ?_ hrest
    · refine hall.congr fun e' => ?_
      rw [mem_cons, or_assoc, or_left_comm]
    · intro e' he' e'' he''
      rcases he'' with rfl | he''
      · exact (hfirst e' he').symm
      · exact hlive e' (mem_cons_of_mem e he') e'' he''

end

end Exact

/-! ## Runs -/

section Run

variable {index st : MempoolIndex} {e : MempoolEntry}

theorem MempoolIndex.Coherent.live_iff (h : index.Coherent) (e : MempoolEntry) :
    index.Live e ↔ ∃ id, index.entryMap id = some e := by
  constructor
  · intro he
    exact ⟨e.transactionId, he⟩
  · rintro ⟨id, he⟩
    rw [MempoolIndex.Live, h.transactionId id e he]
    exact he

/-- No outpoint has two spenders. -/
theorem MempoolIndex.Coherent.compatible (h : index.Coherent) {e e' : MempoolEntry}
    (he : index.Live e) (he' : index.Live e') (hne : e ≠ e') : Compatible e e' := by
  have hid : e.transactionId ≠ e'.transactionId := by
    intro hid
    rw [MempoolIndex.Live, hid, he'] at he
    exact hne (Option.some.inj he).symm
  refine ⟨hid, fun o ho ho' => hid ?_⟩
  have h₁ := (h.spends o e.transactionId).mpr ⟨e, he, ho⟩
  have h₂ := (h.spends o e'.transactionId).mpr ⟨e', he', ho'⟩
  rw [h₁] at h₂
  exact Option.some.inj h₂

structure Sound (st : MempoolIndex) : Prop where
  coherent : st.Coherent
  nodup : ∀ e, st.Live e → e.spentOutpoints.Nodup
  exact : Exact st.Live st

theorem sound_new : Sound .new where
  coherent := MempoolIndex.coherent_new
  nodup e he := by
    simp [MempoolIndex.Live, MempoolIndex.entryMap, MempoolIndex.new] at he
  exact := by
    refine (exact_empty ∅ none).congr fun e => ?_
    simp [MempoolIndex.Live, MempoolIndex.entryMap, MempoolIndex.new]

theorem live_applyAdded (hnew : index.entryMap e.transactionId = none)
    (position : MempoolEventPosition) (e' : MempoolEntry) :
    (index.applyAdded e position).2.Live e' ↔ e' = e ∨ index.Live e' := by
  rw [MempoolIndex.Live, (applyAdded_new hnew position).2]
  by_cases hid : e'.transactionId = e.transactionId
  · have hnot : ¬ index.Live e' := by
      rw [MempoolIndex.Live, hid, hnew]
      simp
    rw [hid, show (MempoolEvent.added e).change.apply index.entryMap e.transactionId = some e from
      KeyedLog.Change.apply_self _ (MempoolEvent.added e).change, Option.some.injEq]
    simp [hnot, eq_comm]
  · rw [KeyedLog.Change.apply_of_ne hid]
    have hne : e' ≠ e := by
      rintro rfl
      exact hid rfl
    simp [hne, MempoolIndex.Live]

theorem live_removeEntry (h : index.Coherent) {id : TransactionId}
    (hlive : index.entryMap id = some e) (position : MempoolEventPosition) (e' : MempoolEntry) :
    (index.removeEntry id position).2.Live e' ↔ index.Live e' ∧ e' ≠ e := by
  have hown : e.transactionId = id := h.transactionId id e hlive
  rw [MempoolIndex.Live, (removeEntry_present (by rw [hlive]; simp) position).2]
  by_cases hid : e'.transactionId = id
  · rw [hid, show KeyedLog.Change.apply index.entryMap ⟨id, none⟩ id = none from
      KeyedLog.Change.apply_self _ ⟨id, none⟩, MempoolIndex.Live, hid, hlive]
    simp [eq_comm]
  · rw [KeyedLog.Change.apply_of_ne hid]
    have hne : e' ≠ e := by
      rintro rfl
      exact hid hown
    simp [hne, MempoolIndex.Live]

section

variable (h : Sound st)
include h

theorem Sound.applyAdded (happlicable : Applicable st.entryMap (.added e))
    (position : MempoolEventPosition) : Sound (st.applyAdded e position).2 := by
  have hlive := live_applyAdded happlicable.1 position
  have hcontains : st.entries.contains e.transactionId = false := by
    rw [contains_eq_isSome, happlicable.1]
    rfl
  refine ⟨coherent_applyAdded h.coherent happlicable position, ?_, ?_⟩
  · intro e' he'
    rw [hlive] at he'
    rcases he' with rfl | he'
    · exact happlicable.2.1
    · exact h.nodup e' he'
  · have hstart : Exact st.Live
        { st with
          entries := st.entries.insert e.transactionId e
          lastAppliedEvent := some position } :=
      ⟨h.exact.outputs, h.exact.spends, h.exact.addresses, h.exact.buckets⟩
    have hcompatible : ∀ e', st.Live e' → Compatible e e' := by
      intro e' he'
      refine ⟨fun hid => ?_, happlicable.2.2 _ e' he'⟩
      rw [MempoolIndex.Live, ← hid, happlicable.1] at he'
      cases he'
    have hindexed := hstart.index happlicable.2.1 hcompatible
    refine (hindexed.congr fun e' => (hlive e').symm).of_eq ?_
    simp [MempoolIndex.applyAdded, hcontains]

theorem Sound.removeEntry {id : TransactionId} (hlive : st.entryMap id ≠ none)
    (position : MempoolEventPosition) : Sound (st.removeEntry id position).2 := by
  obtain ⟨removed, hremoved⟩ := Option.ne_none_iff_exists'.mp hlive
  have hlive' := live_removeEntry h.coherent hremoved position
  have hlivesRemoved : st.Live removed := (h.coherent.live_iff removed).mpr ⟨id, hremoved⟩
  refine ⟨coherent_removeEntry h.coherent hlive position, ?_, ?_⟩
  · intro e' he'
    rw [hlive'] at he'
    exact h.nodup e' he'.1
  · have hstart : Exact st.Live
        { st with entries := st.entries.erase id, lastAppliedEvent := some position } :=
      ⟨h.exact.outputs, h.exact.spends, h.exact.addresses, h.exact.buckets⟩
    have hunindexed := hstart.unindex fun e' he' hne =>
      h.coherent.compatible hlivesRemoved he' (Ne.symm hne)
    have hget : st.entries[id]? = some removed := hremoved
    refine (hunindexed.congr fun e' => (hlive' e').symm).of_eq ?_
    simp [MempoolIndex.removeEntry, hget]

theorem Sound.applyToIndex {event : MempoolEvent}
    (hpreflight : st.preflightEvent event = .ok .apply) (position : MempoolEventPosition) :
    Sound (applyToIndex st event position).2 := by
  have happlicable := (preflightEvent_eq_apply h.coherent).mp hpreflight
  cases event with
  | added entry => exact h.applyAdded happlicable position
  | invalidated id reason => exact h.removeEntry happlicable position
  | mined id height hash => exact h.removeEntry happlicable position

/-- The run lemma: events applied after their preflight keep the index sound. -/
theorem Sound.applyAllApproved (events : List (MempoolEvent × MempoolEventPosition)) :
    Sound (st.applyAllApproved events) := by
  induction events generalizing st with
  | nil => exact h
  | cons event events ih =>
    refine ih ?_
    rw [MempoolIndex.applyApproved]
    split
    · next hpreflight => exact h.applyToIndex hpreflight event.2
    · exact h

end

theorem foldl_index_frame (es : List MempoolEntry) (st : MempoolIndex) :
    (es.foldl indexSecondaryOverlays st).entries = st.entries ∧
      (es.foldl indexSecondaryOverlays st).lastAppliedEvent = st.lastAppliedEvent := by
  induction es generalizing st with
  | nil => exact ⟨rfl, rfl⟩
  | cons e es ih => exact ih _

theorem MempoolIndex.ext_maps {st st' : MempoolIndex} (hentries : st.entries = st'.entries)
    (houtputs : st.outputByOutpoint = st'.outputByOutpoint)
    (hspends : st.spendByOutpoint = st'.spendByOutpoint)
    (hlast : st.lastAppliedEvent = st'.lastAppliedEvent)
    (haddresses : st.outputsByAddress = st'.outputsByAddress) : st = st' := by
  obtain ⟨_, _, _, _, _⟩ := st'
  cases hentries
  cases houtputs
  cases hspends
  cases hlast
  cases haddresses
  rfl

theorem Sound.eq_rebuilt (h : Sound st) : st = st.rebuilt := by
  have hmem : ∀ e, e ∈ st.entries.toList.map Prod.snd ↔ st.Live e := by
    intro e
    rw [h.coherent.live_iff, mem_map]
    constructor
    · rintro ⟨⟨id, e⟩, hpair, rfl⟩
      exact ⟨id, ExtTreeMap.mem_toList_iff_getElem?_eq_some.mp hpair⟩
    · rintro ⟨id, he⟩
      exact ⟨(id, e), ExtTreeMap.mem_toList_iff_getElem?_eq_some.mpr he, rfl⟩
  have hnodup : (st.entries.toList.map Prod.snd).Nodup := by
    refine List.Nodup.map_on ?_ (TreeMap.ascending_toList st.entries).nodup
    rintro ⟨id, e⟩ hpair ⟨id', e'⟩ hpair' rfl
    have hid := h.coherent.transactionId id e (ExtTreeMap.mem_toList_iff_getElem?_eq_some.mp hpair)
    have hid' := h.coherent.transactionId id' e
      (ExtTreeMap.mem_toList_iff_getElem?_eq_some.mp hpair')
    rw [← hid, ← hid']
  have hpairwise : (st.entries.toList.map Prod.snd).Pairwise Compatible :=
    hnodup.pairwise_of_forall_ne fun e he e' he' hne =>
      h.coherent.compatible ((hmem e).mp he) ((hmem e').mp he') hne
  have hrebuilt : Exact st.Live st.rebuilt := by
    refine (Exact.index_all (exact_empty _ _) (fun e he => h.nodup e ((hmem e).mp he))
      (fun _ _ _ hnone => hnone.elim) hpairwise).congr fun e => ?_
    rw [hmem]
    simp
  obtain ⟨houtputs, hspends, haddresses⟩ := h.exact.ext hrebuilt
  have hframe : st.rebuilt.entries = st.entries ∧
      st.rebuilt.lastAppliedEvent = st.lastAppliedEvent := foldl_index_frame _ _
  exact MempoolIndex.ext_maps hframe.1.symm houtputs hspends hframe.2.symm haddresses

/-- Adding a transaction and removing it again leaves every map as it was. -/
theorem Sound.add_then_remove (h : Sound st) {removal : MempoolEvent}
    (hpreflight : st.preflightEvent (.added e) = .ok .apply)
    (hid : removal.transactionId = e.transactionId) (hremoves : removal.change.value = none)
    (p p' : MempoolEventPosition) :
    (Mempool.applyToIndex (Mempool.applyToIndex st (.added e) p).2 removal p').2 =
      { st with lastAppliedEvent := some p' } := by
  have happlicable := (preflightEvent_eq_apply h.coherent).mp hpreflight
  have hadded := h.applyToIndex hpreflight p
  have hmap := (applyToIndex_applicable h.coherent happlicable p).2.2
  have hremoval : ∀ st : MempoolIndex, (Mempool.applyToIndex st removal p').2 =
      (st.removeEntry e.transactionId p').2 := by
    intro st
    cases removal with
    | added entry => cases hremoves
    | invalidated id reason => rw [← hid]; rfl
    | mined id height hash => rw [← hid]; rfl
  rw [hremoval]
  generalize (Mempool.applyToIndex st (.added e) p).2 = st₁ at hadded hmap
  have hpresent : st₁.entryMap e.transactionId = some e := by
    rw [hmap]
    exact KeyedLog.Change.apply_self _ (MempoolEvent.added e).change
  have hsound := hadded.removeEntry (by rw [hpresent]; simp) p'
  have hrestored : (st₁.removeEntry e.transactionId p').2.entryMap = st.entryMap := by
    rw [(removeEntry_present (by rw [hpresent]; simp) p').2, hmap]
    funext id
    by_cases hsame : id = e.transactionId
    · rw [hsame, happlicable.1]
      exact KeyedLog.Change.apply_self _ ⟨e.transactionId, none⟩
    · rw [KeyedLog.Change.apply_of_ne hsame,
        KeyedLog.Change.apply_of_ne hsame]
  have hlive : ∀ e', (st₁.removeEntry e.transactionId p').2.Live e' ↔ st.Live e' := by
    intro e'
    rw [MempoolIndex.Live, hrestored]
    rfl
  obtain ⟨houtputs, hspends, haddresses⟩ := (hsound.exact.congr hlive).ext h.exact
  refine MempoolIndex.ext_maps (ExtTreeMap.ext_getElem? fun id => congrFun hrestored id)
    houtputs hspends ?_ haddresses
  have hget : st₁.entries[e.transactionId]? = some e := hpresent
  simp [MempoolIndex.removeEntry, hget, unindexSecondaryOverlays]

/-- The pool without overlays: an event is taken when the live entries allow it. -/
noncomputable def poolStep (entries : TransactionId → Option MempoolEntry)
    (event : MempoolEvent × MempoolEventPosition) : TransactionId → Option MempoolEntry :=
  open Classical in if Applicable entries event.1 then event.1.change.apply entries else entries

theorem Sound.entryMap_applyApproved (h : Sound st) (event : MempoolEvent × MempoolEventPosition) :
    (st.applyApproved event).entryMap = poolStep st.entryMap event := by
  rw [MempoolIndex.applyApproved, poolStep]
  split
  · next hpreflight =>
    rw [if_pos ((preflightEvent_eq_apply h.coherent).mp hpreflight)]
    exact (applyToIndex_of_preflight hpreflight event.2).2
  · next hrefused =>
    rw [if_neg fun happlicable => hrefused ((preflightEvent_eq_apply h.coherent).mpr happlicable)]

/-- The index refines the pool: over every run of events it takes the same ones. -/
theorem index_refines_pool (events : List (MempoolEvent × MempoolEventPosition)) :
    (MempoolIndex.new.applyAllApproved events).entryMap =
      events.foldl poolStep MempoolIndex.new.entryMap := by
  induction events using List.reverseRecOn with
  | nil => rfl
  | append_singleton events event ih =>
    rw [foldl_append, ← ih]
    simp only [MempoolIndex.applyAllApproved, foldl_append]
    exact (sound_new.applyAllApproved events).entryMap_applyApproved event

end Run

def sampleDoubleSpend : List (MempoolEvent × MempoolEventPosition) :=
  [(.added (plainEntry (byteId 1) [⟨byteId 7, 0⟩]), ⟨1, byteId 1⟩),
    (.added (plainEntry (byteId 2) [⟨byteId 7, 0⟩]), ⟨2, byteId 2⟩)]

end Zinder.Mempool
