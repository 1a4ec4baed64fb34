import Zinder.Core.Facts
import Zinder.Lib.KeyedLog

/-!
# Zinder.Mempool.Event

Mempool entries and the source transitions recorded in the durable event log.

An entry's transparent outputs and spends are derived from its scan data, as `MempoolEntry::new`
derives them; the bound it checks on the number of outputs is a field, so an entry whose output
indexes leave `u32` cannot be built.

A transition names one transaction and either gives it an entry or takes it out of the mempool:
`MempoolEvent.change` reads it as a keyed change, and the live transactions of a log are the replay
of its changes.
-/

namespace Zinder

/-- `Ord` of a byte array: byte by byte. -/
instance : Ord Bytes32 := ⟨fun a b => compare a.bytes b.bytes⟩

instance : Std.TransOrd Bytes32 := inferInstanceAs (Std.TransCmp (compareOn Bytes32.bytes))

instance : Std.LawfulEqOrd Bytes32 where
  eq_of_compare {a b} h := by
    have hbytes : a.bytes = b.bytes := Std.LawfulEqCmp.eq_of_compare h
    cases a
    cases b
    cases hbytes
    rfl

/-- `Ord` derived field by field. -/
instance : Ord TransparentOutPoint :=
  ⟨compareLex (compareOn TransparentOutPoint.transactionId)
    (compareOn fun o => o.outputIndex.val)⟩

instance : Std.TransOrd TransparentOutPoint :=
  inferInstanceAs (Std.TransCmp (compareLex (compareOn TransparentOutPoint.transactionId)
    (compareOn fun o => o.outputIndex.val)))

instance : Std.LawfulEqOrd TransparentOutPoint where
  eq_of_compare {a b} h := by
    obtain ⟨hid, hindex⟩ := compareLex_eq_eq.mp h
    have hid' : a.transactionId = b.transactionId := Std.LawfulEqCmp.eq_of_compare hid
    have hindex' : a.outputIndex.val = b.outputIndex.val := Std.LawfulEqCmp.eq_of_compare hindex
    cases a
    cases b
    cases hid'
    cases Fin.ext hindex'
    rfl

namespace Mempool

/-! ## Entries -/

/-- A transparent output of the scan data, with the SHA-256 of its script. -/
structure CompactTransparentOutput where
  valueZat : U64
  scriptPubKey : Bytes
  addressScriptHash : TransparentAddressScriptHash
deriving DecidableEq

/-- A hydrated mempool transaction. -/
structure MempoolEntry where
  transactionId : TransactionId
  authDigest : Option Bytes32
  rawTransactionBytes : Bytes
  compactOutputs : List CompactTransparentOutput
  compactInputs : List TransparentOutPoint
  firstSeenUnixMillis : U64
  outputs_indexable : compactOutputs.length ≤ 2 ^ 32
deriving DecidableEq

structure TransparentMempoolOutput where
  addressScriptHash : TransparentAddressScriptHash
  scriptPubKey : Bytes
  outpoint : TransparentOutPoint
  valueZat : U64
deriving DecidableEq

structure TransparentMempoolSpend where
  spentOutpoint : TransparentOutPoint
  spendingTransactionId : TransactionId
deriving DecidableEq

namespace MempoolEntry

variable (e : MempoolEntry)

def transparentOutputs : List TransparentMempoolOutput :=
  List.ofFn fun i : Fin e.compactOutputs.length =>
    { addressScriptHash := (e.compactOutputs.get i).addressScriptHash
      scriptPubKey := (e.compactOutputs.get i).scriptPubKey
      outpoint := ⟨e.transactionId, i.castLE e.outputs_indexable⟩
      valueZat := (e.compactOutputs.get i).valueZat }

def transparentSpends : List TransparentMempoolSpend :=
  e.compactInputs.map fun input => ⟨input, e.transactionId⟩

def createdOutpoints : List TransparentOutPoint :=
  e.transparentOutputs.map TransparentMempoolOutput.outpoint

def spentOutpoints : List TransparentOutPoint :=
  e.transparentSpends.map TransparentMempoolSpend.spentOutpoint

@[simp] theorem spentOutpoints_eq : e.spentOutpoints = e.compactInputs := by
  simp [spentOutpoints, transparentSpends, Function.comp_def]

theorem transactionId_of_mem_createdOutpoints {e : MempoolEntry} {o : TransparentOutPoint}
    (h : o ∈ e.createdOutpoints) : o.transactionId = e.transactionId := by
  simp only [createdOutpoints, transparentOutputs, List.mem_map, List.mem_ofFn] at h
  obtain ⟨_, ⟨i, rfl⟩, rfl⟩ := h
  rfl

theorem nodup_createdOutpoints : e.createdOutpoints.Nodup := by
  rw [createdOutpoints, transparentOutputs, List.map_ofFn, List.nodup_ofFn]
  intro i j hij
  simp only [Function.comp_apply, TransparentOutPoint.mk.injEq, true_and] at hij
  exact Fin.castLE_injective _ hij

end MempoolEntry

/-! ## Transitions -/

inductive MempoolEvictionReason where
  | conflict
  | expired
  | lowFee
  | nodeRejected
  | unknown
deriving DecidableEq

inductive MempoolEvent where
  | added (entry : MempoolEntry)
  | invalidated (transactionId : TransactionId) (reason : MempoolEvictionReason)
  | mined (transactionId : TransactionId) (minedHeight : U32) (blockHash : BlockHash)
deriving DecidableEq

namespace MempoolEvent

def transactionId : MempoolEvent → TransactionId
  | added entry => entry.transactionId
  | invalidated transactionId _ => transactionId
  | mined transactionId _ _ => transactionId

/-- The transition as a change of one transaction's entry. -/
def change (event : MempoolEvent) : KeyedLog.Change TransactionId MempoolEntry where
  key := event.transactionId
  value := match event with
    | added entry => some entry
    | invalidated _ _ => none
    | mined _ _ _ => none

@[simp] theorem change_key (event : MempoolEvent) : event.change.key = event.transactionId := rfl

@[simp] theorem change_added (entry : MempoolEntry) :
    (added entry).change = ⟨entry.transactionId, some entry⟩ := rfl

@[simp] theorem change_invalidated (id : TransactionId) (reason : MempoolEvictionReason) :
    (invalidated id reason).change = ⟨id, none⟩ := rfl

@[simp] theorem change_mined (id : TransactionId) (height : U32) (hash : BlockHash) :
    (mined id height hash).change = ⟨id, none⟩ := rfl

end MempoolEvent

/-- A transition with the time the source was observed at. -/
abbrev ObservedEvent := MempoolEvent × U64

variable (events : List ObservedEvent)

def changes : List (KeyedLog.Change TransactionId MempoolEntry) :=
  events.map fun e => e.1.change

@[simp] theorem changes_append (a b : List ObservedEvent) :
    changes (a ++ b) = changes a ++ changes b := List.map_append

@[simp] theorem length_changes :
    (changes events).length = events.length := List.length_map _

theorem changes_drop (n : Nat) :
    changes (events.drop n) = (changes events).drop n := List.map_drop

/-- The live transactions after a sequence of transitions: each with its latest added entry. -/
def liveEntries : TransactionId → Option MempoolEntry :=
  KeyedLog.replay (changes events)

theorem liveEntries_drop {log : List ObservedEvent} {n : Nat}
    (h : KeyedLog.CutSafe (changes log) n) : liveEntries (log.drop n) = liveEntries log := by
  rw [liveEntries, changes_drop, h.replay_drop]
  rfl

structure MempoolEventPosition where
  eventSequence : Nat
  transactionId : TransactionId
deriving DecidableEq

end Mempool
end Zinder
