import Zinder.Mempool.Event

/-!
# Zinder.Mempool.SourceEntry

Hydrating a source observation into an entry (`mempool/entry.rs`).

The consensus parser and its digests are a parameter. An entry is only built under the id its own
bytes parse to, so two entries of one id have the same inputs as long as the id commits to them
(`TransactionLibrary.IdsCommit`).
-/

namespace Zinder.Mempool

structure CompactTransactionData where
  transparentOutputs : List CompactTransparentOutput
  transparentInputs : List TransparentOutPoint

/-- The consensus library: parsing, the transaction id, the authorizing digest and the scan data. -/
structure TransactionLibrary where
  Transaction : Type
  deserialize : Bytes → Except String Transaction
  hash : Transaction → TransactionId
  authDigest : Transaction → Option Bytes32
  compactTransactionData : Transaction → Except String CompactTransactionData

structure MempoolSourceEntry where
  transactionId : TransactionId
  authDigest : Option Bytes32
  rawTransactionBytes : Bytes
  observedAtUnixMillis : U64

inductive MempoolEntryBuildError where
  | transactionParseFailed (source : String)
  | transactionIdMismatch (sourceId parsedId : TransactionId)
  | authDigestMismatch (sourceDigest parsedDigest : Option Bytes32)
  | compactTransactionBuildFailed (source : String)
  | transparentOutputIndexOverflow
deriving DecidableEq

open MempoolEntryBuildError

variable (lib : TransactionLibrary)

def buildMempoolEntry (sourceEntry : MempoolSourceEntry) :
    Except MempoolEntryBuildError MempoolEntry := do
  let parsed ← (lib.deserialize sourceEntry.rawTransactionBytes).mapError transactionParseFailed
  let parsedId := lib.hash parsed
  rejectIf (parsedId ≠ sourceEntry.transactionId)
    (transactionIdMismatch sourceEntry.transactionId parsedId)
  let parsedDigest := lib.authDigest parsed
  rejectIf (sourceEntry.authDigest ≠ none ∧ parsedDigest ≠ sourceEntry.authDigest)
    (authDigestMismatch sourceEntry.authDigest parsedDigest)
  let data ← (lib.compactTransactionData parsed).mapError compactTransactionBuildFailed
  if h : data.transparentOutputs.length ≤ 2 ^ 32 then
    .ok { transactionId := sourceEntry.transactionId
          authDigest := sourceEntry.authDigest <|> parsedDigest
          rawTransactionBytes := sourceEntry.rawTransactionBytes
          compactOutputs := data.transparentOutputs
          compactInputs := data.transparentInputs
          firstSeenUnixMillis := sourceEntry.observedAtUnixMillis
          outputs_indexable := h }
  else .error transparentOutputIndexOverflow

/-- An entry some source observation was hydrated into. -/
def MempoolEntry.Built (e : MempoolEntry) : Prop :=
  ∃ sourceEntry, buildMempoolEntry lib sourceEntry = .ok e

/-- A transaction id commits to the inputs: transactions of one id spend the same outpoints. -/
def TransactionLibrary.IdsCommit : Prop :=
  ∀ bytes bytes' t t' data data', lib.deserialize bytes = .ok t → lib.deserialize bytes' = .ok t' →
    lib.hash t = lib.hash t' → lib.compactTransactionData t = .ok data →
    lib.compactTransactionData t' = .ok data' → data.transparentInputs = data'.transparentInputs

variable {lib}

theorem buildMempoolEntry_eq_ok {sourceEntry : MempoolSourceEntry} {e : MempoolEntry}
    (h : buildMempoolEntry lib sourceEntry = .ok e) :
    ∃ t data, lib.deserialize sourceEntry.rawTransactionBytes = .ok t ∧
      lib.hash t = e.transactionId ∧ lib.compactTransactionData t = .ok data ∧
      e.compactInputs = data.transparentInputs := by
  simp only [buildMempoolEntry, bind_eq_ok, mapError_ok_iff, rejectIf_eq_ok, not_not] at h
  obtain ⟨t, ht, _, hid, _, _, data, hdata, h⟩ := h
  split at h
  · cases h
    exact ⟨t, data, ht, hid, hdata, rfl⟩
  · cases h

theorem MempoolEntry.Built.spentOutpoints_eq (hcommit : lib.IdsCommit) {e e' : MempoolEntry}
    (h : e.Built lib) (h' : e'.Built lib) (hid : e.transactionId = e'.transactionId) :
    e.spentOutpoints = e'.spentOutpoints := by
  obtain ⟨_, hbuild⟩ := h
  obtain ⟨_, hbuild'⟩ := h'
  obtain ⟨t, data, ht, hhash, hdata, hinputs⟩ := buildMempoolEntry_eq_ok hbuild
  obtain ⟨t', data', ht', hhash', hdata', hinputs'⟩ := buildMempoolEntry_eq_ok hbuild'
  rw [MempoolEntry.spentOutpoints_eq, MempoolEntry.spentOutpoints_eq, hinputs, hinputs']
  exact hcommit _ _ t t' data data' ht ht' (by rw [hhash, hhash', hid]) hdata hdata'

end Zinder.Mempool
