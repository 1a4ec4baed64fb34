import Zinder.Lib.OrderedRows
import Zinder.Wallet.RowCodec

/-!
# Zinder.Wallet.Reads

Paged reads of the wallet's address transactions.

The family is the list of its rows in key order. A page starts at the first key that is not below a
bound, leaves out everything up to the continuation key and stops at the first row outside its range
(`scanPage`).
-/

namespace Zinder.Wallet

open List

/-- Failures of the paged reads. -/
inductive WalletReadError where
  | continuationAddressMismatch (index : String)
deriving DecidableEq

/-! ## The page loop -/

section Loop

variable {ρ σ : Type} {width : Nat} (key : ρ → FixedBytes width) (inside : ρ → Bool)
  (after : Option (FixedBytes width)) (pageSize : Nat) (read : ρ → Except WalletReadError σ)

/-- The rows an iterator has left, the items of the page so far and the key of the last one. -/
def scanPage : List ρ → List σ → Option (FixedBytes width) →
    Except WalletReadError (List σ × Option (FixedBytes width))
  | [], items, _ => .ok (items, none)
  | row :: rows, items, lastKey =>
    if inside row = false then .ok (items, none)
    else if after.any fun k => ¬ k < key row then scanPage rows items lastKey
    else if items.length = pageSize then .ok (items, lastKey)
    else do
      let item ← read row
      scanPage rows (items ++ [item]) (some (key row))

def rowsFrom (start : FixedBytes width) (rows : List ρ) : List ρ :=
  rows.dropWhile fun row => key row < start

end Loop

section First

variable {ρ : Type} {width : Nat} {key : ρ → FixedBytes width}

def KeysAscending (key : ρ → FixedBytes width) (rows : List ρ) : Prop :=
  rows.Pairwise fun a b => key a < key b

theorem scanPage_one (key : ρ → FixedBytes width) (inside : ρ → Bool) (rows : List ρ) :
    ∃ next, scanPage key inside none 1 .ok rows [] none =
      .ok ((rows.head?.filter inside).toList, next) := by
  cases rows with
  | nil => exact ⟨none, rfl⟩
  | cons row rows =>
    rw [scanPage, head?_cons]
    by_cases hrow : inside row = false
    · rw [if_pos hrow, Option.filter_some_neg (by simp [hrow])]
      exact ⟨none, rfl⟩
    · rw [if_neg hrow, if_neg (by simp), if_neg (by simp),
        Option.filter_some_pos (by simpa using hrow)]
      change ∃ next, scanPage key inside none 1 .ok rows [row] (some (key row)) = .ok ([row], next)
      cases rows with
      | nil => exact ⟨none, rfl⟩
      | cons row' rows =>
        rw [scanPage]
        by_cases hrow' : inside row' = false
        · rw [if_pos hrow']
          exact ⟨none, rfl⟩
        · rw [if_neg hrow', if_neg (by simp), if_pos length_singleton]
          exact ⟨_, rfl⟩

theorem rowsFrom_eq {rows : List ρ} (hrows : KeysAscending key rows) (start : FixedBytes width) :
    rowsFrom key start rows = rows.filter fun row => ¬ key row < start := by
  rw [rowsFrom, (OrderedRows.takeWhile_dropWhile_eq_filter (hrows.imp fun hab hb => ?_)).2]
  · simp only [decide_not]
  · rw [decide_eq_true_eq] at *
    exact List.lt_trans hab hb

end First

/-! ## Address transactions -/

structure WalletAddressTransactionHistoryPage where
  transactions : List WalletAddressTransaction
  nextPageAfter : Option WalletAddressTransactionKey
deriving DecidableEq

/-- The height range of a request; heights are `u32`. -/
structure HeightRange where
  start : U32
  stop : U32
deriving DecidableEq

def HeightRange.ofRange (range : BlockHeightRange) : HeightRange :=
  ⟨Fin.ofNat _ range.start, Fin.ofNat _ range.stop⟩

/-- The row belongs to the address and is not above the range. -/
def notAboveRange (address : TransparentAddressScriptHash) (range : HeightRange)
    (row : WalletAddressTransaction) : Bool :=
  WalletAddressTransactionKey.addressScriptHash row.key = address ∧
    ¬ WalletAddressTransactionKey.new address range.stop (Fin.last (2 ^ 32 - 1)) < row.key

def addressTransactionHistoryRangePage (rows : List WalletAddressTransaction)
    (address : TransparentAddressScriptHash) (range : HeightRange)
    (after : Option WalletAddressTransactionKey) (pageSize : Nat) :
    Except WalletReadError WalletAddressTransactionHistoryPage := do
  rejectIf (∃ key ∈ after, WalletAddressTransactionKey.addressScriptHash key ≠ address)
    (.continuationAddressMismatch "transparent_address_transaction")
  let lowerBound := WalletAddressTransactionKey.firstAtOrAfter address range.start
  let page ← scanPage WalletAddressTransaction.key (notAboveRange address range) after pageSize .ok
    (rowsFrom WalletAddressTransaction.key (after.getD lowerBound) rows) [] none
  .ok ⟨page.1, page.2⟩

section Touched

variable {rows : List WalletAddressTransaction} {address : TransparentAddressScriptHash}
  {range : HeightRange}

open WalletAddressTransactionKey in
theorem between_bounds {key : WalletAddressTransactionKey} :
    ¬ key < firstAtOrAfter address range.start ∧
      ¬ new address range.stop (Fin.last (2 ^ 32 - 1)) < key ↔
    addressScriptHash key = address ∧ range.start ≤ blockHeight key ∧
      blockHeight key ≤ range.stop := by
  obtain ⟨address', height, index, rfl⟩ : ∃ address' height index, key = new address' height index :=
    ⟨_, _, _, (new_parts key).symm⟩
  obtain ⟨haddress, hheight, _⟩ := parts_new address' height index
  rw [haddress, hheight, firstAtOrAfter, new_lt, new_lt]
  have hlast : ¬ Fin.last (2 ^ 32 - 1) < index := Fin.not_lt.mpr (Fin.le_last index)
  simp only [Fin.not_lt_zero, hlast, and_false, or_false, not_or, not_and, Fin.not_lt]
  constructor
  · rintro ⟨⟨hnot, hstart⟩, hnot', hstop⟩
    have heq : address' = address :=
      bytes32_inj.mp (List.le_antisymm (List.not_lt.mp hnot') (List.not_lt.mp hnot))
    exact ⟨heq, hstart heq, hstop heq.symm⟩
  · rintro ⟨rfl, hstart, hstop⟩
    exact ⟨⟨List.lt_irrefl _, fun _ => hstart⟩, List.lt_irrefl _, fun _ => hstop⟩

theorem historyPage_one (hrows : KeysAscending WalletAddressTransaction.key rows) :
    ∃ page, addressTransactionHistoryRangePage rows address range none 1 = .ok page ∧
      (page.transactions ≠ [] ↔ ∃ row ∈ rows,
        WalletAddressTransactionKey.addressScriptHash row.key = address ∧
        range.start ≤ WalletAddressTransactionKey.blockHeight row.key ∧
        WalletAddressTransactionKey.blockHeight row.key ≤ range.stop) := by
  obtain ⟨next, hpage⟩ := scanPage_one WalletAddressTransaction.key
    (notAboveRange address range) (rowsFrom WalletAddressTransaction.key
      (WalletAddressTransactionKey.firstAtOrAfter address range.start) rows)
  refine ⟨⟨((rowsFrom WalletAddressTransaction.key
    (WalletAddressTransactionKey.firstAtOrAfter address range.start) rows).head?.filter
      (notAboveRange address range)).toList, next⟩, ?_, ?_⟩
  · rw [addressTransactionHistoryRangePage, rejectIf_of_not (by simp), ok_bind]
    simp only [Option.getD_none, hpage, ok_bind]
  simp only [← between_bounds]
  generalize hlow : WalletAddressTransactionKey.firstAtOrAfter address range.start = low
  have hfrom (row : WalletAddressTransaction) :
      row ∈ rowsFrom WalletAddressTransaction.key low rows ↔ row ∈ rows ∧ ¬ row.key < low := by
    simp [rowsFrom_eq hrows]
  have hafter : KeysAscending _ (rowsFrom WalletAddressTransaction.key low rows) :=
    hrows.sublist (dropWhile_sublist _)
  constructor
  · intro hne
    obtain ⟨first, hfirst⟩ := exists_mem_of_ne_nil _ hne
    obtain ⟨hhead, hinside⟩ := Option.filter_eq_some_iff.mp (Option.mem_toList.mp hfirst)
    obtain ⟨hmem, hstart⟩ := (hfrom first).mp (mem_of_head? hhead)
    simp only [notAboveRange, decide_eq_true_eq] at hinside
    exact ⟨first, hmem, hstart, hinside.2⟩
  · rintro ⟨row, hrow, hstart, hhigh⟩
    have hrow := (hfrom row).mpr ⟨hrow, hstart⟩
    obtain ⟨first, rest, hlist⟩ := exists_cons_of_ne_nil (ne_nil_of_mem hrow)
    rw [hlist] at hrow hafter hfrom
    have hfirst := ((hfrom first).mp mem_cons_self).2
    have hle : ¬ row.key < first.key := by
      rcases mem_cons.mp hrow with rfl | hrow
      · exact List.lt_irrefl _
      · exact List.lt_asymm ((pairwise_cons.mp hafter).1 row hrow)
    have hnot : ¬ WalletAddressTransactionKey.new address range.stop (Fin.last (2 ^ 32 - 1)) <
        first.key := fun hlt =>
      hle (List.lt_of_le_of_lt (List.not_lt.mp hhigh) hlt)
    have hinside : notAboveRange address range first = true := by
      simp only [notAboveRange, decide_eq_true_eq]
      exact ⟨(between_bounds.mp ⟨hlow ▸ hfirst, hnot⟩).1, hnot⟩
    rw [hlist, head?_cons, Option.filter_some_pos hinside]
    exact cons_ne_nil _ _

end Touched

end Zinder.Wallet
