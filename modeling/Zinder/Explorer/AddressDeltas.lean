import Zinder.Lib.RangePages
import Zinder.Wallet.RowCodec

/-!
# Zinder.Explorer.AddressDeltas

`scan_address_deltas`: one page of the value events of a transparent address.

A page reads as many rows as it may return and only then drops the rows outside the height range.
Rows below the range come first in key order. They use up the first page, which is then not full and
returns the empty cursor: the rows of the range that the page did not reach are lost.
`deltas_complete_iff` says exactly when nothing is lost.
-/

namespace Zinder.Explorer

open OrderedRows BigEndian ByteFields List

inductive ExplorerError where
  | invalidRequest (message : String)
  | internal (message : String)
deriving DecidableEq

inductive TransparentDeltaKind where
  | received
  | spent
deriving DecidableEq

def TransparentDeltaKind.byte : TransparentDeltaKind → UInt8
  | received => 0
  | spent => 1

def decodeTransparentDeltaKind (byte : UInt8) : Except String TransparentDeltaKind :=
  if byte = TransparentDeltaKind.received.byte then .ok .received
  else if byte = TransparentDeltaKind.spent.byte then .ok .spent
  else .error s!"unknown transparent delta kind byte: {byte}"

structure TransparentAddressDeltasRecord where
  transactionId : String
  blockTimeUnixSeconds : Int
  valueZat : Int
deriving DecidableEq

structure TransparentAddressDeltasEntry where
  transactionId : String
  blockHeight : Nat
  blockTimeUnixSeconds : Int
  index : Nat
  valueZat : Int
  kind : TransparentDeltaKind
deriving DecidableEq

def addressHashLen : Nat := 32

def kindOffset : Nat := addressHashLen + 8

/-- 32 address + 4 ascending height + 4 position + 1 kind + 4 event index. -/
def deltasKeyLen : Nat := 45

def clampMaxEntries (requested default cap : Nat) : Nat :=
  let target := if requested = 0 then default else requested
  if cap < target then cap else target

structure ScanKeys where
  startKey : Bytes
  endKey : Bytes
  resumeCursor : Option Bytes

def firstKey (address : TransparentAddressScriptHash) : Bytes :=
  address.bytes ++ replicate (deltasKeyLen - addressHashLen) 0

def finalKey (address : TransparentAddressScriptHash) : Bytes :=
  address.bytes ++ replicate (deltasKeyLen - addressHashLen) 0xff

def buildScanKeys (address : TransparentAddressScriptHash) (fromCursor : Bytes) :
    Except ExplorerError ScanKeys :=
  if fromCursor = [] then
    .ok ⟨firstKey address, finalKey address, none⟩
  else if fromCursor.length ≠ deltasKeyLen then
    .error (.invalidRequest "from_cursor must be the delta key length")
  else if fromCursor.take addressHashLen ≠ address.bytes then
    .error (.invalidRequest "from_cursor address prefix does not match request address")
  else
    .ok ⟨fromCursor, finalKey address, some fromCursor⟩

def rangeIterateConsumer (family : List ByteRow) (startKey endKeyInclusive : Bytes)
    (entriesCap : Nat) : List ByteRow :=
  (rangeRows startKey endKeyInclusive family).take entriesCap

structure DeltaScanParameters where
  scriptHash : TransparentAddressScriptHash
  startHeight : Nat
  endHeight : Nat
  maxEntries : Nat
  fromCursor : Bytes

/-- The state of the row loop. -/
structure DeltaScan where
  entries : List TransparentAddressDeltasEntry
  lastKey : Option Bytes

def decodeRowHeight (key : Bytes) : Nat := ofBytes (slice key addressHashLen 4)

section Scan

-- The record codec is generated code.
variable (decodeRecord : Bytes → Except String TransparentAddressDeltasRecord)

def deltaEntry (row : ByteRow) : Except ExplorerError TransparentAddressDeltasEntry := do
  let kind ← (decodeTransparentDeltaKind (row.1.getD kindOffset 0)).mapError .internal
  let eventIndex := ofBytes (slice row.1 (kindOffset + 1) 4)
  let record ← (decodeRecord row.2).mapError .internal
  .ok ⟨record.transactionId, decodeRowHeight row.1, record.blockTimeUnixSeconds, eventIndex,
    record.valueZat, kind⟩

/-- One turn of the row loop; to leave is `break`. -/
def scanRow (p : DeltaScanParameters) (resumeCursor : Option Bytes) (s : DeltaScan)
    (row : ByteRow) :
    Except ExplorerError (Turn DeltaScan) :=
  let key := row.1
  if key.length ≠ deltasKeyLen then .error (.internal "delta row key not the expected length")
  else if resumeCursor = some key then .ok (.again s)
  else if key.take addressHashLen ≠ p.scriptHash.bytes then .ok (.leave s)
  else if decodeRowHeight key < p.startHeight ∨ p.endHeight < decodeRowHeight key then .ok (.again s)
  else do
    let entry ← deltaEntry decodeRecord row
    let s := ⟨s.entries ++ [entry], some key⟩
    if p.maxEntries ≤ s.entries.length then .ok (.leave s) else .ok (.again s)

def scanAddressDeltas (family : List ByteRow) (p : DeltaScanParameters) :
    Except ExplorerError (List TransparentAddressDeltasEntry × Bytes) := do
  let keys ← buildScanKeys p.scriptHash p.fromCursor
  let scanCap := p.maxEntries + if keys.resumeCursor.isSome then 1 else 0
  let rows := rangeIterateConsumer family keys.startKey keys.endKey scanCap
  let turn ← forLoop (scanRow decodeRecord p keys.resumeCursor) ⟨[], none⟩ rows
  let s := turn.state
  .ok (s.entries, if p.maxEntries ≤ s.entries.length then s.lastKey.getD [] else [])

/-- The parameters `query_transparent_address_deltas` scans with. -/
def deltaScanParameters (scriptHash : TransparentAddressScriptHash)
    (startHeight endHeight maxEntries : Nat) (fromCursor : Bytes) : DeltaScanParameters :=
  ⟨scriptHash, startHeight, endHeight, clampMaxEntries maxEntries 64 256, fromCursor⟩

/-! ## Stored rows -/

/-- A row the scan can decode. -/
structure StoredDelta where
  bytes : ByteRow
  entry : TransparentAddressDeltasEntry
  length_key : bytes.1.length = deltasKeyLen
  decodes : deltaEntry decodeRecord bytes = .ok entry

end Scan

namespace StoredDelta

variable {decodeRecord : Bytes → Except String TransparentAddressDeltasRecord}

abbrev key (r : StoredDelta decodeRecord) : Bytes := r.bytes.1

abbrev height (r : StoredDelta decodeRecord) : Nat := decodeRowHeight r.key

/-- The row belongs to the address. -/
abbrev Of (a : TransparentAddressScriptHash) (r : StoredDelta decodeRecord) : Prop :=
  r.key.take addressHashLen = a.bytes

/-- The rows as the column family holds them, in key order. -/
def Sorted (rows : List (StoredDelta decodeRecord)) : Prop :=
  rows.Pairwise fun q r => q.key < r.key

def inRange (startHeight endHeight : Nat) (r : StoredDelta decodeRecord) : Bool :=
  startHeight ≤ r.height ∧ r.height ≤ endHeight

section Rows

variable (rows : List (StoredDelta decodeRecord)) (a : TransparentAddressScriptHash)

/-- The rows of an address with keys above a cursor; the empty cursor leaves them all. -/
def after (cursor : Bytes) : List (StoredDelta decodeRecord) :=
  rows.filter fun r => r.Of a ∧ cursor < r.key

/-- The rows of an address in a height range, in key order. -/
def rowsInRange (startHeight endHeight : Nat) : List (StoredDelta decodeRecord) :=
  rows.filter fun r => r.Of a ∧ inRange startHeight endHeight r

def deltasBelow (startHeight : Nat) : List (StoredDelta decodeRecord) :=
  rows.filter fun r => r.Of a ∧ r.height < startHeight

/-- The cursors a scan returns: none, or the key of a stored row. -/
def IsCursor (cursor : Bytes) : Prop := cursor = [] ∨ ∃ r ∈ rows, r.Of a ∧ cursor = r.key

end Rows

variable {r : StoredDelta decodeRecord} {rows front back : List (StoredDelta decodeRecord)}
  {a : TransparentAddressScriptHash} {cursor : Bytes}

theorem key_ne_nil (r : StoredDelta decodeRecord) : r.key ≠ [] :=
  ne_nil_of_length_pos (by rw [key, r.length_key]; decide)

theorem nil_lt_key (r : StoredDelta decodeRecord) : [] < r.key := by
  obtain ⟨x, xs, h⟩ := exists_cons_of_ne_nil r.key_ne_nil
  rw [h]
  exact List.nil_lt_cons x xs

theorem mem_after : r ∈ after rows a cursor ↔ r ∈ rows ∧ r.Of a ∧ cursor < r.key := by
  simp [after]

theorem after_sorted (hsorted : Sorted rows) : Sorted (after rows a cursor) := hsorted.filter _

theorem inRange_eq_true {lo hi : Nat} : inRange lo hi r = true ↔ lo ≤ r.height ∧ r.height ≤ hi :=
  decide_eq_true_iff

theorem rowsInRange_eq (startHeight endHeight : Nat) : rowsInRange rows a startHeight endHeight =
    (after rows a []).filter (inRange startHeight endHeight) := by
  rw [rowsInRange, after, filter_filter]
  simp [nil_lt_key, Bool.and_comm]

theorem deltasBelow_eq (startHeight : Nat) : deltasBelow rows a startHeight =
    (after rows a []).filter fun r => r.height < startHeight := by
  rw [deltasBelow, after, filter_filter]
  simp [nil_lt_key, Bool.and_comm]

/-- A cursor at a row leaves the rows after it. -/
theorem after_next (hsorted : Sorted rows) (h : after rows a cursor = front ++ r :: back) :
    after rows a r.key = back := by
  have hr : r ∈ after rows a cursor := by simp [h]
  have hinner : after rows a r.key =
      (after rows a cursor).filter fun q => r.key < q.key := by
    rw [after, after, filter_filter]
    refine filter_congr fun q _ => ?_
    have := fun hq : r.key < q.key => List.lt_trans (mem_after.mp hr).2.2 hq
    grind
  have hkeys : Sorted (after rows a cursor) := after_sorted hsorted
  rw [h] at hinner hkeys
  obtain ⟨-, hback, hfront⟩ := pairwise_append.mp hkeys
  rw [hinner, filter_append, filter_eq_nil_iff.mpr, nil_append,
    filter_cons_of_neg (by simp), filter_eq_self.mpr]
  · simpa using (pairwise_cons.mp hback).1
  · simpa using fun q hq => List.le_of_lt (hfront q hq r mem_cons_self)

/-! ## The rows of a scan -/

theorem between_iff (r : StoredDelta decodeRecord) :
    (¬ r.key < firstKey a ∧ r.key ≤ finalKey a) ↔ r.Of a := by
  have hlength : (r.key.take addressHashLen).length = a.bytes.length := by
    rw [length_take, key, r.length_key, Bytes32.length_eq]
    rfl
  have htail : (r.key.drop addressHashLen).length = deltasKeyLen - addressHashLen := by
    rw [length_drop, key, r.length_key]
  rw [← List.not_lt, ← take_append_drop addressHashLen r.key, firstKey, finalKey,
    append_lt_append hlength, append_lt_append hlength.symm, Of]
  constructor
  · rintro ⟨hlow, hhigh⟩
    rw [not_or] at hlow hhigh
    exact List.le_antisymm (List.not_lt.mp hhigh.1) (List.not_lt.mp hlow.1)
  · intro h
    simp [h, not_lt_replicate _ htail, not_replicate_lt _ htail]

theorem rangeRows_address (hsorted : Sorted rows) {start : Bytes} (hstart : ¬ start < firstKey a) :
    rangeRows start (finalKey a) (rows.map bytes) =
      ((after rows a []).filter fun r => ¬ r.key < start).map bytes := by
  have hkeys : KeysSorted (rows.map bytes) := pairwise_map.mpr hsorted
  rw [rangeRows_eq_filter hkeys, filter_map, after, filter_filter]
  congr 1
  refine filter_congr fun r _ => ?_
  have hlow : ¬ r.key < start → ¬ r.key < firstKey a :=
    fun h => List.not_lt.mpr (List.le_trans (List.not_lt.mp hstart) (List.not_lt.mp h))
  have hbetween := between_iff (a := a) r
  rw [Bool.eq_iff_iff]
  simp only [Function.comp, Bool.and_eq_true, Bool.not_eq_true', decide_eq_false_iff_not,
    decide_eq_true_eq, nil_lt_key, and_true, ← hbetween]
  exact ⟨fun h => ⟨h.1, hlow h.1, h.2⟩, fun h => ⟨h.1, h.2.2⟩⟩

theorem rangeRows_first (hsorted : Sorted rows) :
    rangeRows (firstKey a) (finalKey a) (rows.map bytes) = (after rows a []).map bytes := by
  rw [rangeRows_address hsorted (List.lt_irrefl _), filter_eq_self.mpr]
  exact fun r hr => decide_eq_true ((between_iff r).mpr (mem_after.mp hr).2.1).1

/-- A cursor at a stored row starts a range at the row and goes on with the rows after it. -/
theorem rangeRows_cursor (hsorted : Sorted rows) (hr : r ∈ rows) (haddress : r.Of a) :
    rangeRows r.key (finalKey a) (rows.map bytes) = (r :: after rows a r.key).map bytes := by
  obtain ⟨front, back, hsplit⟩ := append_of_mem (mem_after.mpr ⟨hr, haddress, r.nil_lt_key⟩)
  rw [rangeRows_address hsorted ((between_iff r).mpr haddress).1, after_next hsorted hsplit, hsplit]
  have hkeys : Sorted (after rows a []) := after_sorted hsorted
  rw [hsplit] at hkeys
  obtain ⟨-, hback, hfront⟩ := pairwise_append.mp hkeys
  rw [filter_append, filter_eq_nil_iff.mpr, nil_append, filter_eq_self.mpr]
  · rw [forall_mem_cons]
    refine ⟨by simp, fun q hq => ?_⟩
    simpa using List.le_of_lt ((pairwise_cons.mp hback).1 q hq)
  · simpa using fun q hq => hfront q hq r mem_cons_self

/-! ## The row loop -/

/-- The state of a row loop that has taken these rows. -/
def scan (taken : List (StoredDelta decodeRecord)) : DeltaScan :=
  ⟨taken.map entry, taken.getLast?.map key⟩

variable {p : DeltaScanParameters} {resumeCursor : Option Bytes}
  (taken : List (StoredDelta decodeRecord))

theorem scanRow_bytes (hresume : resumeCursor ≠ some r.key) (haddress : r.Of p.scriptHash) :
    scanRow decodeRecord p resumeCursor (scan taken) r.bytes = .ok
      (if inRange p.startHeight p.endHeight r then
        if p.maxEntries ≤ taken.length + 1 then .leave (scan (taken ++ [r]))
        else .again (scan (taken ++ [r]))
      else .again (scan taken)) := by
  have hrange : inRange p.startHeight p.endHeight r = true ↔
      ¬ (r.height < p.startHeight ∨ p.endHeight < r.height) := by
    rw [inRange_eq_true, not_or, Nat.not_lt, Nat.not_lt]
  unfold Of height key at *
  simp only [scanRow, r.length_key, r.decodes, hresume, haddress, ne_eq, not_true, if_false,
    ok_bind, hrange]
  by_cases hr : decodeRowHeight r.bytes.1 < p.startHeight ∨ p.endHeight < decodeRowHeight r.bytes.1
  · simp [hr]
  · by_cases hfull : p.maxEntries ≤ taken.length + 1 <;> simp [hr, hfull, scan, key]

/-- Rows that fit in the page are all visited: the page is full at the last row at the earliest. -/
theorem scanRows (hresume : ∀ r ∈ back, resumeCursor ≠ some r.key)
    (haddress : ∀ r ∈ back, r.Of p.scriptHash) (hroom : taken.length + back.length ≤ p.maxEntries) :
    ∃ turn, forLoop (scanRow decodeRecord p resumeCursor) (scan taken) (back.map bytes) = .ok turn ∧
      turn.state = scan (taken ++ back.filter (inRange p.startHeight p.endHeight)) := by
  induction back generalizing taken with
  | nil => exact ⟨_, rfl, by simp [Turn.state]⟩
  | cons r back ih =>
    rw [forall_mem_cons] at hresume haddress
    rw [length_cons] at hroom
    rw [map_cons, forLoop, scanRow_bytes _ hresume.1 haddress.1, ok_bind]
    by_cases hr : inRange p.startHeight p.endHeight r = true
    · rw [if_pos hr, filter_cons_of_pos hr]
      by_cases hfull : p.maxEntries ≤ taken.length + 1
      · have hback : back = [] := length_eq_zero_iff.mp (by omega)
        rw [if_pos hfull, hback]
        exact ⟨_, rfl, rfl⟩
      · rw [if_neg hfull, append_cons _ _ (filter _ _)]
        exact ih _ hresume.2 haddress.2 (by
          rw [length_append, length_singleton]
          omega)
    · rw [if_neg hr, filter_cons_of_neg hr]
      exact ih _ hresume.2 haddress.2 (by omega)

/-! ## Heights -/

theorem heights_ascend (hsorted : Sorted rows) (cursor : Bytes) :
    (after rows a cursor).Pairwise fun q r => q.height ≤ r.height := by
  refine (after_sorted hsorted).imp_of_mem fun {q r} hq hr hlt => ?_
  have hlength : ((q.key.drop addressHashLen).take 4).length =
      ((r.key.drop addressHashLen).take 4).length := by
    simp [q.length_key, r.length_key]
  rw [← take_append_drop addressHashLen q.key, ← take_append_drop addressHashLen r.key,
    (mem_after.mp hq).2.1, (mem_after.mp hr).2.1, append_lt_append rfl,
    ← take_append_drop 4 (q.key.drop _), ← take_append_drop 4 (r.key.drop _),
    append_lt_append hlength, lt_iff_ofBytes_lt hlength] at hlt
  rcases hlt with hlt | ⟨-, hlt | ⟨heq, -⟩⟩
  · exact absurd hlt (List.lt_irrefl _)
  · exact Nat.le_of_lt hlt
  · exact Nat.le_of_eq (congrArg ofBytes heq)

/-- The first `n` rows hold the rows below the range first, and what the range has after them. -/
theorem filter_take_inRange (lo hi : Nat)
    (hascend : rows.Pairwise fun q r => q.height ≤ r.height) (n : Nat) :
    (rows.take n).filter (inRange lo hi) =
      (rows.filter (inRange lo hi)).take (n - (rows.filter fun r => r.height < lo).length) := by
  induction rows generalizing n with
  | nil => simp
  | cons r rows ih =>
    obtain ⟨hhead, htail⟩ := pairwise_cons.mp hascend
    cases n with
    | zero => simp
    | succ n =>
      rw [take_succ_cons]
      by_cases hlow : r.height < lo
      · have hr : ¬ inRange lo hi r = true := by
          rw [inRange_eq_true]
          omega
        simp [filter_cons_of_neg hr, hlow, ih htail]
      · have hnone : rows.filter (fun q => q.height < lo) = [] := by
          refine filter_eq_nil_iff.mpr fun q hq => ?_
          have := hhead q hq
          rw [decide_eq_true_eq]
          omega
        by_cases hr : inRange lo hi r = true
        · simp [filter_cons_of_pos hr, hlow, hnone, ih htail]
        · have habove : rows.filter (inRange lo hi) = [] := by
            refine filter_eq_nil_iff.mpr fun q hq => ?_
            have := hhead q hq
            rw [inRange_eq_true] at *
            omega
          simp [filter_cons_of_neg hr, habove, ih htail]

/-! ## Pages -/

/-- A page reads the next `m` rows. It takes the rows of the range, as many as the rows below the
range leave room for. -/
theorem scanAddressDeltas_page (startHeight endHeight m : Nat) (hsorted : Sorted rows)
    (h : IsCursor rows a cursor) :
    ∃ page, page = ((after rows a cursor).filter (inRange startHeight endHeight)).take
        (m - ((after rows a cursor).filter fun r => r.height < startHeight).length) ∧
      scanAddressDeltas decodeRecord (rows.map bytes) ⟨a, startHeight, endHeight, m, cursor⟩ =
        .ok (page.map entry, if m ≤ page.length then (page.getLast?.map key).getD [] else []) := by
  rw [← filter_take_inRange _ _ (heights_ascend hsorted cursor)]
  have hscan (resume : Option Bytes) (hresume : ∀ r ∈ after rows a cursor, resume ≠ some r.key) :=
    scanRows (p := ⟨a, startHeight, endHeight, m, cursor⟩) []
      (fun r hr => hresume r (mem_of_mem_take hr))
      (fun r hr => (mem_after.mp (mem_of_mem_take hr)).2.1)
      (by rw [length_nil, Nat.zero_add]; exact length_take_le m _)
  refine ⟨_, rfl, ?_⟩
  rw [scanAddressDeltas,
    show (⟨[], none⟩ : DeltaScan) = scan ([] : List (StoredDelta decodeRecord)) from rfl]
  rcases h with rfl | ⟨r, hr, haddress, rfl⟩
  · obtain ⟨turn, hturn, hstate⟩ := hscan none (by simp)
    simp only [buildScanKeys, if_true, ok_bind, rangeIterateConsumer, rangeRows_first hsorted,
      Option.isSome_none, Bool.false_eq_true, if_false, Nat.add_zero, ← map_take, hturn, hstate]
    simp [scan]
  · have hkeys : buildScanKeys a r.key = .ok ⟨r.key, finalKey a, some r.key⟩ := by
      rw [buildScanKeys, if_neg r.key_ne_nil, if_neg (not_not.mpr r.length_key),
        if_neg (not_not.mpr haddress)]
    obtain ⟨turn, hturn, hstate⟩ := hscan (some r.key) fun q hq heq =>
      List.lt_irrefl _ (Option.some.inj heq ▸ (mem_after.mp hq).2.2)
    have hskip (p : DeltaScanParameters) (s : DeltaScan) :
        scanRow decodeRecord p (some r.key) s r.bytes = .ok (.again s) := by
      rw [scanRow, if_neg (not_not.mpr r.length_key), if_pos rfl]
    simp only [hkeys, ok_bind, rangeIterateConsumer, rangeRows_cursor hsorted hr haddress,
      Option.isSome_some, if_true, ← map_take, take_succ_cons, map_cons, forLoop, hskip, hturn, hstate]
    simp [scan]

/-- What a caller collects who follows `next_cursor` from a cursor on. -/
def DeltaPages (rows : List (StoredDelta decodeRecord)) (a : TransparentAddressScriptHash)
    (startHeight endHeight maxEntries : Nat) : Bytes → List TransparentAddressDeltasEntry → Prop :=
  Followed fun cursor page next =>
    scanAddressDeltas decodeRecord (rows.map bytes)
      (deltaScanParameters a startHeight endHeight maxEntries cursor) = .ok (page, next)

variable {startHeight endHeight maxEntries : Nat}

theorem clampMaxEntries_pos : 0 < clampMaxEntries maxEntries 64 256 := by
  unfold clampMaxEntries
  grind

/-- With no row below the range, the rows of the range come first, and a page takes the next of them.
By induction on the rows left: a full page leaves those after its last one. -/
theorem deltaPages_of_none_below (hsorted : Sorted rows)
    (hbelow : deltasBelow rows a startHeight = []) (h : IsCursor rows a cursor) :
    DeltaPages rows a startHeight endHeight maxEntries cursor
      (((after rows a cursor).filter (inRange startHeight endHeight)).map entry) := by
  induction hlength : (after rows a cursor).length using Nat.strongRecOn generalizing cursor with
  | ind n ih =>
    obtain ⟨page, htake, hreturns⟩ := scanAddressDeltas_page startHeight endHeight
      (clampMaxEntries maxEntries 64 256) hsorted h
    have hnone : (after rows a cursor).filter (fun r => r.height < startHeight) = [] := by
      rw [deltasBelow, filter_eq_nil_iff] at hbelow
      refine filter_eq_nil_iff.mpr fun r hr hlow => ?_
      obtain ⟨hrow, haddress, -⟩ := mem_after.mp hr
      exact hbelow r hrow (decide_eq_true ⟨haddress, of_decide_eq_true hlow⟩)
    rw [hnone] at htake
    by_cases hfull : clampMaxEntries maxEntries 64 256 ≤ page.length
    · obtain ⟨kept, r, rfl⟩ : ∃ kept r, page = kept ++ [r] :=
        ⟨_, _, (dropLast_append_getLast
          (ne_nil_of_length_pos (clampMaxEntries_pos.trans_le hfull))).symm⟩
      obtain ⟨rest, hrest⟩ : ∃ rest, (after rows a cursor).filter (inRange startHeight endHeight) =
          kept ++ r :: rest :=
        ⟨_, by rw [append_cons, htake, take_append_drop]⟩
      obtain ⟨front, back, hafter, -, hback⟩ := filter_eq_append_iff.mp hrest
      obtain ⟨gap, back, rfl, -, -, rfl⟩ := filter_eq_cons_iff.mp hback
      rw [← append_assoc] at hafter
      have hr := mem_after.mp (hafter ▸ by simp : r ∈ after rows a cursor)
      have hnext := after_next hsorted hafter
      have hfollow := ih back.length (by rw [← hlength, hafter]; simp; omega)
        (.inr ⟨r, hr.1, hr.2.1, rfl⟩) (by rw [hnext])
      rw [if_pos hfull, getLast?_concat, Option.map_some] at hreturns
      rw [hnext] at hfollow
      rw [hrest, append_cons, map_append]
      exact .next hreturns r.key_ne_nil hfollow
    · rw [if_neg hfull] at hreturns
      rw [htake, length_take, length_nil] at hfull
      rw [htake, take_of_length_le (by rw [length_nil]; omega)] at hreturns
      exact .last hreturns

/-- A row below the range keeps the first page from being full, and it is the only page. -/
theorem deltaPages_of_below (hsorted : Sorted rows)
    (hbelow : deltasBelow rows a startHeight ≠ []) {items : List TransparentAddressDeltasEntry} :
    DeltaPages rows a startHeight endHeight maxEntries [] items ↔
      items = ((rowsInRange rows a startHeight endHeight).take
        (clampMaxEntries maxEntries 64 256 - (deltasBelow rows a startHeight).length)).map entry := by
  obtain ⟨page, hpage, hreturns⟩ := scanAddressDeltas_page (a := a) startHeight endHeight
    (clampMaxEntries maxEntries 64 256) hsorted (.inl rfl)
  rw [← rowsInRange_eq, ← deltasBelow_eq] at hpage
  have hshort : ¬ clampMaxEntries maxEntries 64 256 ≤ page.length := by
    have hpos := length_pos_iff.mpr hbelow
    have hm : 0 < clampMaxEntries maxEntries 64 256 := clampMaxEntries_pos
    rw [hpage, length_take]
    omega
  refine followed_iff_of_last fun page' next => ?_
  rw [← hpage, deltaScanParameters, hreturns, if_neg hshort]
  simp [eq_comm]

/-- Following the cursors returns every row of the range, in key order, exactly when no row of the
address lies below the range, or the first page reaches to the end of the range. -/
theorem deltas_complete_iff (rows : List (StoredDelta decodeRecord)) (hsorted : Sorted rows)
    (a : TransparentAddressScriptHash) (startHeight endHeight maxEntries : Nat) :
    DeltaPages rows a startHeight endHeight maxEntries []
        ((rowsInRange rows a startHeight endHeight).map entry) ↔
      deltasBelow rows a startHeight = [] ∨ rowsInRange rows a startHeight endHeight = [] ∨
      (deltasBelow rows a startHeight).length +
        (rowsInRange rows a startHeight endHeight).length ≤
          clampMaxEntries maxEntries 64 256 := by
  by_cases hbelow : deltasBelow rows a startHeight = []
  · refine ⟨fun _ => .inl hbelow, fun _ => ?_⟩
    rw [rowsInRange_eq]
    exact deltaPages_of_none_below hsorted hbelow (.inl rfl)
  · have hpos := length_pos_iff.mpr hbelow
    rw [deltaPages_of_below hsorted hbelow, or_iff_right hbelow, ← length_eq_zero_iff]
    constructor
    · intro h
      have := congrArg length h
      rw [length_map, length_map, length_take] at this
      omega
    · intro h
      rw [take_of_length_le (by omega)]

def sampleAddress : TransparentAddressScriptHash := repeatedByte 0

def sampleDelta (height : UInt8) : StoredDelta fun _ => .ok ⟨"", 0, 1⟩ where
  bytes := (sampleAddress.bytes ++ ([0, 0, 0, height] ++ replicate 9 0), [])
  entry := ⟨"", ofBytes [0, 0, 0, height], 0, 0, 1, .received⟩
  length_key := rfl
  decodes := rfl

theorem deltas_complete_one_page : DeltaPages [sampleDelta 1, sampleDelta 2] sampleAddress 2 2 2 []
    ((rowsInRange [sampleDelta 1, sampleDelta 2] sampleAddress 2 2).map entry) :=
  (deltas_complete_iff _ (by simp only [Sorted]; decide) _ _ _ _).mpr (.inr (.inr (by decide)))

/-- With one row per page, the row below the range is all that is read. -/
theorem delta_below_range_lost :
    Sorted [sampleDelta 1, sampleDelta 2] ∧
    ¬ DeltaPages [sampleDelta 1, sampleDelta 2] sampleAddress 2 2 1 []
      ((rowsInRange [sampleDelta 1, sampleDelta 2] sampleAddress 2 2).map entry) := by
  refine ⟨by simp only [Sorted]; decide, fun h => ?_⟩
  have hpage : scanAddressDeltas (fun _ => .ok ⟨"", 0, 1⟩) ([sampleDelta 1, sampleDelta 2].map bytes)
      (deltaScanParameters sampleAddress 2 2 1 []) = .ok ([], []) := by decide
  have hempty : (rowsInRange [sampleDelta 1, sampleDelta 2] sampleAddress 2 2).map entry = [] :=
    (followed_iff_of_last fun page next => by rw [hpage]; simp [eq_comm]).mp h
  exact absurd hempty (by decide)

end StoredDelta

end Zinder.Explorer
