import Zinder.ChainEvents.Resume
import Zinder.Lib.PagedStream
import Zinder.Wallet.Reads

/-!
# Zinder.ChainEvents.Stream

The chain-event stream of one client, with its address filter.

The stream reads pages with `walletChainEventHistory` and filters each page after it has been read, by
probes of the wallet's address index (`envelopePassesFilter`). Its cursor moves over the envelopes it
sends and over nothing else.

* `chainEventsPage`: one page read of `spawn_filtered_stream`.
* `passes`: what a filter lets through, over the whole index.
* `follows`: the stream follows the retained events.
-/

namespace Zinder.ChainEvents

open Canonical Format Wallet PagedStream List
open Mempool (CursorAuthority StreamCursorTokenV1)

/-- Failures of a page read. -/
inductive QueryError where
  | canonical (e : CanonicalEventError)
  | wallet (e : WalletReadError)
deriving DecidableEq

/-! ## The filter -/

section Filter

variable {D : Type} (s : PrimaryStore D) (index : List WalletAddressTransaction)
  (filter : List TransparentAddressScriptHash)

/-- `address_touched_in_range`, a page of one entry. -/
def addressTouchedInRange (address : TransparentAddressScriptHash) (range : BlockHeightRange) :
    Except QueryError Bool := do
  let _ ← (chainEpochAt s.canonical.db s.canonical.readyEvidence.visibleEpoch).mapError .canonical
  let page ← (addressTransactionHistoryRangePage index address (.ofRange range) none 1).mapError .wallet
  .ok (!page.transactions.isEmpty)

def anyAddressTouched (range : BlockHeightRange) :
    List TransparentAddressScriptHash → Except QueryError Bool
  | [] => .ok false
  | address :: rest => do
    let touched ← addressTouchedInRange s index address range
    if touched then .ok true else anyAddressTouched range rest

def envelopePassesFilter (envelope : ChainEventEnvelope) : Except QueryError Bool :=
  match envelope.event with
  | .chainReorged _ _ => .ok true
  | .chainCommitted committed => anyAddressTouched s index committed.blockRange filter

def filterEnvelopes : List ChainEventEnvelope → Except QueryError (List ChainEventEnvelope)
  | [] => .ok []
  | envelope :: envelopes => do
    let pass ← envelopePassesFilter s index filter envelope
    let rest ← filterEnvelopes envelopes
    .ok (if pass then envelope :: rest else rest)

/-- One page read of `spawn_filtered_stream`. -/
def chainEventsPage (A : CursorAuthority) (family : ChainEventStreamFamily) {maxEvents : Nat}
    (hpos : 0 < maxEvents) (cursor : Option StreamCursorTokenV1) :
    Except QueryError (List ChainEventEnvelope) := do
  let envelopes ← (walletChainEventHistory A s ⟨cursor, family, maxEvents, hpos⟩).mapError .canonical
  if filter = [] then .ok envelopes else filterEnvelopes s index filter envelopes

end Filter

def Touched (index : List WalletAddressTransaction) (address : TransparentAddressScriptHash)
    (range : BlockHeightRange) : Prop :=
  ∃ row ∈ index, WalletAddressTransactionKey.addressScriptHash row.key = address ∧
    range.start ≤ (WalletAddressTransactionKey.blockHeight row.key).val ∧
    (WalletAddressTransactionKey.blockHeight row.key).val ≤ range.stop

instance (index : List WalletAddressTransaction) (address : TransparentAddressScriptHash)
    (range : BlockHeightRange) : Decidable (Touched index address range) :=
  inferInstanceAs (Decidable (∃ row ∈ index, _))

/-- What a filter lets through: all reorgs, and the commits that touch one of its addresses. -/
def passes (index : List WalletAddressTransaction) (filter : List TransparentAddressScriptHash)
    (envelope : ChainEventEnvelope) : Bool :=
  match envelope.event with
  | .chainReorged _ _ => true
  | .chainCommitted committed => ∃ address ∈ filter, Touched index address committed.blockRange

/-! ## Probes -/

variable {range : BlockHeightRange}

theorem touched_iff {index : List WalletAddressTransaction} {address : TransparentAddressScriptHash}
    (hstart : range.start < u32Bound) (hstop : range.stop < u32Bound) :
    Touched index address range ↔ ∃ row ∈ index,
      WalletAddressTransactionKey.addressScriptHash row.key = address ∧
      (HeightRange.ofRange range).start ≤ WalletAddressTransactionKey.blockHeight row.key ∧
      WalletAddressTransactionKey.blockHeight row.key ≤ (HeightRange.ofRange range).stop := by
  have hbound : u32Bound = 2 ^ 32 := rfl
  have hstart' : (HeightRange.ofRange range).start.val = range.start :=
    Nat.mod_eq_of_lt (hbound ▸ hstart)
  have hstop' : (HeightRange.ofRange range).stop.val = range.stop :=
    Nat.mod_eq_of_lt (hbound ▸ hstop)
  simp only [Touched, Fin.le_def, hstart', hstop']

section Probes

variable {D : Type} {s : PrimaryStore D} {index : List WalletAddressTransaction}
  {filter : List TransparentAddressScriptHash} {epoch : ChainEpoch}
  (hepoch : chainEpochAt s.canonical.db s.canonical.readyEvidence.visibleEpoch = .ok epoch)
  (hindex : KeysAscending WalletAddressTransaction.key index)
include hepoch hindex

theorem addressTouchedInRange_eq (address : TransparentAddressScriptHash)
    (hstart : range.start < u32Bound) (hstop : range.stop < u32Bound) :
    addressTouchedInRange s index address range = .ok (decide (Touched index address range)) := by
  obtain ⟨page, hpage, htouched⟩ : ∃ page,
      addressTransactionHistoryRangePage index address (.ofRange range) none 1 = .ok page ∧
        (page.transactions ≠ [] ↔ _) := historyPage_one hindex
  rw [addressTouchedInRange, hepoch, hpage]
  change (.ok (!page.transactions.isEmpty) : Except QueryError Bool) = _
  rw [← touched_iff hstart hstop] at htouched
  by_cases hnil : page.transactions = []
  · have hnot : ¬ Touched index address range := fun h => htouched.mpr h hnil
    simp [hnil, hnot]
  · simp [hnil, htouched.mp hnil]

theorem anyAddressTouched_eq (hstart : range.start < u32Bound) (hstop : range.stop < u32Bound) :
    anyAddressTouched s index range filter =
      .ok (decide (∃ address ∈ filter, Touched index address range)) := by
  induction filter with
  | nil => simp [anyAddressTouched]
  | cons address rest ih =>
    rw [anyAddressTouched, addressTouchedInRange_eq hepoch hindex address hstart hstop, ok_bind, ih]
    by_cases htouched : Touched index address range <;> simp [htouched]

def CommitFits (envelope : ChainEventEnvelope) : Prop :=
  ∀ committed, envelope.event = .chainCommitted committed →
    committed.blockRange.start < u32Bound ∧ committed.blockRange.stop < u32Bound

theorem envelopePassesFilter_eq {envelope : ChainEventEnvelope} (hfits : CommitFits envelope) :
    envelopePassesFilter s index filter envelope = .ok (passes index filter envelope) := by
  rw [envelopePassesFilter, passes]
  cases hevent : envelope.event with
  | chainReorged reverted committed => rfl
  | chainCommitted committed =>
    obtain ⟨hstart, hstop⟩ := hfits committed hevent
    exact anyAddressTouched_eq hepoch hindex hstart hstop

theorem filterEnvelopes_eq {envelopes : List ChainEventEnvelope}
    (hfits : ∀ envelope ∈ envelopes, CommitFits envelope) :
    filterEnvelopes s index filter envelopes = .ok (envelopes.filter (passes index filter)) := by
  induction envelopes with
  | nil => rfl
  | cons envelope envelopes ih =>
    rw [filterEnvelopes, envelopePassesFilter_eq hepoch hindex (hfits envelope mem_cons_self),
      ok_bind, ih fun other hmem => hfits other (mem_cons_of_mem _ hmem), ok_bind,
      filter_cons]

end Probes

/-! ## Following the events -/

/-- Where an item stands in a log with at most one item for each number. -/
theorem flatMap_range'_split {α : Type} {f : Nat → List α} (hone : ∀ n, (f n).length ≤ 1)
    {first count : Nat} {front back : List α} {item : α}
    (h : (List.range' first count).flatMap f = front ++ item :: back) :
    ∃ n, first ≤ n ∧ n < first + count ∧ f n = [item] ∧
      back = (List.range' (n + 1) (first + count - (n + 1))).flatMap f := by
  induction count generalizing first front with
  | zero => simp at h
  | succ count ih =>
    rw [range'_succ, flatMap_cons] at h
    have hlater : ∀ front', (List.range' (first + 1) count).flatMap f = front' ++ item :: back →
        ∃ n, first ≤ n ∧ n < first + (count + 1) ∧ f n = [item] ∧
          back = (List.range' (n + 1) (first + (count + 1) - (n + 1))).flatMap f := by
      intro front' hrest
      obtain ⟨n, hle, hlt, hitem, hback⟩ := ih hrest
      refine ⟨n, by omega, by omega, hitem, ?_⟩
      rw [hback]
      congr 2
      omega
    cases hhead : f first with
    | nil =>
      rw [hhead, nil_append] at h
      exact hlater front h
    | cons x rest =>
      have hrest : rest = [] := by
        have hlength := hone first
        rw [hhead, length_cons] at hlength
        exact length_eq_zero_iff.mp (by omega)
      rw [hhead, hrest, singleton_append] at h
      cases front with
      | nil =>
        rw [nil_append, List.cons.injEq] at h
        obtain ⟨rfl, rfl⟩ := h
        refine ⟨first, Nat.le_refl _, by omega, by rw [hhead, hrest], ?_⟩
        congr 2
        omega
      | cons y front =>
        rw [cons_append, List.cons.injEq] at h
        exact hlater front h.2

/-- Every retained event's cursor can still be resumed. -/
def Resumable {D : Type} (A : CursorAuthority) (s : PrimaryStore D) : Prop :=
  ∀ floor ∈ s.retentionFloor.toOption, ∀ sequence ≤ s.currentEventSequence, floor ≤ sequence →
    ∀ envelopes ∈ (projectEvent A s.canonical.db .visible sequence).toOption, ∀ envelope ∈ envelopes,
      (walletEventResume A s (some envelope.cursor) .visible s.currentEventSequence floor).isOk

instance {D : Type} (A : CursorAuthority) (s : PrimaryStore D) : Decidable (Resumable A s) :=
  inferInstanceAs (Decidable (∀ floor ∈ s.retentionFloor.toOption, ∀ sequence ≤ _, _ →
    ∀ envelopes ∈ Except.toOption _, ∀ envelope ∈ envelopes, _ = true))

section Following

variable {D : Type} {E : Env D} [DecidableEq D] {st : PrimaryState E} {floor : Nat}
  {past : List (HistoryEntry E)} {ds : List (Displacement E)}
  (inv : EventsInvariant st floor past ds) (htimes : ∀ h ∈ past, h.createdAt < u64Bound)
  {A : CursorAuthority} (hroom : st.primary.currentEventSequence + 1 < u64Bound)

variable (st floor past A) in
def LogAfter (family : ChainEventStreamFamily) (cursor : Option StreamCursorTokenV1)
    (log : List ChainEventEnvelope) : Prop :=
  ∃ resume, walletEventResume A st.primary cursor family st.primary.currentEventSequence floor =
      .ok resume ∧
    log = resume.syntheticReorg.toList ++ deliverable A st.live.store.buildPlan past resume.family
      resume.startSequence st.primary.currentEventSequence

include inv

theorem tip_lt {i : Nat} {h : HistoryEntry E} (hi : past[i]? = some h) :
    st.live.start.height + h.chain.length < u32Bound := by
  have hlinked := (inv.primary.history.valid h (mem_of_getElem? hi)).linked
  rw [← hlinked.tipId_height]
  exact height_lt_of_hashAt hlinked (hashAt_tip hlinked (chain_ne_nil inv hi))

variable {family : ChainEventStreamFamily} {maxEvents : Nat} {cursor : Option StreamCursorTokenV1}
  {index : List WalletAddressTransaction}

theorem commitFits_entry {i j : Nat} {h previous : HistoryEntry E} (hi : past[i]? = some h) :
    CommitFits (entryEnvelope A st.live.store.buildPlan family j previous h) := by
  intro committed hcommitted
  have hlt := tip_lt inv hi
  have hpos := length_pos_iff.mpr (chain_ne_nil inv hi)
  simp only [entryEnvelope, entryEvent] at hcommitted
  split at hcommitted
  · cases hcommitted
  · next hnone =>
    cases hcommitted
    change (h.committedRange st.live.start).start < u32Bound ∧
      (h.committedRange st.live.start).stop < u32Bound
    cases hkind : h.kind with
    | baseline =>
      simp only [HistoryEntry.committedRange, hkind]
      omega
    | append =>
      simp only [HistoryEntry.committedRange, hkind]
      omega
    | replacement kept => simp [HistoryEntry.revertedRange, hkind] at hnone

theorem commitFits_deliverable {first last : Nat} {envelope : ChainEventEnvelope}
    (hmem : envelope ∈ deliverable A st.live.store.buildPlan past family first last) :
    CommitFits envelope := by
  obtain ⟨n, _, hmem⟩ := mem_flatMap.mp hmem
  rw [envelopesOf] at hmem
  split at hmem
  · simp at hmem
  · next h hi =>
    split at hmem
    · rw [mem_singleton] at hmem
      rw [hmem]
      exact commitFits_entry inv hi
    · simp at hmem

theorem commitFits_of_logAfter {log : List ChainEventEnvelope}
    (hlog : LogAfter st floor past A family cursor log) {envelope : ChainEventEnvelope}
    (hmem : envelope ∈ log) : CommitFits envelope := by
  obtain ⟨resume, hresume, rfl⟩ := hlog
  rcases mem_append.mp hmem with hmem | hmem
  · cases cursor with
    | none =>
      cases hresume
      simp at hmem
    | some cursor =>
      obtain ⟨_, _, _, _, _, _, _, _, hresume⟩ := walletEventResume_eq_ok.mp hresume
      rcases resumeAtForkPoint_cases hresume with ⟨rfl, _⟩ | ⟨reorg, hreorg, _, rfl⟩
      · simp at hmem
      · obtain ⟨_, reverted, committed, hevent⟩ := syntheticReorg_eq_ok hreorg
        obtain rfl : envelope = reorg := by simpa using hmem
        intro committed' hcommitted
        rw [hevent] at hcommitted
        cases hcommitted
  · exact commitFits_deliverable inv hmem

include htimes hroom in
theorem chainEventsPage_eq (hindex : KeysAscending WalletAddressTransaction.key index)
    {filter : List TransparentAddressScriptHash} (hpos : 0 < maxEvents)
    {log : List ChainEventEnvelope} (hlog : LogAfter st floor past A family cursor log) :
    chainEventsPage st.primary index filter A family hpos cursor =
      .ok ((log.take maxEvents).filter fun envelope => filter = [] ∨
        passes index filter envelope) := by
  obtain ⟨epoch, hepoch⟩ := exists_visibleEpoch inv
  have hfits : ∀ envelope ∈ log.take maxEvents, CommitFits envelope := fun envelope hmem =>
    commitFits_of_logAfter inv hlog (mem_of_mem_take hmem)
  obtain ⟨resume, hresume, rfl⟩ := hlog
  have hpage : walletChainEventHistory A st.primary ⟨cursor, family, maxEvents, hpos⟩ = .ok _ :=
    walletChainEventHistory_eq inv htimes hroom hresume
  rw [chainEventsPage, hpage]
  change (if filter = [] then _ else _) = _
  by_cases hfilter : filter = []
  · simp [hfilter]
  · rw [if_neg hfilter, filterEnvelopes_eq hepoch hindex hfits]
    simp [hfilter]

include htimes hroom in
section

variable (hresumable : Resumable A st.primary)
include hresumable

theorem resume_entry {i : Nat} {h previous : HistoryEntry E}
    (hi : past[i]? = some h) (hfloor : floor ≤ i + 1) {family requested : ChainEventStreamFamily}
    (hfamily : inFamily family h = true) :
    walletEventResume A st.primary
        (some (entryEnvelope A st.live.store.buildPlan family i previous h).cursor) requested
        st.primary.currentEventSequence floor = .ok ⟨i + 2, family, none⟩ := by
  refine resume_branch inv hi hfloor hroom (settled_of_inFamily hfamily) _ ?_
  rintro rfl
  have hlt := (List.getElem?_eq_some_iff.mp hi).1
  rw [inv.primary.history.length] at hlt
  have hproject : projectEvent A st.live.store.db .visible (i + 1) =
      .ok [entryEnvelope A st.live.store.buildPlan .visible i ((past[i - 1]?).getD h) h] := by
    rw [projectEvent_eq inv htimes A .visible hfloor hlt, envelopesOf, Nat.add_sub_cancel, hi]
    rfl
  obtain ⟨resume, hresume⟩ := isOk_eq_true.mp (hresumable floor (toOption_eq_some.mpr inv.primary.floor_eq)
    (i + 1) hlt hfloor _ (toOption_eq_some.mpr hproject) _ mem_cons_self)
  obtain ⟨payload, forkPoint, _, hdecode, _, _, _, hfind, _⟩ := walletEventResume_eq_ok.mp hresume
  cases (decodeCursor_branch inv A .visible hi).symm.trans hdecode
  exact ⟨forkPoint, mem_of_find?_eq_some hfind, find?_some hfind⟩

include htimes hroom in
theorem LogAfter.next {front back : List ChainEventEnvelope} {item : ChainEventEnvelope}
    (hlog : LogAfter st floor past A family cursor (front ++ item :: back)) :
    LogAfter st floor past A family (some item.cursor) back := by
  obtain ⟨resume, hresume, hsplit⟩ := hlog
  -- The item is the envelope of a retained event, or the synthetic reorg in front of them.
  have hevent : ∀ front', deliverable A st.live.store.buildPlan past resume.family resume.startSequence
      st.primary.currentEventSequence = front' ++ item :: back →
      LogAfter st floor past A family (some item.cursor) back := by
    intro front' hdeliverable
    have hfloor := floor_le_startSequence hresume
    obtain ⟨n, hle, hlt, hitem, hback⟩ :=
      flatMap_range'_split (length_envelopesOf_le _ _ _ _) hdeliverable
    have hpos := inv.primary.floor_pos
    obtain ⟨i, rfl⟩ : ∃ i, n = i + 1 := ⟨n - 1, by omega⟩
    obtain ⟨h, hi⟩ := inv.exists_entry (by omega : i < st.primary.currentEventSequence)
    rw [envelopesOf, Nat.add_sub_cancel, hi] at hitem
    simp only at hitem
    split at hitem
    · next hfamily =>
      rw [List.cons.injEq] at hitem
      rw [← hitem.1]
      refine ⟨_, resume_entry inv htimes hroom hresumable hi (by omega) hfamily, ?_⟩
      rw [hback, deliverable]
      simp only [Option.toList_none, nil_append]
      congr 2
      omega
    · cases hitem
  cases hsynthetic : resume.syntheticReorg with
  | none =>
    rw [hsynthetic] at hsplit
    exact hevent front hsplit.symm
  | some reorg =>
    rw [hsynthetic] at hsplit
    cases front with
    | cons _ front =>
      rw [Option.toList_some, singleton_append, cons_append, List.cons.injEq] at hsplit
      exact hevent front hsplit.2.symm
    | nil =>
      rw [Option.toList_some, singleton_append, nil_append, List.cons.injEq] at hsplit
      obtain ⟨rfl, rfl⟩ := hsplit
      cases cursor with
      | none =>
        cases hresume
        cases hsynthetic
      | some cursor =>
        obtain ⟨payload, forkPoint, epoch, _, hne, _, _, hfind, hresume⟩ :=
          walletEventResume_eq_ok.mp hresume
        rcases resumeAtForkPoint_cases hresume with ⟨rfl, _⟩ | ⟨reorg, hreorg, hlt, rfl⟩
        · cases hsynthetic
        · cases hsynthetic
          exact ⟨_, resume_syntheticReorg inv hreorg (find?_some hfind) (by omega), rfl⟩

include htimes hroom in
theorem follows (hindex : KeysAscending WalletAddressTransaction.key index)
    (filter : List TransparentAddressScriptHash) (family : ChainEventStreamFamily)
    (hpos : 0 < maxEvents) :
    Follows ChainEventEnvelope.cursor (chainEventsPage st.primary index filter A family hpos) maxEvents
      (fun envelope => filter = [] ∨ passes index filter envelope)
      (LogAfter st floor past A family) where
  page _ _ hlog := chainEventsPage_eq inv htimes hroom hindex hpos hlog
  next _ _ _ _ hlog _ := LogAfter.next inv htimes hroom hresumable hlog

end

theorem delivers_nil {filter : List TransparentAddressScriptHash} {hpos : 0 < maxEvents}
    {e : CanonicalEventError}
    (h : walletEventResume A st.primary cursor family st.primary.currentEventSequence floor =
      .error e) :
    Delivers ChainEventEnvelope.cursor (chainEventsPage st.primary index filter A family hpos) cursor
      [] := by
  have hpage : chainEventsPage st.primary index filter A family hpos cursor = .error (.canonical e) := by
    rw [chainEventsPage, walletChainEventHistory, inv.primary.floor_eq, ok_bind, h]
    rfl
  have hrun : run ChainEventEnvelope.cursor (chainEventsPage st.primary index filter A family hpos) 1
      (.start cursor) = ⟨cursor, [], [], some (.canonical e)⟩ := by
    rw [run, Function.iterate_one, step]
    simp only [StreamState.start, hpage]
  exact delivers_of_fixed hrun rfl

end Following

/-- In every reachable store whose retained cursors can be resumed, and from every cursor, the filtered
stream delivers exactly those envelopes of the unfiltered one that pass iff fewer than a page of them
are filtered out in a row before each one that passes. -/
theorem filtered_stream_delivers_iff {D : Type} {E : Env D} [DecidableEq D]
    {st₀ st : PrimaryState E}
    (hpublished : PrimaryPublished st₀) {operations : List PrimaryOperation}
    (hrun : PrimaryRun st₀ operations st) (A : CursorAuthority)
    (htimes : TimesFit st.primary)
    (hroom : st.primary.currentEventSequence + 1 < u64Bound)
    (hresumable : Resumable A st.primary) {index : List WalletAddressTransaction}
    (hindex : KeysAscending WalletAddressTransaction.key index)
    {filter : List TransparentAddressScriptHash} (hfilter : filter ≠ [])
    (family : ChainEventStreamFamily) {maxEvents : Nat} (hpos : 0 < maxEvents)
    (cursor : Option StreamCursorTokenV1) :
    ∃ delivered,
      Delivers ChainEventEnvelope.cursor (chainEventsPage st.primary index [] A family hpos) cursor
        delivered ∧
      (Delivers ChainEventEnvelope.cursor (chainEventsPage st.primary index filter A family hpos) cursor
          (delivered.filter (passes index filter)) ↔
        GapsBelow maxEvents (passes index filter) delivered) := by
  obtain ⟨floor, past, ds, inv⟩ := hpublished.run_events hrun
  have htimes' := htimes.past inv.primary.history
  cases hresume : walletEventResume A st.primary cursor family st.primary.currentEventSequence floor with
  | error e =>
    refine ⟨[], delivers_nil inv hresume, iff_of_true (delivers_nil inv hresume) ?_⟩
    intro front gap item back hsplit
    simp at hsplit
  | ok resume =>
    obtain ⟨log, hlog⟩ : ∃ log, LogAfter st floor past A family cursor log :=
      ⟨_, resume, hresume, rfl⟩
    have hall := follows inv htimes' hroom hresumable hindex [] family hpos
    have hfiltered := follows inv htimes' hroom hresumable hindex filter family hpos
    refine ⟨log, ?_, ?_⟩
    · have hdelivers := (hall.delivers_filter_iff hlog).mpr
        (gapsBelow_of_forall hpos fun envelope _ => by simp)
      simpa using hdelivers
    · have hdelivers := hfiltered.delivers_filter_iff hlog
      simpa [hfilter] using hdelivers

/-! ### A sample stream -/

noncomputable def sampleEvents : Option (PrimaryStore Nat × List PrimaryOperation) := do
  let s ← (publishBaseline sampleBaseline).toOption
  PrimaryStore.performAll sampleActivations ⟨s, ⟨none, none, ∅⟩⟩
    [.append (plainBlock sampleEnv (plainFacts 2 2 1 12)) [] ⟨1, repeatedByte 1⟩ 0]

def sampleAddress : TransparentAddressScriptHash := repeatedByte 5

def sampleIndex : List WalletAddressTransaction :=
  [⟨WalletAddressTransactionKey.new sampleAddress 2 0, repeatedByte 12, repeatedByte 2⟩]

theorem sampleEvents_run {P : PrimaryStore Nat → Prop} [DecidablePred P]
    (h : sampleEvents.map (fun r => (decide (P r.1), r.2)) = some (true, [.commit])) :
    ∃ st₀ st : PrimaryState sampleEnv, PrimaryPublished st₀ ∧ PrimaryRun st₀ [.commit] st ∧
      P st.primary := by
  obtain ⟨⟨s', operations⟩, hperformed, heq⟩ := Option.map_eq_some_iff.mp h
  obtain ⟨hp, rfl⟩ := Prod.mk.inj heq
  simp only [sampleEvents, Option.bind_eq_bind, Option.bind_eq_some_iff] at hperformed
  obtain ⟨s, hs, hperformed⟩ := hperformed
  obtain ⟨st₀, st, hpublished, run, rfl⟩ := published_run (toOption_eq_some.mp hs) hperformed
  exact ⟨st₀, st, hpublished, run, of_decide_eq_true hp⟩

def samplePage (s : PrimaryStore Nat) (filter : List TransparentAddressScriptHash) {maxEvents : Nat}
    (hpos : 0 < maxEvents) :
    Option StreamCursorTokenV1 → Except QueryError (List ChainEventEnvelope) :=
  chainEventsPage s sampleIndex filter sampleAuthority .visible hpos

theorem filtered_stream_delivers_iff_sample : ∃ st₀ st : PrimaryState sampleEnv,
    PrimaryPublished st₀ ∧ PrimaryRun st₀ [.commit] st ∧ ∃ delivered,
      Delivers ChainEventEnvelope.cursor (samplePage st.primary [] Nat.two_pos) none delivered ∧
      (Delivers ChainEventEnvelope.cursor (samplePage st.primary [sampleAddress] Nat.two_pos) none
          (delivered.filter (passes sampleIndex [sampleAddress])) ↔
        GapsBelow 2 (passes sampleIndex [sampleAddress]) delivered) := by
  obtain ⟨st₀, st, hpublished, run, htimes, hroom, hresumable⟩ :=
    sampleEvents_run (P := fun s => TimesFit s ∧ s.currentEventSequence + 1 < u64Bound ∧
      Resumable sampleAuthority s) (by decide +kernel)
  exact ⟨st₀, st, hpublished, run, filtered_stream_delivers_iff hpublished run sampleAuthority htimes
    hroom hresumable (by simp [KeysAscending, sampleIndex]) (cons_ne_nil _ _) .visible Nat.two_pos
    none⟩

/-- With pages of one event: the second event passes, and the filtered page before it is empty. -/
def sampleStuck (s : PrimaryStore Nat) : Bool :=
  match samplePage s [] Nat.one_pos none with
  | .ok [first] =>
    match samplePage s [] Nat.one_pos (some first.cursor) with
    | .ok [second] =>
      samplePage s [] Nat.one_pos (some second.cursor) = .ok [] ∧
        samplePage s [sampleAddress] Nat.one_pos none = .ok [] ∧
        passes sampleIndex [sampleAddress] second
    | _ => false
  | _ => false

/-- The filtered stream waits forever behind an event that does not pass, and the event after it is
never delivered. -/
theorem filtered_stream_stuck : ∃ st₀ st : PrimaryState sampleEnv,
    PrimaryPublished st₀ ∧ PrimaryRun st₀ [.commit] st ∧ TimesFit st.primary ∧
      Resumable sampleAuthority st.primary ∧ ∃ delivered,
      Delivers ChainEventEnvelope.cursor (samplePage st.primary [] Nat.one_pos) none delivered ∧
      ¬ Delivers ChainEventEnvelope.cursor (samplePage st.primary [sampleAddress] Nat.one_pos) none
        (delivered.filter (passes sampleIndex [sampleAddress])) := by
  obtain ⟨st₀, st, hpublished, hrun, htimes, hresumable, hstuck⟩ :=
    sampleEvents_run (P := fun s => TimesFit s ∧ Resumable sampleAuthority s ∧ sampleStuck s = true)
      (by decide +kernel)
  refine ⟨st₀, st, hpublished, hrun, htimes, hresumable, ?_⟩
  unfold sampleStuck at hstuck
  split at hstuck
  · next first hfirst =>
    split at hstuck
    · next second hsecond =>
      obtain ⟨hend, hfiltered, hpasses⟩ := of_decide_eq_true hstuck
      refine ⟨[first, second], ?_, ?_⟩
      · have hall : run ChainEventEnvelope.cursor (samplePage st.primary [] Nat.one_pos) 4
            (.start none) = ⟨some second.cursor, [], [first, second], none⟩ := by
          simp [run, step, StreamState.start, hfirst, hsecond]
        have hfixed : step ChainEventEnvelope.cursor (samplePage st.primary [] Nat.one_pos)
            ⟨some second.cursor, [], [first, second], none⟩ =
              ⟨some second.cursor, [], [first, second], none⟩ := by
          simp [step, hend]
        exact delivers_of_fixed hall hfixed
      · rintro ⟨turns, hturns⟩
        have hfixed : step ChainEventEnvelope.cursor
            (samplePage st.primary [sampleAddress] Nat.one_pos) (.start none) = .start none := by
          simp [step, StreamState.start, hfiltered]
        have hnone := hturns turns (Nat.le_refl _)
        rw [run_of_fixed hfixed] at hnone
        have hmem : second ∈ [first, second].filter (passes sampleIndex [sampleAddress]) := by
          simp [hpasses]
        rw [← hnone] at hmem
        cases hmem
    · cases hstuck
  · cases hstuck

end Zinder.ChainEvents
