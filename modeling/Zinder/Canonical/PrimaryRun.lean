import Zinder.Canonical.History
import Zinder.Canonical.Lifecycle

/-!
# Zinder.Canonical.PrimaryRun

Runs of a primary store: live commits, lease operations and event pruning in any order, under any
clock readings.

Each operation has one inversion lemma that says what it requires and what it leaves
(`acquire_eq_ok`, `renew_eq_ok`, `release_eq_ok`, `prune_eq_ok`). `PrimaryInvariant` is what every
reachable state satisfies: the history of `Zinder.Canonical.History` from the retention floor on,
and every stored lease anchored in it. The clock plays no part in it: pruning removes the leases it
finds expired in the same batch that raises the floor past their anchors.

`perform` carries out a request as a caller of the store would; `performAll_run` says that a
sequence of performed requests is a run.
-/

namespace Zinder.Canonical

open KeyValue List

/-! ## The lease scan -/

section Scan

variable {D : Type}

variable {id : ProjectionBuildLeaseId} {rows : LifecycleRows} {now : Nat}

theorem LifecycleRows.mem_scan {row : ProjectionBuildLeaseId × ProjectionBuildLeaseValue} :
    row ∈ rows.scan ↔ rows.leases.lookup row.1 = some row.2 := by
  simp only [LifecycleRows.scan, mem_filterMap, Finset.mem_sort, Option.map_eq_some_iff]
  constructor
  · rintro ⟨id, _, value, hvalue, rfl⟩
    exact hvalue
  · intro h
    exact ⟨row.1, Finmap.mem_keys.mpr (Finmap.mem_of_lookup_eq_some h), row.2, h, rfl⟩

def LifecycleRows.live (rows : LifecycleRows) (now : Nat) : List ProjectionBuildLease :=
  (rows.scan.filter fun row => now < row.2.expiresAt).map fun row => row.2.lease row.1

def LifecycleRows.expired (rows : LifecycleRows) (now : Nat) : List ProjectionBuildLeaseId :=
  (rows.scan.filter fun row => row.2.expiresAt ≤ now).map Prod.fst

theorem LifecycleRows.mem_live {l : ProjectionBuildLease} :
    l ∈ rows.live now ↔ rows.leases.lookup l.id = some l.value ∧ now < l.expiresAt := by
  simp only [LifecycleRows.live, mem_map, mem_filter, decide_eq_true_eq, mem_scan]
  constructor
  · rintro ⟨row, ⟨hrow, hlt⟩, rfl⟩
    exact ⟨hrow, hlt⟩
  · rintro ⟨hrow, hlt⟩
    exact ⟨(l.id, l.value), ⟨hrow, hlt⟩, rfl⟩

theorem LifecycleRows.mem_expired :
    id ∈ rows.expired now ↔ ∃ v, rows.leases.lookup id = some v ∧ v.expiresAt ≤ now := by
  simp only [LifecycleRows.expired, mem_map, mem_filter, decide_eq_true_eq, mem_scan]
  constructor
  · rintro ⟨row, ⟨hrow, hle⟩, rfl⟩
    exact ⟨row.2, hrow, hle⟩
  · rintro ⟨v, hv, hle⟩
    exact ⟨(id, v), ⟨hv, hle⟩, rfl⟩

def LifecycleRows.unexpired (rows : LifecycleRows) (now : Nat) :
    Finmap fun _ : ProjectionBuildLeaseId => ProjectionBuildLeaseValue :=
  (rows.expired now).foldl (fun leases id => leases.erase id) rows.leases

theorem lookup_foldl_erase {ids : List ProjectionBuildLeaseId}
    (leases : Finmap fun _ : ProjectionBuildLeaseId => ProjectionBuildLeaseValue) :
    (ids.foldl (fun leases id => leases.erase id) leases).lookup id =
      if id ∈ ids then none else leases.lookup id := by
  induction ids generalizing leases with
  | nil => rfl
  | cons id' ids ih =>
    rw [foldl_cons, ih]
    by_cases hid : id = id'
    · subst hid
      simp
    · simp [hid]

theorem LifecycleRows.lookup_unexpired {v : ProjectionBuildLeaseValue} :
    (rows.unexpired now).lookup id = some v ↔
      rows.leases.lookup id = some v ∧ now < v.expiresAt := by
  rw [LifecycleRows.unexpired, lookup_foldl_erase]
  split
  · rename_i hid
    obtain ⟨w, hw, hle⟩ := mem_expired.mp hid
    simp only [reduceCtorEq, false_iff, not_and, hw, Option.some.injEq]
    rintro rfl
    omega
  · rename_i hid
    refine ⟨fun hv => ⟨hv, ?_⟩, fun hv => hv.1⟩
    by_contra hle
    exact hid (mem_expired.mpr ⟨v, hv, by omega⟩)

/-! ## What a check establishes -/

theorem validateLiveLeaseExpiry_eq_ok {lease : ProjectionBuildLease} {u : Unit} :
    validateLiveLeaseExpiry lease now = .ok u ↔
      now < lease.expiresAt ∧ lease.expiresAt - now ≤ maxProjectionBuildLeaseDurationMillis := by
  simp only [validateLiveLeaseExpiry, bind_eq_ok, rejectIf_eq_ok, not_le, not_lt]
  exact ⟨fun ⟨_, h, h'⟩ => ⟨h, h'⟩, fun ⟨h, h'⟩ => ⟨(), h, h'⟩⟩

theorem readRetainedEvent_epoch {db : Db D} {sequence : Nat} {event : CanonicalRetainedEvent D}
    (h : readRetainedEvent db sequence = .ok event) : event.resultingEpochId = sequence := by
  simp only [readRetainedEvent, bind_eq_ok, rejectIf_eq_ok, not_or, not_not] at h
  obtain ⟨record, _, _, _, _, _, _, ⟨hepoch, _⟩, h⟩ := h
  cases h
  exact hepoch

theorem validateProjectionBuildAnchor_anchored {db : Db D} {current floor : Nat}
    {anchor : ProjectionBuildAnchor} {u : Unit}
    (h : validateProjectionBuildAnchor db current floor anchor = .ok u) :
    floor ≤ anchor.eventSequence ∧ anchor.eventSequence ≤ current ∧
      anchor.chainEpochId = anchor.eventSequence := by
  simp only [validateProjectionBuildAnchor, bind_eq_ok, rejectIf_eq_ok, not_or, not_lt,
    not_not] at h
  obtain ⟨_, ⟨hfloor, hcurrent⟩, event, hevent, hepoch⟩ := h
  exact ⟨hfloor, hcurrent, hepoch.symm.trans (readRetainedEvent_epoch hevent)⟩

theorem liveProjectionBuildLeaseState_eq_ok {s : PrimaryStore D}
    {found : List ProjectionBuildLease × List ProjectionBuildLeaseId}
    (h : s.liveProjectionBuildLeaseState now = .ok found) :
    found = (s.lifecycle.live now, s.lifecycle.expired now) := by
  refine loop_invariant
    (fun done found => found =
      ((done.filter fun row => now < row.2.expiresAt).map fun row => row.2.lease row.1,
        (done.filter fun row => row.2.expiresAt ≤ now).map Prod.fst))
    (fun done row found found' hfound hstep => ?_) rfl h
  subst hfound
  simp only [scanLease, decodeProjectionBuildLease, bind_eq_ok] at hstep
  obtain ⟨lease, ⟨_, _, _, _, hlease⟩, hstep⟩ := hstep
  cases hlease
  split at hstep
  · rename_i hle
    cases hstep
    have hnot : ¬ now < row.2.expiresAt := not_lt.mpr hle
    have hle' : row.2.expiresAt ≤ now := hle
    simp [hle', ProjectionBuildLeaseValue.lease]
  · rename_i hlt
    simp only [bind_eq_ok] at hstep
    obtain ⟨_, _, _, _, _, _, hstep⟩ := hstep
    cases hstep
    have hnot : ¬ row.2.expiresAt ≤ now := hlt
    have hlt' : now < row.2.expiresAt := not_le.mp hnot
    simp [hlt']

end Scan

/-! ## What an operation does -/

section Operations

variable {D : Type} {s s' : PrimaryStore D}

def LifecycleRows.acquired (rows : LifecycleRows) (now : Nat) (granted : ProjectionBuildLease) :
    LifecycleRows :=
  { rows with
    leaseGeneration := some granted.generation
    leases := (rows.unexpired now).insert granted.id granted.value }

structure AcquireSpec (s : PrimaryStore D) (lease : ProjectionBuildLease) (now floor : Nat) :
    Prop where
  live : now < lease.expiresAt
  duration : lease.expiresAt - now ≤ maxProjectionBuildLeaseDurationMillis
  free : ∀ v, s.lifecycle.leases.lookup lease.id = some v → v.expiresAt ≤ now
  capacity : (s.lifecycle.live now).length < maxLiveProjectionBuildLeases
  floor_eq : s.retentionFloor = .ok floor
  floor_le : floor ≤ lease.anchor.eventSequence
  le_current : lease.anchor.eventSequence ≤ s.currentEventSequence
  epoch : lease.anchor.chainEpochId = lease.anchor.eventSequence
  generation_ne : s.lifecycle.leaseGeneration ≠ some 0
  generation_lt : s.lifecycle.leaseGeneration.getD 0 + 1 < u64Bound

variable {rows : LifecycleRows}

theorem readProjectionBuildLease_eq_ok {id : ProjectionBuildLeaseId}
    {found : Option ProjectionBuildLease} (h : readProjectionBuildLease rows id = .ok found) :
    found = (rows.leases.lookup id).map fun v => v.lease id := by
  unfold readProjectionBuildLease at h
  split at h
  · rename_i hnone
    cases h
    rw [hnone]
    rfl
  · rename_i v hv
    simp only [decodeProjectionBuildLease, bind_eq_ok] at h
    obtain ⟨_, ⟨_, _, _, _, hlease⟩, h⟩ := h
    cases hlease
    cases h
    rw [hv]
    rfl

theorem acquire_eq_ok {lease granted : ProjectionBuildLease} {now : Nat}
    (h : s.acquireProjectionBuildLease lease now = .ok (s', granted)) :
    ∃ floor, AcquireSpec s lease now floor ∧
      granted = { lease with generation := s.lifecycle.leaseGeneration.getD 0 + 1 } ∧
      s' = ⟨s.canonical, s.lifecycle.acquired now granted⟩ := by
  simp only [PrimaryStore.acquireProjectionBuildLease, bind_eq_ok, rejectIf_eq_ok, not_le,
    nextProjectionBuildLeaseGeneration, okOr_eq_ok, checkedAdd_eq_some] at h
  obtain ⟨_, hexpiry, ⟨live, expired⟩, hscan, existing, hread, _, hfree, _, hcapacity, floor, hfloor,
    _, hanchor, generation, ⟨_, hne, hlt, rfl⟩, h⟩ := h
  obtain ⟨hnow, hduration⟩ := validateLiveLeaseExpiry_eq_ok.mp hexpiry
  obtain ⟨hle, hcurrent, hepoch⟩ := validateProjectionBuildAnchor_anchored hanchor
  cases liveProjectionBuildLeaseState_eq_ok hscan
  cases readProjectionBuildLease_eq_ok hread
  cases h
  refine ⟨floor, ⟨hnow, hduration, fun v hv => ?_, hcapacity, hfloor, hle, hcurrent, hepoch, hne,
    hlt⟩, rfl, rfl⟩
  by_contra hheld
  refine hfree ⟨v.lease lease.id, ?_, not_le.mp hheld⟩
  rw [hv]
  rfl

theorem renew_eq_ok {lease : ProjectionBuildLease} {now : Nat}
    (h : s.renewProjectionBuildLease lease now = .ok s') :
    ∃ v, s.lifecycle.leases.lookup lease.id = some v ∧ now < v.expiresAt ∧
      v.anchor = lease.anchor ∧ v.generation = lease.generation ∧ now < lease.expiresAt ∧
      lease.expiresAt - now ≤ maxProjectionBuildLeaseDurationMillis ∧
      s' = ⟨s.canonical,
        { s.lifecycle with leases := s.lifecycle.leases.insert lease.id lease.value }⟩ := by
  simp only [PrimaryStore.renewProjectionBuildLease, bind_eq_ok, rejectIf_eq_ok, okOr_eq_ok,
    not_le, not_not] at h
  obtain ⟨_, hexpiry, found, hread, existing, rfl, _, hlive, _, hanchor, _, hgeneration, _, _, _, _,
    h⟩ := h
  obtain ⟨hnow, hduration⟩ := validateLiveLeaseExpiry_eq_ok.mp hexpiry
  obtain ⟨v, hv, rfl⟩ := Option.map_eq_some_iff.mp (readProjectionBuildLease_eq_ok hread).symm
  cases h
  exact ⟨v, hv, hlive, hanchor, hgeneration, hnow, hduration, rfl⟩

theorem release_eq_ok {lease : ProjectionBuildLease}
    (h : s.releaseProjectionBuildLease lease = .ok s') :
    s.lifecycle.leases.lookup lease.id = none ∧ s' = s ∨
      (∃ v, s.lifecycle.leases.lookup lease.id = some v ∧ v.generation = lease.generation) ∧
        s' = ⟨s.canonical,
          { s.lifecycle with leases := s.lifecycle.leases.erase lease.id }⟩ := by
  simp only [PrimaryStore.releaseProjectionBuildLease, bind_eq_ok] at h
  obtain ⟨found, hread, h⟩ := h
  have hfound := readProjectionBuildLease_eq_ok hread
  split at h
  · cases h
    exact .inl ⟨Option.map_eq_none_iff.mp hfound.symm, rfl⟩
  · simp only [bind_eq_ok, rejectIf_eq_ok, not_not] at h
    obtain ⟨_, hgeneration, h⟩ := h
    obtain ⟨v, hv, rfl⟩ := Option.map_eq_some_iff.mp hfound.symm
    cases h
    exact .inr ⟨⟨v, hv, hgeneration⟩, rfl⟩

theorem earliestAnchor_le {leases : List ProjectionBuildLease} {l : ProjectionBuildLease}
    (hl : l ∈ leases) :
    ∃ anchor, earliestAnchor leases = some anchor ∧
      anchor.eventSequence ≤ l.anchor.eventSequence := by
  induction leases with
  | nil => simp at hl
  | cons l' leases ih =>
    unfold earliestAnchor
    cases hrest : earliestAnchor leases with
    | none =>
      rcases mem_cons.mp hl with rfl | hl
      · exact ⟨_, rfl, le_rfl⟩
      · obtain ⟨anchor, hanchor, _⟩ := ih hl
        rw [hrest] at hanchor
        cases hanchor
    | some anchor =>
      simp only
      rcases mem_cons.mp hl with rfl | hl
      · split
        · exact ⟨_, rfl, by omega⟩
        · exact ⟨_, rfl, le_rfl⟩
      · obtain ⟨anchor', hanchor, hle⟩ := ih hl
        rw [hrest] at hanchor
        cases hanchor
        split
        · exact ⟨_, rfl, hle⟩
        · exact ⟨_, rfl, by omega⟩

theorem earliestAnchor_mem {leases : List ProjectionBuildLease} {anchor : ProjectionBuildAnchor}
    (h : earliestAnchor leases = some anchor) : ∃ l ∈ leases, l.anchor = anchor := by
  induction leases generalizing anchor with
  | nil => simp [earliestAnchor] at h
  | cons l leases ih =>
    unfold earliestAnchor at h
    split at h
    · exact ⟨l, mem_cons_self, Option.some.inj h⟩
    · rename_i hrest
      split at h
      · obtain ⟨l', hl', hanchor⟩ := ih hrest
        exact ⟨l', mem_cons_of_mem _ hl', hanchor.trans (Option.some.inj h)⟩
      · exact ⟨l, mem_cons_self, Option.some.inj h⟩

def retainedFloor (rows : LifecycleRows) (requested now : Nat) : Nat :=
  match earliestAnchor (rows.live now) with
  | none => requested
  | some anchor => min requested anchor.eventSequence

theorem retainedFloor_le (rows : LifecycleRows) (requested now : Nat) :
    retainedFloor rows requested now ≤ requested := by
  unfold retainedFloor
  split <;> omega

theorem retainedFloor_le_anchor {requested now : Nat} {l : ProjectionBuildLease}
    (hl : l ∈ rows.live now) :
    retainedFloor rows requested now ≤ l.anchor.eventSequence := by
  obtain ⟨anchor, hanchor, hle⟩ := earliestAnchor_le hl
  simp only [retainedFloor, hanchor]
  omega

theorem le_retainedFloor {floor requested now : Nat} (hrequested : floor ≤ requested)
    (hlive : ∀ l ∈ rows.live now, floor ≤ l.anchor.eventSequence) :
    floor ≤ retainedFloor rows requested now := by
  unfold retainedFloor
  split
  · exact hrequested
  · rename_i hanchor
    obtain ⟨l, hl, rfl⟩ := earliestAnchor_mem hanchor
    exact le_min hrequested (hlive l hl)

def PrimaryStore.prunedTo (s : PrimaryStore D) (oldest floor now : Nat) : PrimaryStore D where
  canonical :=
    { s.canonical with
      db := write (((List.range' oldest (floor - oldest)).filter (· ≠ 1)).map fun sequence =>
        Op.delete (Key.chainEvent sequence)) s.canonical.db }
  lifecycle :=
    { s.lifecycle with
      retentionFloor := if floor = oldest then s.lifecycle.retentionFloor else some floor
      leases := s.lifecycle.unexpired now }

theorem prune_eq_ok {requested now : Nat} {report : CanonicalEventRetentionReport}
    (h : s.pruneCanonicalEventsBefore requested now = .ok (s', report)) :
    ∃ oldest, s.retentionFloor = .ok oldest ∧ oldest ≤ requested ∧
      requested ≤ s.currentEventSequence ∧
      s' = s.prunedTo oldest (retainedFloor s.lifecycle requested now) now := by
  simp only [PrimaryStore.pruneCanonicalEventsBefore, bind_eq_ok, rejectIf_eq_ok, not_or,
    not_lt] at h
  obtain ⟨oldest, holdest, _, ⟨hle, hcurrent⟩, ⟨live, expired⟩, hscan, h⟩ := h
  cases liveProjectionBuildLeaseState_eq_ok hscan
  cases h
  exact ⟨oldest, holdest, hle, hcurrent, rfl⟩

theorem pruneBefore_eq_ok {cutoff now : Nat} {report : CanonicalEventRetentionReport}
    (h : s.pruneCanonicalEventsBeforeCreatedAt cutoff now = .ok (s', report)) :
    ∃ requested, s.pruneCanonicalEventsBefore requested now = .ok (s', report) := by
  simp only [PrimaryStore.pruneCanonicalEventsBeforeCreatedAt, bind_eq_ok] at h
  obtain ⟨_, _, requested, _, h⟩ := h
  exact ⟨requested, h⟩

end Operations

/-! ## Runs -/

section Runs

variable {D : Type} {E : Env D}

structure PrimaryState (E : Env D) where
  live : LiveState E
  lifecycle : LifecycleRows

def PrimaryState.primary (st : PrimaryState E) : PrimaryStore D := ⟨st.live.store, st.lifecycle⟩

def PrimaryState.withPrimary (st : PrimaryState E) (s : PrimaryStore D) : PrimaryState E :=
  ⟨{ st.live with store := s.canonical }, s.lifecycle⟩

/-- A successful operation, with the clock reading it was given. -/
inductive PrimaryOperation where
  | commit
  | acquire (granted : ProjectionBuildLease) (now : Nat)
  | renew (lease : ProjectionBuildLease) (now : Nat)
  | release (lease : ProjectionBuildLease)
  | prune (now : Nat)
deriving DecidableEq

def PrimaryOperation.reading : PrimaryOperation → Option Nat
  | .acquire _ now | .renew _ now | .prune now => some now
  | .commit | .release _ => none

def PrimaryOperation.granted : PrimaryOperation → Option ProjectionBuildLease
  | .acquire lease _ => some lease
  | _ => none

def PrimaryOperation.written : PrimaryOperation → Option ProjectionBuildLease
  | .acquire lease _ | .renew lease _ => some lease
  | _ => none

/-- The operation renews or releases the lease under its own generation. -/
def PrimaryOperation.Ends (l : ProjectionBuildLease) : PrimaryOperation → Prop
  | .renew lease _ | .release lease => lease.id = l.id ∧ lease.generation = l.generation
  | _ => False

inductive PrimaryStep [DecidableEq D] :
    PrimaryState E → PrimaryOperation → PrimaryState E → Prop where
  | commit {st : PrimaryState E} {live : LiveState E} (h : LiveStep st.live live) :
      PrimaryStep st .commit ⟨live, st.lifecycle⟩
  | acquire {st : PrimaryState E} {s' : PrimaryStore D} {lease granted : ProjectionBuildLease}
      {now : Nat} (h : st.primary.acquireProjectionBuildLease lease now = .ok (s', granted)) :
      PrimaryStep st (.acquire granted now) (st.withPrimary s')
  | renew {st : PrimaryState E} {s' : PrimaryStore D} {lease : ProjectionBuildLease} {now : Nat}
      (h : st.primary.renewProjectionBuildLease lease now = .ok s') :
      PrimaryStep st (.renew lease now) (st.withPrimary s')
  | release {st : PrimaryState E} {s' : PrimaryStore D} {lease : ProjectionBuildLease}
      (h : st.primary.releaseProjectionBuildLease lease = .ok s') :
      PrimaryStep st (.release lease) (st.withPrimary s')
  | prune {st : PrimaryState E} {s' : PrimaryStore D} {requested now : Nat}
      {report : CanonicalEventRetentionReport}
      (h : st.primary.pruneCanonicalEventsBefore requested now = .ok (s', report)) :
      PrimaryStep st (.prune now) (st.withPrimary s')
  | pruneBefore {st : PrimaryState E} {s' : PrimaryStore D} {cutoff now : Nat}
      {report : CanonicalEventRetentionReport}
      (h : st.primary.pruneCanonicalEventsBeforeCreatedAt cutoff now = .ok (s', report)) :
      PrimaryStep st (.prune now) (st.withPrimary s')

inductive PrimaryRun [DecidableEq D] :
    PrimaryState E → List PrimaryOperation → PrimaryState E → Prop where
  | nil (st : PrimaryState E) : PrimaryRun st [] st
  | snoc {st st' st'' : PrimaryState E} {operations : List PrimaryOperation}
      {operation : PrimaryOperation} (run : PrimaryRun st operations st')
      (step : PrimaryStep st' operation st'') : PrimaryRun st (operations ++ [operation]) st''

inductive PrimaryPublished [DecidableEq D] : PrimaryState E → Prop where
  | intro {st : LiveState E} (h : Published st) : PrimaryPublished ⟨st, ⟨none, none, ∅⟩⟩

/-! ## The invariant -/

def LifecycleRows.counter (rows : LifecycleRows) : Nat := rows.leaseGeneration.getD 0

/-- A stored lease: anchored between the floor and the current event, with a granted generation. -/
structure LeaseAnchored (floor current counter : Nat) (v : ProjectionBuildLeaseValue) : Prop where
  floor_le : floor ≤ v.anchor.eventSequence
  le_current : v.anchor.eventSequence ≤ current
  epoch : v.anchor.chainEpochId = v.anchor.eventSequence
  generation_pos : 0 < v.generation
  generation_le : v.generation ≤ counter

structure PrimaryInvariant (st : PrimaryState E) (floor : Nat) (past : List (HistoryEntry E)) :
    Prop where
  history : HistoryInvariant st.live floor past
  floor_eq : st.primary.retentionFloor = .ok floor
  floor_pos : 0 < floor
  floor_le : floor ≤ st.primary.currentEventSequence
  leases : ∀ id v, st.lifecycle.leases.lookup id = some v →
    LeaseAnchored floor st.primary.currentEventSequence st.lifecycle.counter v
  generation_ne : st.lifecycle.leaseGeneration ≠ some 0

theorem canonicalEventRetentionFloor_eq_ok {rows : LifecycleRows} {current floor : Nat} :
    canonicalEventRetentionFloor rows current = .ok floor ↔
      rows.retentionFloor = none ∧ floor = 1 ∨
        rows.retentionFloor = some floor ∧ 0 < floor ∧ floor ≤ current := by
  unfold canonicalEventRetentionFloor
  split
  · rename_i hnone
    simp [hnone, eq_comm]
  · rename_i f hf
    simp only [bind_eq_ok, rejectIf_eq_ok, not_or, not_lt, hf, reduceCtorEq, false_and, false_or,
      Option.some.injEq, Except.ok.injEq]
    constructor
    · rintro ⟨_, ⟨hne, hle⟩, rfl⟩
      exact ⟨rfl, Nat.pos_of_ne_zero hne, hle⟩
    · rintro ⟨rfl, hpos, hle⟩
      exact ⟨(), ⟨hpos.ne', hle⟩, rfl⟩

namespace PrimaryInvariant

variable {st st' : PrimaryState E} {floor : Nat} {past : List (HistoryEntry E)}

variable {s' : PrimaryStore D} {now : Nat}

section

variable (inv : PrimaryInvariant st floor past)
include inv

theorem live_anchored {l : ProjectionBuildLease} (hl : l ∈ st.lifecycle.live now) :
    floor ≤ l.anchor.eventSequence :=
  (inv.leases l.id l.value (LifecycleRows.mem_live.mp hl).1).floor_le

theorem extend {live : LiveState E} {next : HistoryEntry E}
    (history : HistoryInvariant live floor (past ++ [next])) :
    PrimaryInvariant ⟨live, st.lifecycle⟩ floor (past ++ [next]) := by
  have hgrows : st.primary.currentEventSequence ≤ live.store.readyEvidence.visibleEventSequence := by
    have hlength := inv.history.length
    have hlength' := history.length
    rw [length_append] at hlength'
    simp only [PrimaryStore.currentEventSequence, PrimaryState.primary]
    omega
  refine ⟨history, ?_, inv.floor_pos, inv.floor_le.trans hgrows, fun id v hv => ?_,
    inv.generation_ne⟩
  · refine canonicalEventRetentionFloor_eq_ok.mpr ?_
    rcases canonicalEventRetentionFloor_eq_ok.mp inv.floor_eq with hnone | ⟨hsome, hpos, hle⟩
    · exact .inl hnone
    · exact .inr ⟨hsome, hpos, hle.trans hgrows⟩
  · have := inv.leases id v hv
    exact { this with le_current := this.le_current.trans hgrows }

theorem commit [DecidableEq D] {live : LiveState E} (h : LiveStep st.live live) :
    ∃ next, PrimaryInvariant ⟨live, st.lifecycle⟩ floor (past ++ [next]) := by
  obtain ⟨next, history⟩ := h.history inv.history
  exact ⟨next, inv.extend history⟩

theorem acquire {lease granted : ProjectionBuildLease}
    (h : st.primary.acquireProjectionBuildLease lease now = .ok (s', granted)) :
    PrimaryInvariant (st.withPrimary s') floor past ∧
      granted.generation = st.lifecycle.counter + 1 := by
  obtain ⟨floor', spec, rfl, rfl⟩ := acquire_eq_ok h
  cases inv.floor_eq.symm.trans spec.floor_eq
  refine ⟨⟨inv.history, inv.floor_eq, inv.floor_pos, inv.floor_le, fun id v hv => ?_, ?_⟩, rfl⟩
  · by_cases hid : id = lease.id
    · subst hid
      rw [PrimaryState.withPrimary, LifecycleRows.acquired, Finmap.lookup_insert] at hv
      cases hv
      exact ⟨spec.floor_le, spec.le_current, spec.epoch, Nat.succ_pos _, le_rfl⟩
    · rw [PrimaryState.withPrimary, LifecycleRows.acquired, Finmap.lookup_insert_of_ne _ hid,
        LifecycleRows.lookup_unexpired] at hv
      have := inv.leases id v hv.1
      exact { this with generation_le := this.generation_le.trans (Nat.le_succ _) }
  · simp [PrimaryState.withPrimary, LifecycleRows.acquired]

theorem renew {lease : ProjectionBuildLease}
    (h : st.primary.renewProjectionBuildLease lease now = .ok s') :
    PrimaryInvariant (st.withPrimary s') floor past := by
  obtain ⟨v, hv, _, hanchor, hgeneration, _, _, rfl⟩ := renew_eq_ok h
  refine ⟨inv.history, inv.floor_eq, inv.floor_pos, inv.floor_le, fun id w hw => ?_,
    inv.generation_ne⟩
  by_cases hid : id = lease.id
  · subst hid
    rw [PrimaryState.withPrimary, Finmap.lookup_insert] at hw
    cases hw
    have := inv.leases lease.id v hv
    rw [ProjectionBuildLease.value, ← hanchor, ← hgeneration]
    exact ⟨this.floor_le, this.le_current, this.epoch, this.generation_pos, this.generation_le⟩
  · rw [PrimaryState.withPrimary, Finmap.lookup_insert_of_ne _ hid] at hw
    exact inv.leases id w hw

theorem release {lease : ProjectionBuildLease}
    (h : st.primary.releaseProjectionBuildLease lease = .ok s') :
    PrimaryInvariant (st.withPrimary s') floor past := by
  rcases release_eq_ok h with ⟨_, rfl⟩ | ⟨_, rfl⟩
  · exact inv
  · refine ⟨inv.history, inv.floor_eq, inv.floor_pos, inv.floor_le, fun id w hw => ?_,
      inv.generation_ne⟩
    refine inv.leases id w ?_
    by_cases hid : id = lease.id
    · subst hid
      rw [PrimaryState.withPrimary, Finmap.lookup_erase] at hw
      cases hw
    · rw [PrimaryState.withPrimary, Finmap.lookup_erase_ne hid] at hw
      exact hw

theorem prune {requested now : Nat} {report : CanonicalEventRetentionReport}
    (h : st.primary.pruneCanonicalEventsBefore requested now = .ok (s', report)) :
    ∃ floor', floor ≤ floor' ∧ PrimaryInvariant (st.withPrimary s') floor' past := by
  obtain ⟨oldest, holdest, hle, hcurrent, rfl⟩ := prune_eq_ok h
  cases inv.floor_eq.symm.trans holdest
  have hfloor : floor ≤ retainedFloor st.lifecycle requested now :=
    le_retainedFloor hle fun l hl => inv.live_anchored hl
  have hle' : retainedFloor st.lifecycle requested now ≤ st.primary.currentEventSequence :=
    (retainedFloor_le _ _ _).trans hcurrent
  refine ⟨_, hfloor, ?_, ?_, inv.floor_pos.trans_le hfloor, hle', fun id v hv => ?_,
    inv.generation_ne⟩
  · refine inv.history.pruned hfloor fun i hi => ?_
    simp only [mem_filter, mem_range'_1, decide_eq_true_eq, PrimaryState.primary] at hi
    exact ⟨hi.2, by omega⟩
  · refine canonicalEventRetentionFloor_eq_ok.mpr ?_
    simp only [PrimaryState.primary, PrimaryStore.prunedTo]
    by_cases heq : retainedFloor st.lifecycle requested now = floor
    · simp only [heq]
      exact canonicalEventRetentionFloor_eq_ok.mp inv.floor_eq
    · exact .inr ⟨if_neg heq, inv.floor_pos.trans_le hfloor, hle'⟩
  · obtain ⟨hv, hlive⟩ := LifecycleRows.lookup_unexpired.mp hv
    have := inv.leases id v hv
    have hmem : v.lease id ∈ st.lifecycle.live now := LifecycleRows.mem_live.mpr ⟨hv, hlive⟩
    exact { this with floor_le := retainedFloor_le_anchor hmem }

theorem step [DecidableEq D] {operation : PrimaryOperation} (h : PrimaryStep st operation st') :
    ∃ floor' past', floor ≤ floor' ∧ past <+: past' ∧ PrimaryInvariant st' floor' past' := by
  cases h with
  | commit h =>
    obtain ⟨next, inv'⟩ := inv.commit h
    exact ⟨floor, _, le_rfl, prefix_append _ _, inv'⟩
  | acquire h => exact ⟨floor, past, le_rfl, prefix_rfl, (inv.acquire h).1⟩
  | renew h => exact ⟨floor, past, le_rfl, prefix_rfl, inv.renew h⟩
  | release h => exact ⟨floor, past, le_rfl, prefix_rfl, inv.release h⟩
  | prune h =>
    obtain ⟨floor', hle, inv'⟩ := inv.prune h
    exact ⟨floor', past, hle, prefix_rfl, inv'⟩
  | pruneBefore h =>
    obtain ⟨requested, h⟩ := pruneBefore_eq_ok h
    obtain ⟨floor', hle, inv'⟩ := inv.prune h
    exact ⟨floor', past, hle, prefix_rfl, inv'⟩

theorem run [DecidableEq D] {operations : List PrimaryOperation}
    (h : PrimaryRun st operations st') :
    ∃ floor' past', floor ≤ floor' ∧ past <+: past' ∧ PrimaryInvariant st' floor' past' := by
  induction h with
  | nil => exact ⟨floor, past, le_rfl, prefix_rfl, inv⟩
  | snoc _ hstep ih =>
    obtain ⟨floor₁, past₁, hfloor₁, hpast₁, inv₁⟩ := ih
    obtain ⟨floor₂, past₂, hfloor₂, hpast₂, inv₂⟩ := inv₁.step hstep
    exact ⟨floor₂, past₂, hfloor₁.trans hfloor₂, hpast₁.trans hpast₂, inv₂⟩

end

end PrimaryInvariant

variable {s' : PrimaryStore D} {operations : List PrimaryOperation} {st : PrimaryState E}
  {activations : NetworkUpgradeActivations}

theorem PrimaryPublished.invariant [DecidableEq D] (h : PrimaryPublished st) :
    ∃ entry, PrimaryInvariant st 1 [entry] := by
  obtain ⟨h⟩ := h
  obtain ⟨entry, history⟩ := h.history
  have hpos : 0 < [entry].length := Nat.one_pos
  rw [history.length] at hpos
  exact ⟨entry, history, rfl, Nat.one_pos, hpos, fun id v hv => by simp at hv, by simp⟩

theorem PrimaryPublished.run_invariant [DecidableEq D] {st₀ st : PrimaryState E}
    (h : PrimaryPublished st₀) (run : PrimaryRun st₀ operations st) :
    ∃ floor past, PrimaryInvariant st floor past := by
  obtain ⟨entry, inv⟩ := h.invariant
  obtain ⟨floor', past', _, _, inv'⟩ := inv.run run
  exact ⟨floor', past', inv'⟩

/-! ## Requests -/

/-- A request to a primary store. A commit is made against the fence read right before it. -/
inductive PrimaryRequest (E : Env D) where
  | append (block : CanonicalBuildBlock E) (subtreeRoots : List CanonicalBuildSubtreeRoot)
      (settledTip : BlockId) (createdAt : Nat)
  | replace (blocks : List (CanonicalReplacementBlock E)) (createdAt : Nat)
  | acquire (lease : ProjectionBuildLease) (now : Nat)
  | renew (lease : ProjectionBuildLease) (now : Nat)
  | release (lease : ProjectionBuildLease)
  | prune (requestedOldestSequence now : Nat)
  | pruneBefore (cutoff now : Nat)

variable [DecidableEq D]

def PrimaryStore.perform (activations : NetworkUpgradeActivations)
    (s : PrimaryStore D) : PrimaryRequest E → Option (PrimaryStore D × PrimaryOperation)
  | .append block subtreeRoots settledTip createdAt =>
    (commitLiveAppend s.canonical
      (⟨s.canonical.eventFence, block, subtreeRoots, settledTip, createdAt⟩ :
        CanonicalLiveAppend E) activations).toOption.map fun r => (⟨r.1, s.lifecycle⟩, .commit)
  | .replace blocks createdAt =>
    (commitLiveReplacement s.canonical
      (⟨s.canonical.eventFence, blocks, createdAt⟩ : CanonicalLiveReplacement E)
      activations).toOption.map fun r => (⟨r.1, s.lifecycle⟩, .commit)
  | .acquire lease now =>
    (s.acquireProjectionBuildLease lease now).toOption.map fun r => (r.1, .acquire r.2 now)
  | .renew lease now =>
    (s.renewProjectionBuildLease lease now).toOption.map fun r => (r, .renew lease now)
  | .release lease =>
    (s.releaseProjectionBuildLease lease).toOption.map fun r => (r, .release lease)
  | .prune requested now =>
    (s.pruneCanonicalEventsBefore requested now).toOption.map fun r => (r.1, .prune now)
  | .pruneBefore cutoff now =>
    (s.pruneCanonicalEventsBeforeCreatedAt cutoff now).toOption.map fun r => (r.1, .prune now)

def PrimaryStore.performAll (activations : NetworkUpgradeActivations) :
    PrimaryStore D → List (PrimaryRequest E) → Option (PrimaryStore D × List PrimaryOperation)
  | s, [] => some (s, [])
  | s, request :: requests => do
    let (s₁, operation) ← s.perform activations request
    let (s₂, operations) ← s₁.performAll activations requests
    some (s₂, operation :: operations)

theorem PrimaryRun.cons {st st' st'' : PrimaryState E} {operation : PrimaryOperation}
    (step : PrimaryStep st operation st') (run : PrimaryRun st' operations st'') :
    PrimaryRun st (operation :: operations) st'' := by
  induction run with
  | nil => exact (PrimaryRun.nil st).snoc step
  | snoc _ hstep ih => exact ih.snoc hstep

theorem PrimaryRun.trans {st st' st'' : PrimaryState E}
    {operations' : List PrimaryOperation} (run : PrimaryRun st operations st')
    (run' : PrimaryRun st' operations' st'') : PrimaryRun st (operations ++ operations') st'' := by
  induction run' with
  | nil => rwa [append_nil]
  | snoc _ hstep ih =>
    rw [← append_assoc]
    exact ih.snoc hstep

theorem perform_step {request : PrimaryRequest E} {operation : PrimaryOperation}
    (h : st.primary.perform activations request = some (s', operation)) :
    ∃ st', PrimaryStep st operation st' ∧ st'.primary = s' := by
  cases request <;>
    (simp only [PrimaryStore.perform, Option.map_eq_some_iff, toOption_eq_some] at h
     obtain ⟨r, hr, h⟩ := h
     cases h)
  case append => exact ⟨_, .commit (.append hr), rfl⟩
  case replace =>
    obtain ⟨p, hp, -⟩ := commitLiveReplacement_eq_ok hr
    obtain ⟨steps⟩ := prepareLiveReplacement_steps hp
    exact ⟨_, .commit (.replacement steps.head hr), rfl⟩
  case acquire => exact ⟨_, .acquire hr, rfl⟩
  case renew => exact ⟨_, .renew hr, rfl⟩
  case release => exact ⟨_, .release hr, rfl⟩
  case prune => exact ⟨_, .prune hr, rfl⟩
  case pruneBefore => exact ⟨_, .pruneBefore hr, rfl⟩

theorem performAll_run {requests : List (PrimaryRequest E)}
    (h : st.primary.performAll activations requests = some (s', operations)) :
    ∃ st', PrimaryRun st operations st' ∧ st'.primary = s' := by
  induction requests generalizing st operations with
  | nil =>
    cases h
    exact ⟨st, .nil st, rfl⟩
  | cons request requests ih =>
    simp only [PrimaryStore.performAll, Option.bind_eq_bind, Option.bind_eq_some_iff] at h
    obtain ⟨⟨s₁, operation⟩, hstep, ⟨s₂, rest⟩, hrest, h⟩ := h
    cases h
    obtain ⟨st₁, step, rfl⟩ := perform_step hstep
    obtain ⟨st₂, run, rfl⟩ := ih hrest
    exact ⟨st₂, .cons step run, rfl⟩

theorem published_run {b : CanonicalBaseline E} {s : RocksDbCanonicalStore D}
    (hb : publishBaseline b = .ok s) {requests : List (PrimaryRequest E)}
    (h : PrimaryStore.performAll activations ⟨s, ⟨none, none, ∅⟩⟩ requests =
      some (s', operations)) :
    ∃ st₀ st : PrimaryState E, PrimaryPublished st₀ ∧ PrimaryRun st₀ operations st ∧
      st.primary = s' := by
  obtain ⟨st, hpublished, rfl, _⟩ := exists_published hb
  obtain ⟨st', run, hst'⟩ := performAll_run
    (show (PrimaryState.mk st ⟨none, none, ∅⟩).primary.performAll activations requests = _ from h)
  exact ⟨_, st', .intro hpublished, run, hst'⟩

end Runs

end Zinder.Canonical
