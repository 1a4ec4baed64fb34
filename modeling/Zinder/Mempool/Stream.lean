import Zinder.Mempool.LogRun

/-!
# Zinder.Mempool.Stream

Event pages and the consumers that follow them.

`LogHolds.history_none` and `LogHolds.history_after` say what a page read returns over rows that hold
a log: the next events after the resume position, or the expired error when the event the cursor
names is below the floor. A consumer keeps the cursor of the last event it received; while the store
appends, prunes and restarts between its reads, what it has received stays a contiguous run of the
log (`stream_delivery`).
-/

namespace Zinder.Mempool

open LogHolds (envelopesFrom)
open List
open MempoolLogError

variable {E : LogEnv} {rows : MempoolRows} {log : List ObservedEvent} {floor : Nat}

/-! ## Pages -/

theorem envelopesFrom_append (E : LogEnv) (start : Nat) (a b : List ObservedEvent) :
    envelopesFrom E start (a ++ b) =
      envelopesFrom E start a ++ envelopesFrom E (start + a.length) b := by
  simp [envelopesFrom, zipIdx_append, Nat.add_right_comm]

theorem envelopesFrom_take (E : LogEnv) (start n : Nat) (events : List ObservedEvent) :
    envelopesFrom E start (events.take n) = (envelopesFrom E start events).take n := by
  refine ext_getElem? fun i => ?_
  rw [getElem?_envelopesFrom, getElem?_take, getElem?_take, getElem?_envelopesFrom]
  split <;> rfl

@[simp] theorem length_envelopesFrom (E : LogEnv) (start : Nat) (events : List ObservedEvent) :
    (envelopesFrom E start events).length = events.length := by
  simp [envelopesFrom]

def eventRow (E : LogEnv) (envelope : MempoolEventEnvelope) : Nat × Bytes :=
  (envelope.eventSequence, encodeMempoolEventEnvelope E envelope)

theorem historyPage_consecutive {current start maxEvents : Nat} (hstart : 0 < start)
    (hbound : current < u64Bound) (rest : List ObservedEvent) (events : List MempoolEventEnvelope)
    (hcurrent : start - 1 + events.length + rest.length = current) :
    historyPage E current start maxEvents
        ((envelopesFrom E (start - 1 + events.length) rest).map (eventRow E)) events =
      .ok (events ++ (envelopesFrom E (start - 1 + events.length) rest).take
        (maxEvents - events.length)) := by
  induction rest generalizing events with
  | nil => simp [envelopesFrom, historyPage]
  | cons o rest ih =>
    simp only [length_cons] at hcurrent
    have hcons : envelopesFrom E (start - 1 + events.length) (o :: rest) =
        envelopeOf E (start + events.length) o ::
          envelopesFrom E (start - 1 + (events.length + 1)) rest := by
      have hindex : start - 1 + events.length + 1 = start + events.length := by omega
      have hindex' : start - 1 + (events.length + 1) = start - 1 + events.length + 1 := by omega
      simp [envelopesFrom, hindex, hindex']
    rw [hcons, map_cons, eventRow]
    have hsequence : (envelopeOf E (start + events.length) o).eventSequence =
        start + events.length := rfl
    rw [hsequence, historyPage]
    by_cases hfull : events.length ≥ maxEvents
    · rw [if_pos (.inr hfull), Nat.sub_eq_zero_of_le hfull]
      simp
    · have hin : ¬ (start + events.length > current ∨ events.length ≥ maxEvents) := by omega
      have hdecode := LogHolds.decode_row (E := E) (s := start + events.length) (by omega) o
      have hchecked : okOr (checkedAdd u64Bound start events.length) mempoolEventSequenceOverflow =
          .ok (start + events.length) := by
        rw [okOr_eq_ok, checkedAdd_eq_some]
        exact ⟨by omega, rfl⟩
      rw [if_neg hin, if_neg (by omega), hchecked, ok_bind, rejectIf_of_not (by simp), ok_bind,
        hdecode, ok_bind]
      have hstep := ih (events ++ [envelopeOf E (start + events.length) o])
        (by simp only [length_append, length_singleton]; omega)
      rw [length_append, length_singleton] at hstep
      rw [hstep]
      obtain ⟨k, hk⟩ : ∃ k, maxEvents - events.length = k + 1 :=
        ⟨maxEvents - events.length - 1, by omega⟩
      have hk' : maxEvents - (events.length + 1) = k := by omega
      rw [hk, hk', take_succ_cons]
      simp

theorem filter_envelopesFrom (base start : Nat) (events : List ObservedEvent) :
    ((envelopesFrom E base events).map (eventRow E)).filter (fun row => decide (start ≤ row.1)) =
      (envelopesFrom E (max base (start - 1)) (events.drop (start - (base + 1)))).map
        (eventRow E) := by
  induction events generalizing base with
  | nil => simp [envelopesFrom]
  | cons o events ih =>
    have hcons : envelopesFrom E base (o :: events) =
        envelopeOf E (base + 1) o :: envelopesFrom E (base + 1) events := rfl
    rw [hcons, map_cons, filter_cons, ih,
      show (eventRow E (envelopeOf E (base + 1) o)).1 = base + 1 from rfl]
    by_cases hkept : start ≤ base + 1
    · rw [if_pos (decide_eq_true hkept), Nat.sub_eq_zero_of_le hkept,
        Nat.sub_eq_zero_of_le (Nat.le_succ_of_le hkept), Nat.max_eq_left (by omega),
        Nat.max_eq_left (by omega)]
      rfl
    · rw [if_neg (by simpa using hkept), Nat.max_eq_right (by omega),
        Nat.max_eq_right (by omega),
        show start - (base + 1) = start - (base + 1 + 1) + 1 by omega, drop_succ_cons]

namespace LogHolds

section

variable (h : LogHolds E rows log floor)
include h

theorem seekEvents {start : Nat} (hstart : floor ≤ start) :
    rows.seekEvents start =
      (envelopesFrom E (start - 1) (log.drop (start - 1))).map (eventRow E) := by
  have hpos := h.floor_pos
  rw [MempoolRows.seekEvents, h.toList_events]
  refine (filter_envelopesFrom _ _ _).trans ?_
  rw [drop_drop, show floor - 1 + (start - (floor - 1 + 1)) = start - 1 by omega,
    show max (floor - 1) (start - 1) = start - 1 by omega]

theorem page {start maxEvents : Nat} (hstart : floor ≤ start) (hmax : 0 < maxEvents)
    (hle : start ≤ log.length) :
    (do let events ← historyPage E log.length start maxEvents (rows.seekEvents start) []
        rejectIf (events = []) (mempoolEventLogInvalid
          "mempool event head points to an absent retained row")
        .ok events : Except MempoolLogError (List MempoolEventEnvelope)) =
      .ok (envelopesFrom E (start - 1) ((log.drop (start - 1)).take maxEvents)) := by
  have hpos : 0 < start := Nat.lt_of_lt_of_le h.floor_pos hstart
  have hpage : historyPage E log.length start maxEvents
      ((envelopesFrom E (start - 1) (log.drop (start - 1))).map (eventRow E)) [] =
      .ok ((envelopesFrom E (start - 1) (log.drop (start - 1))).take maxEvents) :=
    historyPage_consecutive hpos h.length_lt (log.drop (start - 1)) []
      (by simp only [length_drop, length_nil]; omega)
  rw [h.seekEvents hstart, hpage, ok_bind, rejectIf_of_not, ok_bind, envelopesFrom_take]
  intro hnil
  have hlength := congrArg List.length hnil
  simp only [length_take, length_envelopesFrom, length_drop, length_nil] at hlength
  omega

theorem history_none {maxEvents : Nat} (hmax : 0 < maxEvents) :
    mempoolEventHistory E rows none maxEvents =
      .ok (envelopesFrom E (floor - 1) ((log.drop (floor - 1)).take maxEvents)) := by
  by_cases hne : log = []
  · subst hne
    simp [mempoolEventHistory, h.currentSequence, envelopesFrom, rejectIf]
  · have hlength : log.length ≠ 0 := fun hzero => hne (length_eq_zero_iff.mp hzero)
    have hle := h.floor_le_length hne
    simp only [mempoolEventHistory, h.currentSequence, ok_bind, hlength, if_false, h.readFloor hne]
    rw [if_neg (by omega)]
    exact h.page (Nat.le_refl _) hmax hle

/-- A page after the event a cursor names: the events behind it, or the expired error when it is
below the floor. Behind the last sequence number there is none to start a page at. -/
theorem history_after {s : Nat} {o : ObservedEvent} (hs : 0 < s) (ho : log[s - 1]? = some o)
    {maxEvents : Nat} (hmax : 0 < maxEvents) :
    mempoolEventHistory E rows
        (some (.mempoolEvent E.authority s o.1.transactionId)) maxEvents =
      if s < floor then .error (mempoolEventCursorExpired s floor)
      else if s + 1 < u64Bound then .ok (envelopesFrom E s ((log.drop s).take maxEvents))
      else .error mempoolEventSequenceOverflow := by
  have hslen : s ≤ log.length := by
    have : s - 1 < log.length := (List.getElem?_eq_some_iff.mp ho).1
    omega
  have hne : log ≠ [] := by
    rintro rfl
    simp at hslen
    omega
  have hlength : log.length ≠ 0 := by omega
  have hdecode : (StreamCursorTokenV1.mempoolEvent E.authority s
      o.1.transactionId).decodeMempoolEvent E.authority = .ok ⟨s, o.1.transactionId⟩ :=
    decodeMempoolEvent_mempoolEvent (Nat.lt_of_le_of_lt hslen h.length_lt)
  have hresume : validateMempoolResumeCursor E rows
      (.mempoolEvent E.authority s o.1.transactionId) log.length floor =
      if s < floor then .error (mempoolEventCursorExpired s floor)
      else if s + 1 < u64Bound then .ok (s + 1)
      else .error mempoolEventSequenceOverflow := by
    simp only [validateMempoolResumeCursor, hdecode, Except.mapError, ok_bind]
    rw [rejectIf_of_not (by omega), ok_bind]
    by_cases hexpired : s < floor
    · simp [hexpired, rejectIf]
    · rw [rejectIf_of_not hexpired, ok_bind, h.read (by omega) ho, ok_bind,
        rejectIf_of_not (by simp [MempoolEventEnvelope.transactionId, envelopeOf]), ok_bind,
        if_neg hexpired, checkedAdd]
      split <;> rfl
  simp only [mempoolEventHistory, h.currentSequence, ok_bind, hlength, if_false, h.readFloor hne,
    hresume]
  by_cases hexpired : s < floor
  · simp [hexpired]
  rw [if_neg hexpired, if_neg hexpired]
  by_cases hroom : s + 1 < u64Bound
  · rw [if_pos hroom, if_pos hroom, ok_bind]
    by_cases hend : s + 1 > log.length
    · rw [if_pos hend, drop_eq_nil_of_le (by omega), take_nil]
      rfl
    · have hpage := h.page (show floor ≤ s + 1 by omega) hmax (by omega)
      rw [Nat.add_sub_cancel] at hpage
      rw [if_neg hend]
      exact hpage
  · rw [if_neg hroom, if_neg hroom, error_bind]

end

end LogHolds

/-! ## Consumers -/

/-- A stream consumer: where it resumes and what it has received. -/
structure Consumer where
  resume : Option StreamCursorTokenV1
  delivered : List MempoolEventEnvelope

def Consumer.receive (c : Consumer) (page : List MempoolEventEnvelope) : Consumer where
  resume := (page.getLast?.map MempoolEventEnvelope.cursor).or c.resume
  delivered := c.delivered ++ page

/-- A store with its whole log and one consumer. `first` is the sequence right after the consumer's
start position, once that is fixed. -/
structure StreamState where
  store : MempoolEventStore
  log : List ObservedEvent
  consumer : Consumer
  first : Option Nat

/-- A subscription at a reachable store. The cursor a start resolves to fixes the start position: it
names the newest event. Without a cursor the start position is the earliest retained event. -/
inductive Subscribed (E : LogEnv) (start : EventStreamStartPosition) : StreamState → Prop where
  | mk (store : MempoolEventStore) (log : List ObservedEvent) (cursor : Option StreamCursorTokenV1)
      (hstore : LogReachable E store log)
      (hresolve : resolveMempoolEventStreamStart E store.rows start = .ok cursor) :
    Subscribed E start ⟨store, log, ⟨cursor, []⟩, cursor.map fun _ => log.length + 1⟩

/-- A step of the store, or a successful read. The read that delivers the first events of a consumer
without a cursor fixes its start position at the retention floor of that moment. -/
inductive StreamStep (E : LogEnv) : StreamState → StreamState → Prop where
  | log {store store' : MempoolEventStore} {log log' : List ObservedEvent} (consumer : Consumer)
      (first : Option Nat) (hstep : LogStep E (store, log) (store', log')) :
    StreamStep E ⟨store, log, consumer, first⟩ ⟨store', log', consumer, first⟩
  | read (s : StreamState) {maxEvents floor : Nat} {page : List MempoolEventEnvelope}
      (hmax : 0 < maxEvents)
      (hread : mempoolEventHistory E s.store.rows s.consumer.resume maxEvents = .ok page)
      (hfloor : page ≠ [] → mempoolEventRetentionFloor s.store.rows s.log.length = .ok floor) :
    StreamStep E s { s with
      consumer := s.consumer.receive page
      first := if page = [] then s.first else s.first.or (some floor) }

def StreamReachable (E : LogEnv) (start : EventStreamStartPosition) (s : StreamState) : Prop :=
  ∃ s₀, Subscribed E start s₀ ∧ Relation.ReflTransGen (StreamStep E) s₀ s

/-- The invariant of a followed stream: the consumer waits for its first event, or it holds the
cursor of the last event of a contiguous run. -/
inductive Follows (E : LogEnv) (log : List ObservedEvent) : Consumer → Option Nat → Prop where
  | waiting : Follows E log ⟨none, []⟩ none
  | following {first s : Nat} {o : ObservedEvent} (hfirst : 0 < first) (hle : first ≤ s + 1)
      (hs : 0 < s) (ho : log[s - 1]? = some o) :
    Follows E log ⟨some (.mempoolEvent E.authority s o.1.transactionId),
      envelopesFrom E (first - 1) ((log.drop (first - 1)).take (s + 1 - first))⟩ (some first)

variable {maxEvents : Nat} {c : Consumer} {first : Option Nat}

theorem Follows.append (h : Follows E log c first) (more : List ObservedEvent) :
    Follows E (log ++ more) c first := by
  cases h with
  | waiting => exact .waiting
  | @following first s o hfirst hle hs ho =>
    have hslen : s - 1 < log.length := (List.getElem?_eq_some_iff.mp ho).1
    have hsame : ((log ++ more).drop (first - 1)).take (s + 1 - first) =
        (log.drop (first - 1)).take (s + 1 - first) := by
      rw [drop_append_of_le_length (by omega), take_append_of_le_length]
      rw [length_drop]
      omega
    rw [← hsame]
    exact .following hfirst hle hs (by rw [getElem?_append_left hslen, ho])

theorem getLast?_envelopesFrom (E : LogEnv) (start : Nat) {events : List ObservedEvent}
    (hne : events ≠ []) :
    ∃ o, events[events.length - 1]? = some o ∧
      (envelopesFrom E start events).getLast? = some (envelopeOf E (start + events.length) o) := by
  have hlength := length_pos_iff.mpr hne
  obtain ⟨o, ho⟩ : ∃ o, events[events.length - 1]? = some o :=
    ⟨_, getElem?_eq_getElem (by omega)⟩
  refine ⟨o, ho, ?_⟩
  rw [getLast?_eq_getElem?, length_envelopesFrom, getElem?_envelopesFrom, ho]
  have hindex : start + 1 + (events.length - 1) = start + events.length := by omega
  rw [hindex]
  rfl

theorem Follows.deliver {start first maxEvents : Nat}
    (hdelivered : c.delivered =
      envelopesFrom E (first - 1) ((log.drop (first - 1)).take (start + 1 - first)))
    (hfirst : 0 < first) (hle : first ≤ start + 1)
    (hpage : envelopesFrom E start ((log.drop start).take maxEvents) ≠ []) :
    Follows E log (c.receive (envelopesFrom E start ((log.drop start).take maxEvents)))
      (some first) := by
  have hne : (log.drop start).take maxEvents ≠ [] := fun hnil => hpage (by rw [hnil]; rfl)
  obtain ⟨o, ho, hlast⟩ := getLast?_envelopesFrom E start hne
  have hcount : 0 < ((log.drop start).take maxEvents).length := length_pos_iff.mpr hne
  generalize hk : ((log.drop start).take maxEvents).length = k at ho hlast hcount
  have hkle : k ≤ maxEvents ∧ start + k ≤ log.length := by
    rw [← hk, length_take, length_drop]
    rw [← hk, length_take, length_drop] at hcount
    omega
  have hpage : (log.drop start).take maxEvents = (log.drop start).take k := by
    rw [← hk, length_take, ← take_take, take_length]
  have ho' : log[start + k - 1]? = some o := by
    rw [getElem?_take_of_lt (by omega), getElem?_drop] at ho
    rwa [show start + (k - 1) = start + k - 1 by omega] at ho
  have hrun : (log.drop (first - 1)).take (start + k + 1 - first) =
      (log.drop (first - 1)).take (start + 1 - first) ++ (log.drop start).take k := by
    rw [show start + k + 1 - first = (start + 1 - first) + k by omega, take_add, drop_drop,
      show first - 1 + (start + 1 - first) = start by omega]
  have hreceived : c.receive (envelopesFrom E start ((log.drop start).take maxEvents)) =
      ⟨some (.mempoolEvent E.authority (start + k) o.1.transactionId),
        envelopesFrom E (first - 1) ((log.drop (first - 1)).take (start + k + 1 - first))⟩ := by
    have hbefore : first - 1 + ((log.drop (first - 1)).take (start + 1 - first)).length = start := by
      rw [length_take, length_drop]
      omega
    rw [Consumer.receive, hlast, hdelivered, hrun, envelopesFrom_append, hbefore, hpage]
    rfl
  rw [hreceived]
  exact .following hfirst (by omega) (by omega) ho'

theorem Consumer.receive_nil (c : Consumer) : c.receive [] = c := by
  cases c
  simp [Consumer.receive]

theorem Follows.read (hrows : LogHolds E rows log floor) (h : Follows E log c first)
    (hmax : 0 < maxEvents) {page : List MempoolEventEnvelope}
    (hread : mempoolEventHistory E rows c.resume maxEvents = .ok page) :
    Follows E log (c.receive page) (if page = [] then first else first.or (some floor)) := by
  by_cases hnil : page = []
  · rw [if_pos hnil, hnil, Consumer.receive_nil]
    exact h
  rw [if_neg hnil]
  have hpos := hrows.floor_pos
  cases h with
  | waiting =>
    rw [hrows.history_none hmax] at hread
    cases hread
    refine Follows.deliver ?_ hpos (by omega) hnil
    rw [Nat.sub_add_cancel hpos, Nat.sub_self, take_zero]
    rfl
  | @following first s o hfirst hle hs ho =>
    rw [hrows.history_after hs ho hmax] at hread
    split at hread
    · cases hread
    split at hread
    · cases hread
      exact Follows.deliver rfl hfirst hle hnil
    · cases hread

/-- The consumer has every event of the log from its start position on. One without a start position
yet has all that retention left. -/
def AtHead (log : List ObservedEvent) (c : Consumer) (first : Option Nat) : Prop :=
  ∃ n, c.delivered.map MempoolEventEnvelope.observed = log.drop n ∧
    (first = none ∧ KeyedLog.CutSafe (changes log) n ∨ first = some (n + 1))

theorem atHead_of_following {first s : Nat} (hfirst : 0 < first)
    (hhead : log.length ≤ s) (cursor : Option StreamCursorTokenV1) :
    AtHead log ⟨cursor, envelopesFrom E (first - 1)
      ((log.drop (first - 1)).take (s + 1 - first))⟩ (some first) := by
  refine ⟨first - 1, ?_, .inr (by rw [Nat.sub_add_cancel hfirst])⟩
  rw [observed_envelopesFrom, take_of_length_le]
  rw [length_drop]
  omega

section

variable (hrows : LogHolds E rows log floor) (h : Follows E log c first) (hmax : 0 < maxEvents)
include hrows h hmax

theorem Follows.atHead_of_empty (hread : mempoolEventHistory E rows c.resume maxEvents = .ok []) :
    AtHead log c first := by
  have hnone : ∀ {start : Nat} {events : List ObservedEvent},
      envelopesFrom E start (events.take maxEvents) = [] → events = [] := by
    intro start events hnil
    have hlength := congrArg List.length hnil
    rw [length_envelopesFrom, length_take, length_nil] at hlength
    exact length_eq_zero_iff.mp (by omega)
  cases h with
  | waiting =>
    rw [hrows.history_none hmax] at hread
    exact ⟨floor - 1, (hnone (Except.ok.inj hread)).symm, .inl ⟨rfl, hrows.safe⟩⟩
  | @following first s o hfirst hle hs ho =>
    rw [hrows.history_after hs ho hmax] at hread
    split at hread
    · cases hread
    split at hread
    · exact atHead_of_following hfirst
        (drop_eq_nil_iff.mp (hnone (Except.ok.inj hread))) _
    · cases hread

/-- A read fails because the consumer fell behind retention, or because nothing can follow what it
already has. -/
theorem Follows.read_error {e : MempoolLogError}
    (hread : mempoolEventHistory E rows c.resume maxEvents = .error e) :
    (∃ sequence oldest, e = mempoolEventCursorExpired sequence oldest) ∨ AtHead log c first := by
  cases h with
  | waiting =>
    rw [hrows.history_none hmax] at hread
    cases hread
  | @following first s o hfirst hle hs ho =>
    rw [hrows.history_after hs ho hmax] at hread
    split at hread
    · cases hread
      exact .inl ⟨_, _, rfl⟩
    split at hread
    · cases hread
    · have := hrows.length_lt
      exact .inr (atHead_of_following hfirst (by omega) _)

end

theorem Subscribed.follows {start : EventStreamStartPosition} {s : StreamState}
    (hstart : ∀ c, start ≠ .afterCursor c) (h : Subscribed E start s) :
    LogReachable E s.store s.log ∧ Follows E s.log s.consumer s.first := by
  obtain ⟨store, log, cursor, hstore, hresolve⟩ := h
  refine ⟨hstore, ?_⟩
  obtain ⟨floor, hinv⟩ := hstore.invariant
  simp only [resolveMempoolEventStreamStart, hinv.rows.currentSequence, ok_bind] at hresolve
  cases start with
  | earliestRetained =>
    cases hresolve
    exact .waiting
  | afterCursor c => exact absurd rfl (hstart c)
  | liveTail =>
    simp only at hresolve
    split at hresolve
    · cases hresolve
      exact .waiting
    · next hlength =>
      obtain ⟨o, ho⟩ : ∃ o, log[log.length - 1]? = some o :=
        ⟨_, getElem?_eq_getElem (by omega)⟩
      have hne : log ≠ [] := fun hnil => hlength (by rw [hnil]; rfl)
      rw [hinv.rows.read (hinv.rows.floor_le_length hne) ho, ok_bind] at hresolve
      cases hresolve
      have hfirst : 0 < log.length + 1 := Nat.succ_pos _
      have hrun := Follows.following (E := E) hfirst (Nat.le_refl _) (Nat.pos_of_ne_zero hlength) ho
      simpa [envelopesFrom, envelopeOf] using hrun

theorem StreamReachable.follows {start : EventStreamStartPosition} {s : StreamState}
    (hstart : ∀ c, start ≠ .afterCursor c) (h : StreamReachable E start s) :
    LogReachable E s.store s.log ∧ Follows E s.log s.consumer s.first := by
  obtain ⟨s₀, hsubscribed, hrun⟩ := h
  induction hrun with
  | refl => exact hsubscribed.follows hstart
  | @tail b c _ hstep ih =>
    obtain ⟨hstore, hfollows⟩ := ih
    obtain ⟨floor, hinv⟩ := hstore.invariant
    cases hstep with
    | log consumer first hlog =>
      refine ⟨hstore.tail hlog, ?_⟩
      cases hlog with
      | append events reply => exact hfollows.append _
      | retain reply now retention budget => exact hfollows
      | restart => exact hfollows
    | @read _ maxEvents floor' page hmax hread hfloor =>
      refine ⟨hstore, ?_⟩
      have hcontinued := hfollows.read hinv.rows hmax hread
      by_cases hnil : page = []
      · rw [if_pos hnil] at hcontinued ⊢
        exact hcontinued
      · have hsame := hfloor hnil
        by_cases hne : b.log = []
        · have hlength : b.log.length = 0 := by rw [hne]; rfl
          rw [mempoolEventRetentionFloor, hinv.rows.retentionFloor, if_pos hne, hlength] at hsame
          cases hsame
        · rw [hinv.rows.readFloor hne] at hsame
          cases hsame
          exact hcontinued

/-- Stream delivery. A consumer that starts at the earliest retained event or at the live tail, and
always resumes from the last cursor it received, has received a contiguous run of the log from its
start position on, each event once and as it was appended. A read that fails has met the expired
error, and the event its cursor names is pruned; the one other failure is a log that has used up the
sequence numbers. -/
theorem stream_delivery (E : LogEnv) {start : EventStreamStartPosition} {s : StreamState}
    (hstart : ∀ c, start ≠ .afterCursor c) (h : StreamReachable E start s) :
    (∀ first, s.first = some first →
      s.consumer.delivered.map MempoolEventEnvelope.eventSequence =
        List.range' first s.consumer.delivered.length ∧
      s.consumer.delivered.map MempoolEventEnvelope.observed =
        (s.log.drop (first - 1)).take s.consumer.delivered.length) ∧
    (s.first = none → s.consumer.delivered = []) ∧
    ∀ maxEvents e, 0 < maxEvents →
      mempoolEventHistory E s.store.rows s.consumer.resume maxEvents = .error e →
      ∃ sequence id, s.consumer.resume = some (.mempoolEvent E.authority sequence id) ∧
        ((∃ floor, mempoolEventRetentionFloor s.store.rows s.log.length = .ok floor ∧
            e = mempoolEventCursorExpired sequence floor ∧ sequence < floor ∧
            s.store.rows.events[sequence]? = none) ∨
          (e = mempoolEventSequenceOverflow ∧ u64Bound ≤ sequence + 1)) := by
  obtain ⟨hstore, hfollows⟩ := h.follows hstart
  obtain ⟨floor, hinv⟩ := hstore.invariant
  obtain ⟨store, log, consumer, first⟩ := s
  dsimp only at hfollows ⊢
  cases hfollows with
  | waiting =>
    refine ⟨fun first hfirst => (by cases hfirst), fun _ => rfl, ?_⟩
    intro maxEvents e hmax herror
    rw [hinv.rows.history_none hmax] at herror
    cases herror
  | @following first s o hfirst hle hs ho =>
    have hslen : s - 1 < log.length := (List.getElem?_eq_some_iff.mp ho).1
    refine ⟨?_, fun hnone => (by cases hnone), ?_⟩
    · intro first' hfirst'
      cases hfirst'
      refine ⟨?_, ?_⟩
      · rw [eventSequence_envelopesFrom, Nat.sub_add_cancel hfirst, length_envelopesFrom]
      · rw [observed_envelopesFrom, length_envelopesFrom, length_take]
        rw [← take_take, take_length]
    · intro maxEvents e hmax herror
      refine ⟨s, o.1.transactionId, rfl, ?_⟩
      rw [hinv.rows.history_after hs ho hmax] at herror
      split at herror
      · next hexpired =>
        cases herror
        have hne : log ≠ [] := by
          rintro rfl
          simp at hslen
        refine .inl ⟨floor, hinv.rows.readFloor hne, rfl, hexpired, ?_⟩
        rw [hinv.rows.events, if_neg (by omega)]
      split at herror
      · cases herror
      · cases herror
        exact .inr ⟨rfl, by omega⟩

/-! ### Two consumers -/

noncomputable def sampleRetained : MempoolEventStore :=
  (advanceMempoolEventRetention (listedLogEnv sampleLog) .done 100 sampleRetention sampleBudget
    sampleAppended).2

/-- A consumer that reads two events and is then overtaken by retention. -/
theorem stream_delivery_sample :
    ∃ s, StreamReachable (listedLogEnv sampleLog) .earliestRetained s ∧
      s.consumer.delivered.map MempoolEventEnvelope.eventSequence = [1, 2] ∧
      mempoolEventHistory (listedLogEnv sampleLog) s.store.rows s.consumer.resume 2 =
        .error (mempoolEventCursorExpired 2 3) ∧
      s.store.rows.events[2]? = none := by
  have hpage : ((mempoolEventHistory (listedLogEnv sampleLog) sampleAppended.rows none 2).toOption.map
      fun page => (page.map MempoolEventEnvelope.eventSequence, page.getLast?.map
        MempoolEventEnvelope.cursor)) = some ([1, 2],
          some (.mempoolEvent keyTagAuthority 2 (byteId 1))) := by
    decide +kernel
  obtain ⟨page, hpage, hseen⟩ := Option.map_eq_some_iff.mp hpage
  have hread := toOption_eq_some.mp hpage
  obtain ⟨hsequences, hcursor⟩ := Prod.mk.inj hseen
  have hfloor : mempoolEventRetentionFloor sampleAppended.rows sampleLog.length = .ok 1 := by
    decide +kernel
  have hsubscribed : Subscribed (listedLogEnv sampleLog) .earliestRetained
      ⟨sampleAppended, sampleLog, ⟨none, []⟩, none⟩ :=
    .mk sampleAppended sampleLog none sampleAppended_reachable (by decide +kernel)
  have hreached : StreamReachable (listedLogEnv sampleLog) .earliestRetained _ :=
    ⟨_, hsubscribed, (Relation.ReflTransGen.single (.read _ (by decide) hread
      fun _ => hfloor)).tail (.log _ _ (.retain _ _ .done 100 sampleRetention sampleBudget))⟩
  have hresume : ((⟨none, []⟩ : Consumer).receive page).resume =
      some (.mempoolEvent keyTagAuthority 2 (byteId 1)) := by
    rw [Consumer.receive, hcursor]
    rfl
  have herror : mempoolEventHistory (listedLogEnv sampleLog) sampleRetained.rows
      ((⟨none, []⟩ : Consumer).receive page).resume 2 = .error (mempoolEventCursorExpired 2 3) := by
    rw [hresume]
    decide +kernel
  refine ⟨_, hreached, hsequences, herror, ?_⟩
  obtain ⟨sequence, _, _, ⟨floor, _, hexpired, _, hgone⟩ | ⟨hoverflow, _⟩⟩ :=
    (stream_delivery (listedLogEnv sampleLog) (by simp) hreached).2.2 2 _ (by decide) herror
  · cases hexpired
    exact hgone
  · cases hoverflow

/-- On an empty log the live tail resolves to the earliest retained event of the first read, so events
appended and pruned before that read are neither delivered nor reported as expired. -/
theorem live_tail_of_empty_log_skips :
    ¬ ∀ (E : LogEnv) (s₀ s : StreamState), Subscribed E .liveTail s₀ →
      Relation.ReflTransGen (StreamStep E) s₀ s →
      s.consumer.delivered.map MempoolEventEnvelope.eventSequence =
        List.range' (s₀.log.length + 1) s.consumer.delivered.length := by
  intro hall
  have hpage : ((mempoolEventHistory (listedLogEnv sampleLog) sampleRetained.rows none 8).toOption.map
      fun page => page.map MempoolEventEnvelope.eventSequence) = some [3] := by
    decide +kernel
  obtain ⟨page, hpage, hsequences⟩ := Option.map_eq_some_iff.mp hpage
  have hread := toOption_eq_some.mp hpage
  have hfloor : mempoolEventRetentionFloor sampleRetained.rows sampleLog.length = .ok 3 := by
    decide +kernel
  have hsubscribed : Subscribed (listedLogEnv sampleLog) .liveTail ⟨.empty, [], ⟨none, []⟩, none⟩ :=
    .mk .empty [] none .refl rfl
  have hrun : Relation.ReflTransGen (StreamStep (listedLogEnv sampleLog))
      ⟨.empty, [], ⟨none, []⟩, none⟩ _ :=
    ((Relation.ReflTransGen.single (.log ⟨none, []⟩ none sample_log_step)).tail
      (.log _ _ (.retain _ _ .done 100 sampleRetention sampleBudget))).tail
      (.read ⟨sampleRetained, sampleLog, ⟨none, []⟩, none⟩ (by decide) hread fun _ => hfloor)
  have hclaimed := hall _ _ _ hsubscribed hrun
  have hdelivered : ((⟨none, []⟩ : Consumer).receive page).delivered = page := nil_append page
  rw [hdelivered, hsequences] at hclaimed
  have hlength : page.length = 1 := by
    rw [← length_map (f := MempoolEventEnvelope.eventSequence), hsequences]
    rfl
  rw [hlength] at hclaimed
  cases hclaimed

end Zinder.Mempool
