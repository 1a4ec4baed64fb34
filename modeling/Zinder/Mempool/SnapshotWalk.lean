import Zinder.Mempool.OwnerFrame

/-!
# Zinder.Mempool.SnapshotWalk

A client that walks the pages of one snapshot and then follows the events after the walk's resume
cursor, while the owner goes on serving: source transitions and retention steps come between any two
reads.

Pages are read from a moving index. The walk is described by the log position its first page was
anchored at and the entries of that moment: every transaction the walk has passed either has an event
after the anchor, which decides it in the end, or was read as it was at the anchor
(`Passes.covered`). `snapshot_walk_converges` puts the two together.
-/

namespace Zinder.Mempool

open LogHolds (envelopesFrom)
open List
open KeyedLog Stateful

/-! ## The client -/

def streamCursorFromMessageBytes (bytes : Bytes) : Option StreamCursorTokenV1 :=
  if bytes = [] then none else some ⟨bytes⟩

/-- Reads events until a read returns none or fails. The result is missing when the reads run out. -/
def Consumer.drain (E : LogEnv) (rows : MempoolRows) (maxEvents : Nat) :
    Nat → Consumer → Option (Consumer × Option MempoolLogError)
  | 0, _ => none
  | reads + 1, c =>
    match mempoolEventHistory E rows c.resume maxEvents with
    | .error e => some (c, some e)
    | .ok [] => some (c, none)
    | .ok (first :: rest) => drain E rows maxEvents reads (c.receive (first :: rest))

/-- A client's walk: the pages so far, the cursor of the next page, whether it was the last one, and
the event consumer that starts at the first page's resume cursor. `steady` marks the transactions
that were in the index all the time since the first page. -/
structure SnapshotWalk where
  pages : List (List MempoolEntry)
  nextCursor : Bytes
  finished : Bool
  consumer : Consumer
  steady : TransactionId → Bool

namespace SnapshotWalk

def new : SnapshotWalk := ⟨[], [], false, ⟨none, []⟩, fun _ => true⟩

def takePage (index : MempoolIndex) (page : LiveMempoolSnapshotPage) (walk : SnapshotWalk) :
    SnapshotWalk where
  pages := walk.pages ++ [page.entries]
  nextCursor := page.nextCursor
  finished := page.nextCursor.isEmpty
  consumer := if walk.pages = [] then ⟨streamCursorFromMessageBytes page.eventsResumeCursor, []⟩
    else walk.consumer
  steady := fun id => walk.steady id && index.isInMempool id

/-- The index moved while the walk is going on. -/
def observe (index : MempoolIndex) (walk : SnapshotWalk) : SnapshotWalk :=
  if walk.pages = [] ∨ walk.finished = true then walk
  else { walk with steady := fun id => walk.steady id && index.isInMempool id }

def pageIds (walk : SnapshotWalk) : List TransactionId :=
  walk.pages.flatten.map MempoolEntry.transactionId

def pageChanges (walk : SnapshotWalk) : List (Change TransactionId MempoolEntry) :=
  walk.pages.flatten.map fun e => ⟨e.transactionId, some e⟩

/-- The client's mempool: the pages merged, then the events applied in order. -/
def entries (walk : SnapshotWalk) : TransactionId → Option MempoolEntry :=
  replay (walk.pageChanges ++ changes (walk.consumer.delivered.map MempoolEventEnvelope.observed))

end SnapshotWalk

structure WalkState where
  state : OwnerState
  walk : SnapshotWalk

/-! ## Serving periods -/

/-- A step of the owner in a serving period in which append replies arrive: a source transition that
returned, or whose request was settled, a retention step, or a queued command. -/
inductive PeriodStep (E : LogEnv) : OwnerState → OwnerState → Prop where
  | transition (s : OwnerState) (event : MempoolEvent) (observedAt : U64)
      (script : List RequestScript) {sourceTip : BlockId} {certifiedAt : U64}
      (hserving : s.owner.status = .serving sourceTip certifiedAt)
      (hreplies : (((OwnerOperation.applyEvent event observedAt).program E).exec
        (s.system script)).1 = .ok () ∨ ∀ r ∈ script, r.fate.Settled) :
    PeriodStep E s (s.operate E (.applyEvent event observedAt) script)
  | prune (s : OwnerState) (now : U64) (retention : MempoolEventRetentionConfig)
      (budget : MempoolEventRetentionStepBudget) (script : List RequestScript) :
    PeriodStep E s (s.prune E now retention budget script)
  | carryOut (s : OwnerState) (reply : WriteReply) :
    PeriodStep E s { s with writer := s.writer.carryOutQueued E [reply] }

/-- The owner moves, the client reads the next page of its walk, or it reads events after the resume
cursor. -/
inductive WalkStep (E : LogEnv) : WalkState → WalkState → Prop where
  | owner {state state' : OwnerState} (walk : SnapshotWalk) (hstep : PeriodStep E state state') :
    WalkStep E ⟨state, walk⟩ ⟨state', walk.observe state'.owner.index⟩
  | page (w : WalkState) (visibleTip : BlockId) (now : U64) (requested : Nat)
      (script : List RequestScript) {page : LiveMempoolSnapshotPage} {t : OwnerSystem}
      (hunfinished : w.walk.finished = false)
      (hpage : (liveSnapshotPage E visibleTip now (boundedSnapshotPageSize requested)
        w.walk.nextCursor).exec (w.state.system script) = (.ok page, t)) :
    WalkStep E w ⟨{ w.state with writer := t.writer }, w.walk.takePage w.state.owner.index page⟩
  | events (w : WalkState) {maxEvents : Nat} {page : List MempoolEventEnvelope}
      (hstarted : w.walk.pages ≠ []) (hmax : 0 < maxEvents)
      (hread : mempoolEventHistory E w.state.writer.store.rows w.walk.consumer.resume maxEvents =
        .ok page) :
    WalkStep E w { w with walk := { w.walk with consumer := w.walk.consumer.receive page } }

/-- A serving state that any run can reach, with no append left in the writer's queue. -/
structure PeriodStart (E : LogEnv) (s : OwnerState) : Prop where
  reachable : OwnerReachable E (fun _ => True) s
  serving : ∃ sourceTip certifiedAt, s.owner.status = .serving sourceTip certifiedAt
  queue : ∀ command ∈ s.writer.queue, command.IsPrune

def WalkReachable (E : LogEnv) (w : WalkState) : Prop :=
  ∃ s, PeriodStart E s ∧ Relation.ReflTransGen (WalkStep E) ⟨s, .new⟩ w

variable {E : LogEnv}

/-! ## Steps of the owner -/

/-- What a step of a serving period does to the log and the index. -/
structure PeriodMove (E : LogEnv) (s s' : OwnerState) : Prop where
  quiet : QuietWriter E s'.writer
  ownIds : s'.owner.index.OwnIds
  moved : (s'.writer.log = s.writer.log ∧ s'.owner.index = s.owner.index) ∨
    ∃ event : ObservedEvent, s'.writer.log = s.writer.log ++ [event] ∧
      s'.owner.index.entryMap = event.1.change.apply s.owner.index.entryMap

variable {w : WalkState} {anchor : Nat} {maxEvents : Nat} {after : Option TransactionId}
  {s : OwnerSystem} {m₀ : TransactionId → Option MempoolEntry} {n : Nat}

theorem transition_moves {s : OwnerState} (hquiet : QuietWriter E s.writer)
    (hids : s.owner.index.OwnIds) (event : MempoolEvent) (observedAt : U64)
    (script : List RequestScript) {sourceTip : BlockId} {certifiedAt : U64}
    (hserving : s.owner.status = .serving sourceTip certifiedAt)
    (hreplies : (((OwnerOperation.applyEvent event observedAt).program E).exec
      (s.system script)).1 = .ok () ∨ ∀ r ∈ script, r.fate.Settled) :
    PeriodMove E s (s.operate E (.applyEvent event observedAt) script) := by
  have hspec : Triple (fun t => t = s.system script)
      ((OwnerOperation.applyEvent event observedAt).program E)
      (fun _ t => PeriodMove E s ⟨t.writer, t.owner, none⟩)
      (fun _ t => (∀ r ∈ script, r.fate.Settled) → PeriodMove E s ⟨t.writer, t.owner, none⟩) := by
    have hstay : ∀ (w : Writer) (status : MempoolOwnerStatus), QuietWriter E w →
        w.log = s.writer.log →
        PeriodMove E s ⟨w, { s.owner with status }, none⟩ := fun w status hw hlog =>
      ⟨hw, hids, .inl ⟨hlog, rfl⟩⟩
    refine Triple.bind (Q := fun _ t => PeriodMove E s ⟨t.writer, t.owner, none⟩) ?_ fun _ =>
      Triple.ret fun _ h => h
    refine Triple.get_bind ?_
    rintro t rfl
    have hstatus : (s.system script).owner.status = .serving sourceTip certifiedAt := hserving
    rw [hstatus]
    refine Triple.get_bind ?_
    rintro t rfl
    change Triple _ (preflightOrRebuild s.owner.index event _ >>= _) _ _
    cases hpreflight : s.owner.index.preflightEvent event with
    | error error =>
      rw [preflightOrRebuild, hpreflight]
      refine Triple.bind (Q := fun _ _ => False) ?_ fun _ _ hfalse => hfalse.elim
      rintro t rfl _
      exact hstay s.writer .rebuildRequired hquiet rfl
    | ok p =>
      refine Triple.bind (Triple.noFail (preflight_passes hpreflight _ (s.system script))) fun p' =>
        Triple.of_states ?_
      rintro t ⟨rfl, rfl⟩
      cases p' with
      | noChange =>
        refine Triple.ret ?_
        rintro t rfl
        exact hstay s.writer s.owner.status hquiet rfl
      | apply =>
        refine Triple.bind (Triple.handle (append_exchange (s := s.system script)
          (answersAppend_appendEvent (event, observedAt))
            hquiet) ?_) fun envelope => Triple.of_states ?_
        · rintro e t ⟨w, rfl, _, _, hknown⟩ hsettled
          have hfate : (s.system script).nextScript.fate.Settled := by
            change (script.headD .prompt).fate.Settled
            cases script with
            | nil => exact trivial
            | cons r rest => exact hsettled r mem_cons_self
          obtain ⟨hw, hlog⟩ := hknown (.inr hfate)
          exact hstay w s.owner.status hw (by rw [hlog]; exact append_nil _)
        · rintro t ⟨_, w, rfl, _, _, htold⟩
          obtain ⟨hw, hlog⟩ := htold (.inl rfl)
          refine Triple.bind (Triple.noFail (applyOrRebuild_applied
            (s := { s.system script with writer := w, script := (s.system script).script.tail })
            (applyToIndex_of_preflight hpreflight _).1 _)) fun _ => Triple.ret ?_
          rintro t rfl
          exact ⟨hw, ownIds_applyToIndex hids event _,
            .inr ⟨(event, observedAt), hlog, (applyToIndex_of_preflight hpreflight _).2⟩⟩
  have hends := hspec _ rfl
  unfold OwnerState.operate
  rcases hrun : ((OwnerOperation.applyEvent event observedAt).program E).exec (s.system script) with
    ⟨r, t⟩
  rw [hrun] at hends hreplies
  cases r with
  | ok u => exact hends
  | error e =>
    rcases hreplies with hok | hsettled
    · cases hok
    · exact hends hsettled

theorem PeriodStep.moves {s s' : OwnerState} (h : PeriodStep E s s')
    (hquiet : QuietWriter E s.writer)
    (hids : s.owner.index.OwnIds) : PeriodMove E s s' := by
  cases h with
  | transition event observedAt script hserving hreplies =>
    exact transition_moves hquiet hids event observedAt script hserving hreplies
  | prune now retention budget script =>
    obtain ⟨hw, hlog⟩ := hquiet.pruneRequest now retention budget (s.system script).nextScript
    exact ⟨hw, hids, .inl ⟨hlog, rfl⟩⟩
  | carryOut reply =>
    obtain ⟨hw, hlog⟩ := hquiet.carryOutQueued [reply]
    exact ⟨hw, hids, .inl ⟨hlog, rfl⟩⟩

/-! ## Page reads -/

/-- The event a walk is anchored at when its first page is read behind `n` events. -/
def anchorAt (log : List ObservedEvent) : Nat → Option MempoolEventPosition
  | 0 => none
  | n + 1 => log[n]?.map fun o => ⟨n + 1, o.1.transactionId⟩

theorem anchorAt_append {log : List ObservedEvent} (hn : n ≤ log.length)
    (more : List ObservedEvent) : anchorAt (log ++ more) n = anchorAt log n := by
  cases n with
  | zero => rfl
  | succ n => rw [anchorAt, anchorAt, getElem?_append_left hn]

theorem anchorAt_sequence {log : List ObservedEvent} {p : MempoolEventPosition}
    (h : anchorAt log n = some p) : p.eventSequence = n ∧ 0 < n ∧ n ≤ log.length := by
  cases n with
  | zero => cases h
  | succ n =>
    rw [anchorAt, Option.map_eq_some_iff] at h
    obtain ⟨o, ho, rfl⟩ := h
    exact ⟨rfl, Nat.succ_pos n, (List.getElem?_eq_some_iff.mp ho).1⟩

section Begin

variable {rows : MempoolRows} {log : List ObservedEvent} {floor : Nat}

theorem read_newest (h : LogHolds E rows log floor) (hlength : log.length ≠ 0) :
    ∃ e, readMempoolEvent E rows log.length = .ok e ∧
      some e.position = anchorAt log log.length := by
  have hne : log ≠ [] := fun hnil => hlength (by rw [hnil]; rfl)
  obtain ⟨n, hn⟩ := Nat.exists_eq_succ_of_ne_zero hlength
  obtain ⟨o, ho⟩ : ∃ o, log[n]? = some o := ⟨_, getElem?_eq_getElem (by omega)⟩
  have hread := h.read (s := n + 1) (o := o)
    (by rw [← Nat.succ_eq_add_one, ← hn]; exact h.floor_le_length hne) ho
  rw [hn, anchorAt, ho]
  exact ⟨_, hread, rfl⟩

theorem begin_new_walk (h : LogHolds E rows log floor) :
    beginMempoolSnapshot E rows [] = .ok
      ⟨none, anchorAt log log.length, (anchorAt log log.length).map fun anchor =>
        .mempoolEvent E.authority anchor.eventSequence anchor.transactionId⟩ := by
  simp only [beginMempoolSnapshot, h.currentSequence, ok_bind, if_true]
  by_cases hlength : log.length = 0
  · rw [if_pos hlength, hlength]
    rfl
  · obtain ⟨e, hread, hanchor⟩ := read_newest h hlength
    rw [if_neg hlength, hread, ← hanchor]
    rfl

theorem snapshotPage_bytes_ne_nil (A : CursorAuthority) (anchor : Option MempoolEventPosition)
    (after : TransactionId) : (StreamCursorTokenV1.snapshotPage A anchor after).bytes ≠ [] := by
  simp [StreamCursorTokenV1.snapshotPage, sign, cursorBody]

theorem mempoolEvent_bytes_ne_nil (A : CursorAuthority) (sequence : Nat) (id : TransactionId) :
    (StreamCursorTokenV1.mempoolEvent A sequence id).bytes ≠ [] := by
  simp [StreamCursorTokenV1.mempoolEvent, sign, cursorBody]

theorem begin_next_page (h : LogHolds E rows log floor) {n : Nat} (hn : n ≤ log.length)
    (after : TransactionId) :
    beginMempoolSnapshot E rows
        (StreamCursorTokenV1.snapshotPage E.authority (anchorAt log n) after).bytes = .ok
      ⟨some after, anchorAt log n, (anchorAt log n).map fun anchor =>
        .mempoolEvent E.authority anchor.eventSequence anchor.transactionId⟩ := by
  have hdecode : (StreamCursorTokenV1.snapshotPage E.authority (anchorAt log n)
      after).decodeSnapshotPage E.authority = .ok ⟨anchorAt log n, after⟩ := by
    refine decodeSnapshotPage_snapshotPage fun p hp => ?_
    obtain ⟨hsequence, hpos, _⟩ := anchorAt_sequence hp
    have := h.length_lt
    exact ⟨by omega, by omega⟩
  have hsequence : ¬ ((anchorAt log n).map (·.eventSequence)).getD 0 > log.length := by
    cases hanchor : anchorAt log n with
    | none => exact Nat.not_lt_zero _
    | some p =>
      change ¬ p.eventSequence > log.length
      rw [(anchorAt_sequence hanchor).1]
      omega
  simp only [beginMempoolSnapshot, h.currentSequence, ok_bind,
    if_neg (snapshotPage_bytes_ne_nil E.authority (anchorAt log n) after), hdecode, Except.mapError,
    rejectIf_of_not hsequence]
  by_cases hlength : log.length = 0
  · rw [if_pos hlength]
  · obtain ⟨e, hread, _⟩ := read_newest h hlength
    rw [if_neg hlength, hread]
    rfl

end Begin

theorem read_exchange {α : Type} {read : MempoolRows → Except MempoolLogError α}
    (hquiet : QuietWriter E s.writer) :
    Triple (fun t => t = s) (exchange (Writer.requestRead E read))
      (fun a t => ∃ w, t = { s with writer := w, script := s.script.tail } ∧ QuietWriter E w ∧
        w.log = s.writer.log ∧ read w.store.rows = .ok a)
      (fun _ _ => True) := by
  refine exchange_triple ?_
  rintro t rfl
  obtain ⟨hw, hlog⟩ := hquiet.carryOutQueued t.nextScript.earlier
  unfold Writer.requestRead
  cases t.nextScript.fate with
  | queueFull => trivial
  | writerGone => trivial
  | lost reply => trivial
  | late => trivial
  | answered reply =>
    dsimp only
    cases hread : read (t.writer.carryOutQueued E t.nextScript.earlier).store.rows with
    | error e => trivial
    | ok a => exact ⟨_, rfl, hw, hlog, hread⟩

/-- What a page that was returned says about the index and the log. -/
structure PageRead (E : LogEnv) (s : OwnerSystem) (maxEntries : Nat) (fromCursor : Bytes)
    (page : LiveMempoolSnapshotPage) (t : OwnerSystem) : Prop where
  quiet : QuietWriter E t.writer
  log : t.writer.log = s.writer.log
  start : ∃ rows floor start, LogHolds E rows s.writer.log floor ∧
    beginMempoolSnapshot E rows fromCursor = .ok start ∧
    page.entries = (s.owner.index.snapshotPage maxEntries start.afterTransactionId).entries ∧
    page.eventsResumeCursor = (start.eventsResumeCursor.map StreamCursorTokenV1.bytes).getD [] ∧
    page.nextCursor = ((s.owner.index.snapshotPage maxEntries
      start.afterTransactionId).nextAfterTransactionId.map fun after =>
        (StreamCursorTokenV1.snapshotPage E.authority start.eventsResumeAnchor after).bytes).getD []

theorem liveSnapshotPage_reads (hquiet : QuietWriter E s.writer) (visibleTip : BlockId) (now : U64)
    (maxEntries : Nat) (fromCursor : Bytes) :
    Triple (fun t => t = s) (liveSnapshotPage E visibleTip now maxEntries fromCursor)
      (fun page t => PageRead E s maxEntries fromCursor page t) (fun _ _ => True) := by
  refine Triple.get_bind ?_
  rintro t rfl
  split
  · exact Triple.fail fun _ _ => trivial
  · refine Triple.bind (read_exchange hquiet) fun start => Triple.of_states ?_
    rintro u ⟨w, rfl, hw, hlog, hstart⟩
    obtain ⟨floor, hstore⟩ := hw.store
    have hrows : LogHolds E w.store.rows t.writer.log floor := by
      rw [← hlog]
      exact hstore.rows
    dsimp only
    cases hnext : (t.owner.index.snapshotPage maxEntries
        start.afterTransactionId).nextAfterTransactionId with
    | none =>
      refine Triple.bind (Q := fun next u => next = [] ∧ u = { t with
        writer := w, script := t.script.tail }) (Triple.ret fun u hu => ⟨rfl, hu⟩) fun next =>
        Triple.ret ?_
      rintro u ⟨rfl, rfl⟩
      exact ⟨hw, hlog, w.store.rows, floor, start, hrows, hstart, rfl, rfl, by rw [hnext]; rfl⟩
    | some after =>
      refine Triple.bind (Triple.bind (read_exchange (s := { t with
        writer := w, script := t.script.tail }) hw) fun cursor => Triple.ret
        (Q := fun next (u : OwnerSystem) => next = (StreamCursorTokenV1.snapshotPage E.authority
          start.eventsResumeAnchor after).bytes ∧ QuietWriter E u.writer ∧
          u.writer.log = t.writer.log) ?_) fun next => Triple.ret ?_
      · rintro u ⟨w', rfl, hw', hlog', hcursor⟩
        cases hcursor
        exact ⟨rfl, hw', hlog'.trans hlog⟩
      · rintro u ⟨rfl, hu, hulog⟩
        exact ⟨hu, hulog, w.store.rows, floor, start, hrows, hstart, rfl, rfl, by rw [hnext]; rfl⟩

/-! ## Merging pages -/

variable (walk : SnapshotWalk) (index : MempoolIndex)

/-- Whether the walk is past an id: behind its position nothing has been read yet. -/
def SnapshotWalk.Passed (after : Option TransactionId) (id : TransactionId) : Prop :=
  walk.finished = true ∨ ¬ Behind after id

/-- The pages so far, for the ids the walk has passed: each is as it was at the start of the walk
(`m₀`) or has changed since (`keys`). -/
structure Passes (walk : SnapshotWalk) (after : Option TransactionId) (keys : List TransactionId)
    (m₀ : TransactionId → Option MempoolEntry) : Prop where
  covered : ∀ id, walk.Passed after id → id ∈ keys ∨ replay walk.pageChanges id = m₀ id
  ahead : walk.finished = false → ∀ id, Behind after id → id ∉ walk.pageIds
  once : ∀ id, walk.Passed after id → walk.steady id = true → walk.pageIds.count id = 1

section Pages

variable {walk index} {keys : List TransactionId}

theorem passes_new (keys : List TransactionId) (m₀ : TransactionId → Option MempoolEntry) :
    Passes .new none keys m₀ := by
  have hnot : ∀ id, ¬ SnapshotWalk.new.Passed none id := by
    rintro id (hfinished | hbehind)
    · cases hfinished
    · exact hbehind (behind_none id)
  exact ⟨fun id hid => absurd hid (hnot id), fun _ _ _ => not_mem_nil,
    fun id hid => absurd hid (hnot id)⟩

theorem Passes.mono (h : Passes walk after keys m₀) {keys' : List TransactionId}
    (hsub : ∀ id ∈ keys, id ∈ keys') : Passes walk after keys' m₀ :=
  ⟨fun id hid => (h.covered id hid).imp_left (hsub id), h.ahead, h.once⟩

theorem Passes.observe (h : Passes walk after keys m₀) (index : MempoolIndex) :
    Passes (walk.observe index) after keys m₀ := by
  unfold SnapshotWalk.observe
  split
  · exact h
  · refine ⟨h.covered, h.ahead, fun id hid hsteady => h.once id hid ?_⟩
    exact (Bool.and_eq_true_iff.mp hsteady).1

theorem untouched_pages {id : TransactionId} (h : id ∉ walk.pageIds) :
    replay walk.pageChanges id = none := by
  refine replayFrom_of_untouched ?_ _
  rw [SnapshotWalk.pageChanges, map_map]
  exact h

/-- The next page keeps the walk exact, whatever the index did since the last one. -/
theorem Passes.takePage (h : Passes walk after keys m₀) (hunfinished : walk.finished = false)
    (hids : index.OwnIds) (hindex : ∀ id, id ∉ keys → index.entryMap id = m₀ id) {n : Nat}
    (hn : 0 < n) {page : LiveMempoolSnapshotPage}
    (hentries : page.entries = (index.snapshotPage n after).entries)
    (hfinish : page.nextCursor.isEmpty =
      (index.snapshotPage n after).nextAfterTransactionId.isNone) :
    Passes (walk.takePage index page) (index.snapshotPage n after).nextAfterTransactionId keys m₀ := by
  have hnodup := MempoolIndex.nodup_page_ids hids n after
  have hpageIds : (walk.takePage index page).pageIds =
      walk.pageIds ++ (index.snapshotPage n after).entries.map MempoolEntry.transactionId := by
    simp [SnapshotWalk.pageIds, SnapshotWalk.takePage, hentries]
  have hchanges : (walk.takePage index page).pageChanges =
      walk.pageChanges ++ (index.snapshotPage n after).entries.map
        fun e => ⟨e.transactionId, some e⟩ := by
    simp [SnapshotWalk.pageChanges, SnapshotWalk.takePage, hentries]
  have hkept : ∀ id, id ∉ (index.snapshotPage n after).entries.map MempoolEntry.transactionId →
      replay (walk.takePage index page).pageChanges id = replay walk.pageChanges id := by
    intro id hid
    rw [hchanges, replay_append, replayFrom_of_untouched]
    rw [map_map]
    exact hid
  -- Up to the new position the page has every entry of the index.
  have hpage : ∀ e, (walk.takePage index page).Passed
      (index.snapshotPage n after).nextAfterTransactionId e.transactionId →
      Behind after e.transactionId → index.entryMap e.transactionId = some e →
      e ∈ (index.snapshotPage n after).entries := by
    intro e hpassed hbehind he
    refine MempoolIndex.page_complete hids hn he hbehind (hpassed.imp_left fun hfinished => ?_)
    exact Option.isNone_iff_eq_none.mp (hfinish.symm.trans hfinished)
  have hnotin : ∀ id, ¬ Behind after id →
      id ∉ (index.snapshotPage n after).entries.map MempoolEntry.transactionId := by
    intro id hbehind hmem
    obtain ⟨e, he, rfl⟩ := mem_map.mp hmem
    exact hbehind (MempoolIndex.listed_page hids he).2
  have hmerged : ∀ id, (walk.takePage index page).Passed
      (index.snapshotPage n after).nextAfterTransactionId id → Behind after id →
      replay (walk.takePage index page).pageChanges id = index.entryMap id := by
    intro id hpassed hbehind
    cases hlive : index.entryMap id with
    | some e =>
      cases hids id e hlive
      rw [hchanges, replay_append]
      refine replayFrom_of_mem (c := ⟨e.transactionId, some e⟩) ?_
        (mem_map.mpr ⟨e, hpage e hpassed hbehind hlive, rfl⟩) _
      rw [map_map]
      exact hnodup
    | none =>
      rw [hkept, untouched_pages (h.ahead hunfinished id hbehind)]
      intro hmem
      obtain ⟨e, he, rfl⟩ := mem_map.mp hmem
      rw [(MempoolIndex.listed_page hids he).1] at hlive
      cases hlive
  refine ⟨fun id hpassed => ?_, fun hmore id hbehind => ?_, fun id hpassed hsteady => ?_⟩
  · by_cases hbehind : Behind after id
    · rw [hmerged id hpassed hbehind]
      by_cases hkey : id ∈ keys
      · exact .inl hkey
      · exact .inr (hindex id hkey)
    · rw [hkept id (hnotin id hbehind)]
      exact h.covered id (.inr hbehind)
  · have hsome := hfinish.symm.trans hmore
    cases hnext : (index.snapshotPage n after).nextAfterTransactionId with
    | none =>
      rw [hnext] at hsome
      cases hsome
    | some a =>
      rw [hnext] at hbehind
      obtain ⟨hbehind', hnew⟩ := MempoolIndex.page_next hids hnext hbehind
      rw [hpageIds, mem_append, not_or]
      exact ⟨h.ahead hunfinished id hbehind', hnew⟩
  · obtain ⟨hsteady₀, hin⟩ := Bool.and_eq_true_iff.mp hsteady
    rw [hpageIds, count_append]
    by_cases hbehind : Behind after id
    · rw [isInMempool_eq] at hin
      obtain ⟨e, he⟩ := Option.isSome_iff_exists.mp hin
      cases hids id e he
      rw [count_eq_zero_of_not_mem (h.ahead hunfinished _ hbehind),
        count_eq_one_of_mem hnodup (mem_map_of_mem (hpage e hpassed hbehind he))]
    · rw [h.once id (.inr hbehind) hsteady₀, count_eq_zero_of_not_mem (hnotin id hbehind)]

end Pages

/-! ## Events after the resume cursor -/

/-- The consumer follows the log from the event behind the anchor. Without an anchor it starts at the
earliest retained event, and retention cuts safely. -/
def Resumes (E : LogEnv) (log : List ObservedEvent) (c : Consumer) (anchor : Nat) : Prop :=
  ∃ first, Follows E log c first ∧ (first = some (anchor + 1) ∨
    anchor = 0 ∧ ∀ f, first = some f → CutSafe (changes log) (f - 1))

section Resuming

variable {log : List ObservedEvent} {c : Consumer} {anchor : Nat}

theorem Follows.first_le {f : Nat} (h : Follows E log c (some f)) : f - 1 ≤ log.length := by
  cases h with
  | @following _ s o hfirst hle hs ho =>
    have := (List.getElem?_eq_some_iff.mp ho).1
    omega

theorem Resumes.append (h : Resumes E log c anchor) (more : List ObservedEvent) :
    Resumes E (log ++ more) c anchor := by
  obtain ⟨first, hfollows, hfirst⟩ := h
  refine ⟨first, hfollows.append more, hfirst.imp_right fun ⟨hzero, hsafe⟩ => ⟨hzero, ?_⟩⟩
  rintro f rfl
  rw [changes_append]
  refine (hsafe f rfl).append ?_
  rw [length_changes]
  exact hfollows.first_le

theorem Resumes.read {rows : MempoolRows} {floor : Nat} (hrows : LogHolds E rows log floor)
    (h : Resumes E log c anchor) {maxEvents : Nat} (hmax : 0 < maxEvents)
    {page : List MempoolEventEnvelope}
    (hread : mempoolEventHistory E rows c.resume maxEvents = .ok page) :
    Resumes E log (c.receive page) anchor := by
  obtain ⟨first, hfollows, hfirst⟩ := h
  refine ⟨_, hfollows.read hrows hmax hread, ?_⟩
  by_cases hnil : page = []
  · rw [if_pos hnil]
    exact hfirst
  · rw [if_neg hnil]
    rcases hfirst with rfl | ⟨hzero, hsafe⟩
    · exact .inl rfl
    · refine .inr ⟨hzero, fun f hf => ?_⟩
      cases first with
      | some f' => exact hsafe f hf
      | none =>
        cases hf
        exact hrows.safe

theorem resumes_anchor (E : LogEnv) (log : List ObservedEvent) :
    Resumes E log ⟨streamCursorFromMessageBytes (((anchorAt log log.length).map fun anchor =>
      StreamCursorTokenV1.mempoolEvent E.authority anchor.eventSequence anchor.transactionId).map
        StreamCursorTokenV1.bytes |>.getD []), []⟩ log.length := by
  cases hlength : log.length with
  | zero => exact ⟨none, .waiting, .inr ⟨rfl, fun f hf => (by cases hf)⟩⟩
  | succ n =>
    obtain ⟨o, ho⟩ : ∃ o, log[n]? = some o := ⟨_, getElem?_eq_getElem (by omega)⟩
    refine ⟨some (n + 1 + 1), ?_, .inl rfl⟩
    rw [anchorAt, ho]
    have hrun := Follows.following (E := E) (Nat.succ_pos (n + 1)) (Nat.le_refl (n + 1 + 1))
      (Nat.succ_pos n) ho
    rw [Nat.sub_self, take_zero] at hrun
    change Follows E log ⟨streamCursorFromMessageBytes (StreamCursorTokenV1.mempoolEvent E.authority
      (n + 1) o.1.transactionId).bytes, []⟩ _
    rw [streamCursorFromMessageBytes, if_neg (mempoolEvent_bytes_ne_nil _ _ _)]
    exact hrun

end Resuming

/-! ## The walk as a whole -/

/-- A walk whose first page was read behind `anchor` events, when the index had `m₀`. -/
structure WalkProgress (E : LogEnv) (w : WalkState) (anchor : Nat)
    (m₀ : TransactionId → Option MempoolEntry) (after : Option TransactionId) : Prop where
  le : anchor ≤ w.state.writer.log.length
  synced : w.state.owner.index.entryMap =
    replayFrom m₀ (changes (w.state.writer.log.drop anchor))
  passes : Passes w.walk after ((changes (w.state.writer.log.drop anchor)).map Change.key) m₀
  fresh : anchor = 0 → (m₀ = fun _ => none) ∧ w.walk.finished = true ∧ w.walk.pages.flatten = []
  cursor : w.walk.finished = false → ∃ a, after = some a ∧ w.walk.nextCursor =
    (StreamCursorTokenV1.snapshotPage E.authority (anchorAt w.state.writer.log anchor) a).bytes
  resumes : Resumes E w.state.writer.log w.walk.consumer anchor

/-- Before its first page a walk knows nothing; from then on it makes progress. -/
structure WalkInvariant (E : LogEnv) (w : WalkState) : Prop where
  quiet : QuietWriter E w.state.writer
  ownIds : w.state.owner.index.OwnIds
  waiting : w.walk.pages = [] → w.walk = .new ∧
    (w.state.writer.log = [] → w.state.owner.index.entryMap = fun _ => none)
  walking : w.walk.pages ≠ [] → ∃ anchor m₀ after, WalkProgress E w anchor m₀ after

theorem PeriodStart.walkInvariant {s : OwnerState} (h : PeriodStart E s) :
    WalkInvariant E ⟨s, .new⟩ := by
  have hframe := h.reachable.frame
  exact ⟨⟨hframe.reachable.invariant, h.queue⟩, hframe.ownIds,
    fun _ => ⟨rfl, fun hnil => funext (hframe.started hnil)⟩, fun hne => absurd rfl hne⟩

theorem SnapshotWalk.observe_of_pages_nil {walk : SnapshotWalk} (h : walk.pages = [])
    (index : MempoolIndex) : walk.observe index = walk := if_pos (.inl h)

theorem SnapshotWalk.exists_observe : ∃ steady, walk.observe index = { walk with steady } := by
  unfold observe
  split
  · exact ⟨walk.steady, rfl⟩
  · exact ⟨_, rfl⟩

theorem WalkProgress.owner {state state' : OwnerState} {walk : SnapshotWalk}
    (h : WalkProgress E ⟨state, walk⟩ anchor m₀ after) (hmove : PeriodMove E state state') :
    WalkProgress E ⟨state', walk.observe state'.owner.index⟩ anchor m₀ after := by
  obtain ⟨hle, hsynced, hpasses, hfresh, hcursor, hresumes⟩ := h
  have hpasses' := hpasses.observe state'.owner.index
  obtain ⟨steady, hobserve⟩ := walk.exists_observe state'.owner.index
  rw [hobserve] at hpasses' ⊢
  dsimp only at hle hsynced hpasses' hfresh hcursor hresumes
  rcases hmove.moved with ⟨hlog, hindex⟩ | ⟨event, hlog, hentries⟩
  · rw [← hlog] at hle hsynced hpasses' hcursor hresumes
    rw [← hindex] at hsynced
    exact ⟨hle, hsynced, hpasses', hfresh, hcursor, hresumes⟩
  · -- The new event touches one id: it is decided by the replay from now on.
    have hdrop : changes (state'.writer.log.drop anchor) =
        changes (state.writer.log.drop anchor) ++ [event.1.change] := by
      rw [hlog, drop_append_of_le_length hle, changes_append]
      rfl
    refine ⟨?_, ?_, ?_, hfresh, ?_, ?_⟩
    · rw [hlog, length_append]
      exact Nat.le_add_right_of_le hle
    · rw [hdrop, hentries, hsynced, replayFrom_append]
      rfl
    · refine hpasses'.mono fun id hid => ?_
      rw [hdrop, map_append]
      exact mem_append_left _ hid
    · simp only [hlog, anchorAt_append hle]
      exact hcursor
    · rw [hlog]
      exact hresumes.append [event]

/-- A page returns no cursor when nothing follows it, and a page cursor otherwise. -/
theorem nextCursor_cases {A : CursorAuthority} {anchor : Option MempoolEventPosition}
    {next : Option TransactionId} {cursor : Bytes}
    (hcursor : cursor = (next.map fun after =>
      (StreamCursorTokenV1.snapshotPage A anchor after).bytes).getD []) :
    cursor.isEmpty = next.isNone ∧ (cursor.isEmpty = false →
      ∃ a, next = some a ∧ cursor = (StreamCursorTokenV1.snapshotPage A anchor a).bytes) := by
  subst hcursor
  cases next with
  | none => exact ⟨rfl, fun hmore => by cases hmore⟩
  | some a =>
    exact ⟨isEmpty_eq_false_iff.mpr (snapshotPage_bytes_ne_nil A anchor a), fun _ => ⟨a, rfl, rfl⟩⟩

theorem WalkInvariant.firstPage (h : WalkInvariant E w) (hpages : w.walk.pages = []) (hn : 0 < n)
    {page : LiveMempoolSnapshotPage} {script : List RequestScript} {t : OwnerSystem}
    (hread : PageRead E (w.state.system script) n w.walk.nextCursor page t) :
    ∃ after, WalkProgress E
      ⟨{ w.state with writer := t.writer }, w.walk.takePage w.state.owner.index page⟩
      w.state.writer.log.length w.state.owner.index.entryMap after := by
  obtain ⟨hnew, hstarted⟩ := h.waiting hpages
  obtain ⟨hquiet, hlog, rows, floor, start, hrows, hbegin, hentries, hresume, hcursor⟩ := hread
  change t.writer.log = w.state.writer.log at hlog
  change LogHolds E rows w.state.writer.log floor at hrows
  change page.entries = (w.state.owner.index.snapshotPage n _).entries at hentries
  rw [hnew, show SnapshotWalk.new.nextCursor = [] from rfl, begin_new_walk hrows] at hbegin
  cases hbegin
  change page.nextCursor =
    ((w.state.owner.index.snapshotPage n none).nextAfterTransactionId.map _).getD [] at hcursor
  obtain ⟨hfinish, hnext⟩ := nextCursor_cases hcursor
  refine ⟨(w.state.owner.index.snapshotPage n none).nextAfterTransactionId,
    ⟨Nat.le_of_eq (congrArg List.length hlog.symm), ?_, ?_, ?_, ?_, ?_⟩⟩
  · change _ = replayFrom _ (changes (t.writer.log.drop _))
    rw [hlog, drop_length]
    rfl
  · rw [hnew]
    exact (passes_new _ _).takePage rfl h.ownIds (fun _ _ => rfl) hn hentries hfinish
  · intro hzero
    have hempty := hstarted (length_eq_zero_iff.mp hzero)
    have hnone : w.state.owner.index.entriesAfter none = [] := by
      refine eq_nil_iff_forall_not_mem.mpr fun e he => ?_
      have hlive := ((MempoolIndex.mem_entriesAfter h.ownIds).mp he).1
      rw [hempty] at hlive
      cases hlive
    refine ⟨hempty, ?_, ?_⟩
    · change page.nextCursor.isEmpty = true
      rw [hfinish, MempoolIndex.next_snapshotPage, hnone, length_nil,
        if_pos (Nat.zero_le n)]
      rfl
    · change (w.walk.pages ++ [page.entries]).flatten = []
      rw [hpages, hentries, MempoolIndex.entries_snapshotPage, hnone, take_nil]
      rfl
  · intro hmore
    simp only [hlog]
    exact hnext hmore
  · change Resumes E t.writer.log (if w.walk.pages = [] then _ else _) _
    rw [if_pos hpages, hlog, hresume]
    exact resumes_anchor E w.state.writer.log

theorem WalkProgress.nextPage (h : WalkProgress E w anchor m₀ after)
    (hids : w.state.owner.index.OwnIds) (hpages : w.walk.pages ≠ [])
    (hunfinished : w.walk.finished = false) (hn : 0 < n) {page : LiveMempoolSnapshotPage}
    {script : List RequestScript} {t : OwnerSystem}
    (hread : PageRead E (w.state.system script) n w.walk.nextCursor page t) :
    ∃ after', WalkProgress E
      ⟨{ w.state with writer := t.writer }, w.walk.takePage w.state.owner.index page⟩
      anchor m₀ after' := by
  obtain ⟨a, rfl, hnextCursor⟩ := h.cursor hunfinished
  obtain ⟨hquiet, hlog, rows, floor, start, hrows, hbegin, hentries, hresume, hcursor⟩ := hread
  change t.writer.log = w.state.writer.log at hlog
  change LogHolds E rows w.state.writer.log floor at hrows
  change page.entries = (w.state.owner.index.snapshotPage n _).entries at hentries
  rw [hnextCursor, begin_next_page hrows h.le] at hbegin
  cases hbegin
  obtain ⟨hfinish, hnext⟩ := nextCursor_cases hcursor
  refine ⟨(w.state.owner.index.snapshotPage n (some a)).nextAfterTransactionId,
    ⟨?_, ?_, ?_, ?_, ?_, ?_⟩⟩
  · change anchor ≤ t.writer.log.length
    rw [hlog]
    exact h.le
  · change _ = replayFrom _ (changes (t.writer.log.drop _))
    rw [hlog]
    exact h.synced
  · change Passes _ _ ((changes (t.writer.log.drop _)).map _) _
    rw [hlog]
    refine h.passes.takePage hunfinished hids (fun id hid => ?_) hn hentries hfinish
    rw [h.synced]
    exact replayFrom_of_untouched hid m₀
  · intro hzero
    cases hunfinished.symm.trans (h.fresh hzero).2.1
  · intro hmore
    simp only [hlog]
    exact hnext hmore
  · change Resumes E t.writer.log (if w.walk.pages = [] then _ else _) _
    rw [if_neg hpages, hlog]
    exact h.resumes

theorem WalkStep.keeps {w w' : WalkState} (hstep : WalkStep E w w') (h : WalkInvariant E w) :
    WalkInvariant E w' := by
  cases hstep with
  | @owner state state' walk hperiod =>
    have hmove := hperiod.moves h.quiet h.ownIds
    obtain ⟨steady, hobserve⟩ := walk.exists_observe state'.owner.index
    have hkept : (walk.observe state'.owner.index).pages = walk.pages := by rw [hobserve]
    refine ⟨hmove.quiet, hmove.ownIds, fun hpages => ?_, fun hpages => ?_⟩
    · rw [hkept] at hpages
      obtain ⟨hnew, hstarted⟩ := h.waiting hpages
      refine ⟨by rw [SnapshotWalk.observe_of_pages_nil hpages]; exact hnew, fun hnil => ?_⟩
      rcases hmove.moved with ⟨hlog, hindex⟩ | ⟨event, hlog, _⟩
      · rw [hindex]
        exact hstarted (hlog.symm.trans hnil)
      · cases append_ne_nil_of_right_ne_nil state.writer.log (cons_ne_nil event [])
          (hlog.symm.trans hnil)
    · rw [hkept] at hpages
      obtain ⟨anchor, m₀, after, hprogress⟩ := h.walking hpages
      exact ⟨anchor, m₀, after, hprogress.owner hmove⟩
  | @page _ visibleTip now requested script page t hunfinished hpage =>
    have hread := liveSnapshotPage_reads (s := w.state.system script) h.quiet visibleTip now
      (boundedSnapshotPageSize requested) w.walk.nextCursor _ rfl
    rw [hpage] at hread
    have hn := boundedSnapshotPageSize_pos requested
    refine ⟨hread.quiet, h.ownIds, fun hpages => ?_, fun _ => ?_⟩
    · cases (append_ne_nil_of_right_ne_nil w.walk.pages (cons_ne_nil page.entries [])) hpages
    · by_cases hpages : w.walk.pages = []
      · obtain ⟨after, hprogress⟩ := h.firstPage hpages hn hread
        exact ⟨_, _, after, hprogress⟩
      · obtain ⟨anchor, m₀, after, hprogress⟩ := h.walking hpages
        obtain ⟨after', hprogress'⟩ := hprogress.nextPage h.ownIds hpages hunfinished hn hread
        exact ⟨anchor, m₀, after', hprogress'⟩
  | @events _ maxEvents page hstarted hmax hread =>
    obtain ⟨floor, hstore⟩ := h.quiet.store
    refine ⟨h.quiet, h.ownIds, fun hpages => absurd hpages hstarted, fun hpages => ?_⟩
    obtain ⟨anchor, m₀, after, hprogress⟩ := h.walking hpages
    exact ⟨anchor, m₀, after, hprogress.le, hprogress.synced,
      ⟨hprogress.passes.covered, hprogress.passes.ahead, hprogress.passes.once⟩, hprogress.fresh,
      hprogress.cursor, hprogress.resumes.read hstore.rows hmax hread⟩

theorem WalkReachable.invariant (h : WalkReachable E w) : WalkInvariant E w := by
  obtain ⟨s, hstart, hrun⟩ := h
  induction hrun with
  | refl => exact hstart.walkInvariant
  | tail _ hstep ih => exact hstep.keeps ih

theorem WalkProgress.converges (h : WalkProgress E w anchor m₀ after)
    (hfinished : w.walk.finished = true) {first : Option Nat}
    (hfirst : first = some (anchor + 1) ∨ anchor = 0 ∧ ∀ f, first = some f →
      CutSafe (changes w.state.writer.log) (f - 1))
    (hhead : AtHead w.state.writer.log w.walk.consumer first) :
    w.walk.entries = w.state.owner.index.entryMap := by
  obtain ⟨n, hdelivered, hn⟩ := hhead
  rw [SnapshotWalk.entries, hdelivered, h.synced, replay_append]
  have hanchored : n = anchor → replayFrom (replay w.walk.pageChanges)
      (changes (w.state.writer.log.drop n)) =
        replayFrom m₀ (changes (w.state.writer.log.drop anchor)) := by
    rintro rfl
    funext id
    exact replayFrom_congr (h.passes.covered id (.inl hfinished))
  have hearliest : anchor = 0 → CutSafe (changes w.state.writer.log) n →
      replayFrom (replay w.walk.pageChanges) (changes (w.state.writer.log.drop n)) =
        replayFrom m₀ (changes (w.state.writer.log.drop anchor)) := by
    rintro rfl hsafe
    obtain ⟨rfl, _, hpages⟩ := h.fresh rfl
    rw [SnapshotWalk.pageChanges, hpages]
    exact liveEntries_drop hsafe
  rcases hn with ⟨rfl, hsafe⟩ | rfl
  · rcases hfirst with hfirst | ⟨hzero, _⟩
    · cases hfirst
    · exact hearliest hzero hsafe
  · rcases hfirst with hfirst | ⟨hzero, hsafe⟩
    · exact hanchored (Nat.succ.inj (Option.some.inj hfirst))
    · exact hearliest hzero (hsafe _ rfl)

theorem WalkInvariant.progress (h : WalkInvariant E w) (hfinished : w.walk.finished = true) :
    w.walk.pages ≠ [] ∧ ∃ anchor m₀ after, WalkProgress E w anchor m₀ after := by
  have hpages : w.walk.pages ≠ [] := by
    intro hnil
    rw [(h.waiting hnil).1] at hfinished
    cases hfinished
  exact ⟨hpages, h.walking hpages⟩

/-- What the client knows at the outcome of a read. -/
def Converged (w : WalkState) : Option MempoolLogError → Prop
  | none => w.walk.entries = w.state.owner.index.entryMap
  | some e => (∃ sequence oldest, e = .mempoolEventCursorExpired sequence oldest) ∨
      w.walk.entries = w.state.owner.index.entryMap

section

variable (h : WalkReachable E w) (hfinished : w.walk.finished = true)
include h hfinished

/-- A finished walk whose consumer has caught up with the log has the owner's entries. -/
theorem WalkReachable.follows : ∃ first floor,
    Follows E w.state.writer.log w.walk.consumer first ∧
      LogHolds E w.state.writer.store.rows w.state.writer.log floor ∧
      (AtHead w.state.writer.log w.walk.consumer first →
        w.walk.entries = w.state.owner.index.entryMap) := by
  obtain ⟨_, anchor, m₀, after, hprogress⟩ := h.invariant.progress hfinished
  obtain ⟨first, hfollows, hfirst⟩ := hprogress.resumes
  obtain ⟨floor, hstore⟩ := h.invariant.quiet.store
  exact ⟨first, floor, hfollows, hstore.rows, hprogress.converges hfinished hfirst⟩

/-- Reading on ends: every page that is not empty adds events of the log. -/
theorem WalkReachable.drain (hmax : 0 < maxEvents) {reads : Nat}
    (hreads : w.state.writer.log.length < w.walk.consumer.delivered.length + reads) :
    ∃ consumer outcome, w.walk.consumer.drain E w.state.writer.store.rows maxEvents reads =
        some (consumer, outcome) ∧
      Converged { w with walk := { w.walk with consumer } } outcome := by
  induction reads generalizing w with
  | zero =>
    obtain ⟨first, _, hfollows, _⟩ := h.follows hfinished
    have := hfollows.length_delivered_le
    omega
  | succ reads ih =>
    obtain ⟨first, floor, hfollows, hrows, hconverges⟩ := h.follows hfinished
    unfold Consumer.drain
    cases hread : mempoolEventHistory E w.state.writer.store.rows w.walk.consumer.resume maxEvents with
    | error e => exact ⟨_, _, rfl, (hfollows.read_error hrows hmax hread).imp_right hconverges⟩
    | ok page =>
      cases page with
      | nil => exact ⟨_, _, rfl, hconverges (hfollows.atHead_of_empty hrows hmax hread)⟩
      | cons event rest =>
        have hpages := (h.invariant.progress hfinished).1
        obtain ⟨s, hstart, hrun⟩ := h
        refine ih ⟨s, hstart, hrun.tail (.events w hpages hmax hread)⟩ hfinished ?_
        change w.state.writer.log.length < (w.walk.consumer.delivered ++ event :: rest).length + reads
        rw [length_append, length_cons]
        omega

end

/-- Snapshot plus stream. A client that has read the last page of its walk and reads events until
none is left has exactly the owner's transactions, or its read meets the expired error. A read can
fail otherwise only when the log has used up the sequence numbers, and then no event is left either.
Every transaction that was in the mempool during the whole walk is on one page. -/
theorem snapshot_walk_converges (E : LogEnv) {w : WalkState} (h : WalkReachable E w)
    (hfinished : w.walk.finished = true) {maxEvents : Nat} (hmax : 0 < maxEvents) {reads : Nat}
    (hreads : w.state.writer.log.length < reads) :
    (∃ consumer outcome, w.walk.consumer.drain E w.state.writer.store.rows maxEvents reads =
        some (consumer, outcome) ∧
      Converged { w with walk := { w.walk with consumer } } outcome) ∧
      ∀ id, w.walk.steady id = true → w.walk.pageIds.count id = 1 := by
  obtain ⟨_, anchor, m₀, after, hprogress⟩ := h.invariant.progress hfinished
  exact ⟨h.drain hfinished hmax (Nat.lt_add_left _ hreads),
    fun id hid => hprogress.passes.once id (.inl hfinished) hid⟩

def WalkState.nextPage (E : LogEnv) (requested : Nat) (w : WalkState) : WalkState :=
  match (liveSnapshotPage E sampleTip 0 (boundedSnapshotPageSize requested) w.walk.nextCursor).exec
    (w.state.system []) with
  | (.ok page, t) =>
    ⟨{ w.state with writer := t.writer }, w.walk.takePage w.state.owner.index page⟩
  | (.error _, _) => w

theorem WalkReachable.nextPage (h : WalkReachable E w) (hunfinished : w.walk.finished = false)
    (requested : Nat) :
    WalkReachable E (w.nextPage E requested) := by
  unfold WalkState.nextPage
  rcases hrun : (liveSnapshotPage E sampleTip 0 (boundedSnapshotPageSize requested)
    w.walk.nextCursor).exec (w.state.system []) with ⟨r, t⟩
  cases r with
  | error e => exact h
  | ok page =>
    obtain ⟨s, hstart, hwalk⟩ := h
    exact ⟨s, hstart, hwalk.tail (.page w sampleTip 0 requested [] hunfinished hrun)⟩

def WalkState.transition (E : LogEnv) (event : MempoolEvent) (w : WalkState) : WalkState :=
  ⟨w.state.operate E (.applyEvent event 0) [],
    w.walk.observe (w.state.operate E (.applyEvent event 0) []).owner.index⟩

theorem WalkReachable.transition (h : WalkReachable E w)
    (hserving : w.state.owner.status = .serving sampleTip 0) (event : MempoolEvent) :
    WalkReachable E (w.transition E event) := by
  obtain ⟨s, hstart, hwalk⟩ := h
  refine ⟨s, hstart, hwalk.tail (.owner w.walk
    (.transition w.state event 0 [] hserving (.inr fun r hr => (by cases hr))))⟩

/-- Between two pages of one entry a transaction arrives whose id the walk has already passed. -/
def sampleWalk (E : LogEnv) : WalkState :=
  (((⟨(sampleStart E).operations E (sampleSnapshot [plainEntry (byteId 1) [],
    plainEntry (byteId 2) []]), .new⟩ : WalkState).nextPage E 1).transition E
      (.added (plainEntry (byteId 0) []))).nextPage E 1

theorem snapshot_walk_converges_sample :
    let E := listedLogEnv [(.added (plainEntry (byteId 1) []), 0),
      (.added (plainEntry (byteId 2) []), 0), (.added (plainEntry (byteId 0) []), 0)]
    (sampleWalk E).walk.pageIds = [byteId 1, byteId 2] ∧ (sampleWalk E).walk.finished = true ∧
      (∃ consumer outcome, (sampleWalk E).walk.consumer.drain E
          (sampleWalk E).state.writer.store.rows 1 4 = some (consumer, outcome) ∧
        Converged { sampleWalk E with walk := { (sampleWalk E).walk with consumer } } outcome) ∧
      ∀ id, (sampleWalk E).walk.steady id = true → (sampleWalk E).walk.pageIds.count id = 1 := by
  intro E
  have hstart : PeriodStart E ((sampleStart E).operations E
      (sampleSnapshot [plainEntry (byteId 1) [], plainEntry (byteId 2) []])) := by
    refine ⟨(sampleStart_reachable E _).operations (by decide +kernel) _ fun _ _ _ _ => trivial,
      ⟨sampleTip, 0, by decide +kernel⟩, ?_⟩
    rw [show ((sampleStart E).operations E (sampleSnapshot [plainEntry (byteId 1) [],
      plainEntry (byteId 2) []])).writer.queue = [] from List.isEmpty_iff.mp (by decide +kernel)]
    intro command hcommand
    cases hcommand
  have hfirst : WalkReachable E _ := WalkReachable.nextPage ⟨_, hstart, .refl⟩ rfl 1
  have hmoved := hfirst.transition (by decide +kernel) (.added (plainEntry (byteId 0) []))
  have hwalk : WalkReachable E (sampleWalk E) := hmoved.nextPage (by decide +kernel) 1
  have hfinished : (sampleWalk E).walk.finished = true := by decide +kernel
  exact ⟨by decide +kernel, hfinished, snapshot_walk_converges E hwalk hfinished (Nat.succ_pos 0)
    (by decide +kernel)⟩

end Zinder.Mempool
