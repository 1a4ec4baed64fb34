import Zinder.Mempool.Reconciliation
import Zinder.Mempool.SourceEntry

/-!
# Zinder.Mempool.StagedReconciliation

Reconciliation with a snapshot that was staged event by event.

No removal collides, since the entries of a live page are live. An addition could only collide with
an entry that stayed live, and such an entry is in the snapshot under its own id, with the same
inputs; the snapshot's own preflights kept the inputs of its entries apart. So the whole sequence of
removals and additions is fixed before the first page is read.
-/

namespace Zinder.Mempool

open KeyedLog Stateful List

/-! ## Appends -/

/-- The statuses an append request fails with. -/
def AppendFailure (status : Status) : Prop :=
  status = queueFullStatus ∨ status = writerGoneStatus ∨ status = unservicedStatus ∨
    ∃ e, status = mapStoreError e

/-- The log grew by `events`, in order. Where the writer is not quiet, events that earlier requests
left in its queue may stand between them. -/
def GrownBy (quiet : Prop) (log events log' : List ObservedEvent) : Prop :=
  ∃ pieces : List (List ObservedEvent × List ObservedEvent),
    events = pieces.flatMap Prod.snd ∧ (log' = log ++ pieces.flatMap fun p => p.1 ++ p.2) ∧
      (quiet → log' = log ++ events)

variable {quiet : Prop}

theorem GrownBy.refl (log : List ObservedEvent) : GrownBy quiet log [] log :=
  ⟨[], rfl, by simp, by simp⟩

theorem GrownBy.append {log log' log'' a b : List ObservedEvent} (h : GrownBy quiet log a log')
    (h' : GrownBy quiet log' b log'') :
    GrownBy quiet log (a ++ b) log'' := by
  obtain ⟨p, hp, hlog, hquiet⟩ := h
  obtain ⟨q, hq, hlog', hquiet'⟩ := h'
  refine ⟨p ++ q, by simp [hp, hq], by simp [hlog', hlog], fun h => ?_⟩
  rw [hquiet' h, hquiet h, append_assoc]

theorem GrownBy.single (log : List ObservedEvent) {queued : List ObservedEvent}
    (hquiet : quiet → queued = []) (events : List ObservedEvent) :
    GrownBy quiet log events (log ++ queued ++ events) := by
  refine ⟨[(queued, events)], by simp, by simp, fun h => ?_⟩
  rw [hquiet h, append_nil]

/-- The owner between two appends: a well-formed log and a coherent index. -/
structure Steady (E : LogEnv) (quiet : Prop) (m : TransactionId → Option MempoolEntry)
    (log : List ObservedEvent) (s : OwnerSystem) : Prop where
  store : ∃ floor, StoreInvariant E s.writer.store s.writer.log floor
  queue : quiet → s.writer.queue = []
  log : s.writer.log = log
  coherent : s.owner.index.Coherent
  entries : s.owner.index.entryMap = m

section Append

variable {E : LogEnv} {quiet : Prop} {m : TransactionId → Option MempoolEntry}
  {log : List ObservedEvent}

theorem carryOutQueued_of_empty {w : Writer} (h : w.queue = []) (replies : List WriteReply) :
    w.carryOutQueued E replies = w := by
  cases replies with
  | nil => rfl
  | cons reply replies => rw [Writer.carryOutQueued, h]

theorem carryOutQueued_extends {w : Writer} (h : ∃ floor, StoreInvariant E w.store w.log floor)
    (replies : List WriteReply) :
    (∃ floor, StoreInvariant E (w.carryOutQueued E replies).store
        (w.carryOutQueued E replies).log floor) ∧
      ∃ queued, (w.carryOutQueued E replies).log = w.log ++ queued := by
  induction replies generalizing w with
  | nil => exact ⟨h, [], by simp [Writer.carryOutQueued]⟩
  | cons reply replies ih =>
    rw [Writer.carryOutQueued]
    cases hqueue : w.queue with
    | nil => exact ⟨h, [], by simp⟩
    | cons command queue =>
      obtain ⟨floor, hstore⟩ := h
      cases command with
      | append events =>
        obtain ⟨hkept, queued, hlog⟩ := ih (w := { w with queue }.carryOut E (.append events) reply)
          ⟨floor, hstore.append reply events⟩
        refine ⟨hkept, durableEvents E reply w.store.rows events ++ queued, ?_⟩
        rw [hlog, ← append_assoc]
        rfl
      | prune now retention budget =>
        obtain ⟨floor', _, hstore'⟩ := hstore.retain reply now retention budget
        exact ih (w := { w with queue }.carryOut E (.prune now retention budget) reply)
          ⟨floor', hstore'⟩

/-- An append request that does not fail makes its events durable behind the log. -/
theorem requestAppendEvents_steady (events : List ObservedEvent) :
    Triple (Steady E quiet m log) (requestAppendEvents E events)
      (fun envelopes s => envelopes.map MempoolEventEnvelope.observed = events ∧
        ∃ log', GrownBy quiet log events log' ∧ Steady E quiet m log' s)
      (fun status _ => AppendFailure status) := by
  refine exchange_triple fun s hs => ?_
  obtain ⟨hstore, queued, hqueued⟩ := carryOutQueued_extends hs.store s.nextScript.earlier
  have hnone : quiet → queued = [] := by
    intro hquiet
    rw [carryOutQueued_of_empty (hs.queue hquiet)] at hqueued
    exact append_right_eq_self.mp hqueued.symm
  have hqueue : quiet → (s.writer.carryOutQueued E s.nextScript.earlier).queue = [] := by
    intro hquiet
    rw [carryOutQueued_of_empty (hs.queue hquiet)]
    exact hs.queue hquiet
  rw [hs.log] at hqueued
  unfold Writer.request
  cases hfate : s.nextScript.fate with
  | queueFull => exact .inl rfl
  | writerGone => exact .inr (.inl rfl)
  | late => exact .inr (.inr (.inl rfl))
  | lost reply => exact .inr (.inr (.inl rfl))
  | answered reply =>
    dsimp only
    cases hreply : ((s.writer.carryOutQueued E s.nextScript.earlier).appendEvents E events reply).1 with
    | error e => exact .inr (.inr (.inr ⟨e, rfl⟩))
    | ok envelopes =>
      obtain ⟨henvelopes, hlog⟩ := appendEvents_reply hstore events reply hreply
      obtain ⟨floor, hholds⟩ := hstore
      refine ⟨?_, log ++ queued ++ events, GrownBy.single log hnone events, ?_, hqueue, ?_,
        hs.coherent, hs.entries⟩
      · rw [henvelopes]
        exact observed_envelopesFrom E _ _
      · exact ⟨floor, hholds.append reply events⟩
      · change ((s.writer.carryOutQueued E s.nextScript.earlier).appendEvents E events reply).2.log = _
        rw [hlog, hqueued]

/-- Durable events that apply one after another are applied to the index. -/
theorem applyEnvelopes_steady {envelopes : List MempoolEventEnvelope}
    (happlies : Applies m (envelopes.map MempoolEventEnvelope.observed)) :
    Triple (Steady E quiet m log) (applyEnvelopes envelopes)
      (fun _ s => Steady E quiet (replayFrom m (changes (envelopes.map MempoolEventEnvelope.observed)))
        log s)
      (fun status _ => AppendFailure status) := by
  induction envelopes generalizing m with
  | nil => exact Triple.ret fun s hs => hs
  | cons envelope rest ih =>
    rw [map_cons, applies_cons] at happlies
    refine Triple.bind (Q := fun _ => Steady E quiet (envelope.event.change.apply m) log) ?_ fun _ =>
      ih happlies.2
    refine Triple.of_states fun s hs => ?_
    have happlicable : Applicable s.owner.index.entryMap envelope.event := by
      rw [hs.entries]
      exact happlies.1
    refine (applyOrRebuild_applicable hs.coherent happlicable _ _).post ?_ |>.noFail
    rintro _ t ⟨index, rfl, hcoherent, hentries⟩
    refine ⟨hs.store, hs.queue, hs.log, hcoherent, ?_⟩
    rw [hs.entries] at hentries
    exact hentries

/-- The events were appended behind the log, and the index is what they leave. -/
def Advanced (E : LogEnv) (quiet : Prop) (m : TransactionId → Option MempoolEntry)
    (log events : List ObservedEvent) (s : OwnerSystem) : Prop :=
  ∃ log', GrownBy quiet log events log' ∧ Steady E quiet (replayFrom m (changes events)) log' s

theorem advanced_nil {s : OwnerSystem} (h : Steady E quiet m log s) : Advanced E quiet m log [] s :=
  ⟨log, .refl log, h⟩

theorem Advanced.append {a b : List ObservedEvent} {log' : List ObservedEvent} {s : OwnerSystem}
    (hgrown : GrownBy quiet log a log') (h : Advanced E quiet (replayFrom m (changes a)) log' b s) :
    Advanced E quiet m log (a ++ b) s := by
  obtain ⟨log'', hgrown', hs⟩ := h
  refine ⟨log'', hgrown.append hgrown', ?_⟩
  rw [changes_append, replayFrom_append]
  exact hs

theorem reconciliationBatch_advances {transitions : List ObservedEvent}
    (hbatch : Batchable m transitions) :
    Triple (Steady E quiet m log) (appendAndApplyReconciliationBatchLocked E transitions)
      (fun _ => Advanced E quiet m log transitions) (fun status _ => AppendFailure status) := by
  refine Triple.get_bind fun s hs => ?_
  have happlicable : ∀ event ∈ transitions, s.owner.index.preflightEvent event.1 = .ok .apply := by
    intro event hmem
    rw [preflightEvent_eq_apply hs.coherent, hs.entries]
    exact hbatch.applicable event hmem
  refine Triple.bind (preflightTransitions_spec (s := s)
    (fun event hmem h => by rw [happlicable event hmem] at h; cases h)
    (fun event hmem error h => by rw [happlicable event hmem] at h; cases h))
    fun applicable => Triple.of_states ?_
  rintro t ⟨rfl, rfl, _⟩
  by_cases hempty : applicable = []
  · rw [if_pos hempty, hempty]
    refine Triple.ret ?_
    rintro t rfl
    exact advanced_nil hs
  · rw [if_neg hempty]
    refine Triple.bind ((requestAppendEvents_steady applicable).start hs) fun envelopes =>
      Triple.of_states ?_
    rintro u ⟨henvelopes, log', hgrown, hu⟩
    have hlength : envelopes.length = applicable.length := by
      rw [← henvelopes, length_map]
    rw [if_neg (by rw [hlength]; exact fun hne => hne rfl)]
    have happlies : Applies m (envelopes.map MempoolEventEnvelope.observed) := by
      rw [henvelopes]
      exact hbatch.applies
    refine Triple.post ((applyEnvelopes_steady happlies).start hu) fun _ v hv => ?_
    rw [henvelopes] at hv
    exact ⟨log', hgrown, hv⟩

/-- A batch whose events can be applied fails only with its append. -/
theorem steady_rule (E : LogEnv) (quiet : Prop) (live : MempoolIndex) (log : List ObservedEvent) :
    IndexRule E live (Batchable live.entryMap) (Advanced E quiet live.entryMap log)
      (fun status _ => AppendFailure status) where
  front h := h.front
  batch h := by
    refine Triple.of_states ?_
    rintro s ⟨log', hgrown, hs⟩
    exact Triple.post ((reconciliationBatch_advances h.rest).start hs) fun _ t ht => ht.append hgrown
  ownIds := by
    rintro events s ⟨log', _, hs⟩
    exact hs.coherent.transactionId
  entries := by
    rintro events s ⟨log', _, hs⟩
    exact hs.entries

end Append

/-! ## Staged generations -/

/-- The snapshot phase of the source: hydration begins and events are staged one after another. -/
def stageEvents (E : LogEnv) : List ObservedEvent → OwnerM Unit
  | [] => pure ()
  | event :: rest => do
    let _ ← applyEvent E event.1 event.2
    stageEvents E rest

def hydrate (E : LogEnv) (events : List ObservedEvent) : OwnerM Unit := do
  beginHydration
  stageEvents E events

/-- What the staging preflights give: apart from soundness, entries that spend nothing twice. -/
structure StagedMempoolGeneration.Accepted (lib : TransactionLibrary)
    (staged : StagedMempoolGeneration) : Prop extends staged.Sound where
  entries : ∀ id e, staged.index.entryMap id = some e → e.spentOutpoints.Nodup ∧ e.Built lib

def Staging (lib : TransactionLibrary) (s : OwnerSystem) : Prop :=
  s.owner.status = .hydrating ∧ ∃ staged, s.owner.stagedGeneration = some staged ∧
    staged.Accepted lib

theorem MempoolEvent.forall_apply {m : TransactionId → Option MempoolEntry} {event : MempoolEvent}
    {P : MempoolEntry → Prop} (hentries : ∀ id e, m id = some e → P e)
    (hadded : ∀ entry, event = .added entry → P entry) :
    ∀ id e, event.change.apply m id = some e → P e := by
  intro id e he
  by_cases hid : id = event.transactionId
  · rw [hid, ← MempoolEvent.change_key, Change.apply_self] at he
    cases event with
    | added entry =>
      cases he
      exact hadded e rfl
    | invalidated id reason => cases he
    | mined id height hash => cases he
  · rw [Change.apply_of_ne (by rw [MempoolEvent.change_key]; exact hid)] at he
    exact hentries id e he

section Staged

variable {lib : TransactionLibrary} {E : LogEnv}

theorem StagedMempoolGeneration.noteTerminalEvent_index (staged : StagedMempoolGeneration)
    (event : ObservedEvent) : (staged.noteTerminalEvent event).index = staged.index := by
  obtain ⟨event, observedAt⟩ := event
  cases event <;> rfl

theorem StagedMempoolGeneration.Accepted.noteTerminalEvent {staged : StagedMempoolGeneration}
    (h : staged.Accepted lib) (event : ObservedEvent) :
    (staged.noteTerminalEvent event).Accepted lib := by
  refine ⟨h.toSound.noteTerminalEvent event, fun id e he => h.entries id e ?_⟩
  rwa [noteTerminalEvent_index] at he

theorem staging_setStaged {s : OwnerSystem} (h : Staging lib s) {staged : StagedMempoolGeneration}
    (hstaged : staged.Accepted lib) :
    Staging lib { s with owner := { s.owner with stagedGeneration := some staged } } :=
  ⟨h.1, staged, rfl, hstaged⟩

theorem applyEvent_staging {event : ObservedEvent}
    (hbuilt : ∀ entry, event.1 = .added entry → entry.Built lib) :
    Triple (Staging lib) (applyEvent E event.1 event.2) (fun _ => Staging lib)
      (fun _ _ => True) := by
  refine Triple.get_bind fun s hs => ?_
  obtain ⟨hstatus, staged, hstaged, haccepted⟩ := id hs
  rw [hstatus]
  refine Triple.get_bind ?_
  rintro t rfl
  rw [hstaged]
  have hnoted := haccepted.noteTerminalEvent event
  dsimp only
  refine Triple.bind (Q := fun _ => Staging lib) (Triple.update ?_) fun _ =>
    Triple.of_states fun u hu => ?_
  · rintro u rfl
    exact staging_setStaged hs hnoted
  refine Triple.bind (preflightOrRebuild_spec fun _ _ _ => trivial) fun p => Triple.of_states ?_
  rintro u ⟨rfl, hpreflight⟩
  cases p with
  | noChange =>
    refine Triple.ret ?_
    rintro v rfl
    exact hu
  | apply =>
    rw [if_neg (by decide)]
    split
    · exact Triple.fail fun _ _ => trivial
    · next position staged' hnext =>
      obtain ⟨hindex, hterminal⟩ := StagedMempoolGeneration.nextPosition_index hnext
      rw [preflightEvent_eq_apply hnoted.coherent, ← hindex] at hpreflight
      have hcoherent : staged'.index.Coherent := by
        rw [hindex]
        exact hnoted.coherent
      obtain ⟨houtcome, hcoherent', hentries⟩ :=
        applyToIndex_applicable hcoherent hpreflight position
      rcases hrun : applyToIndex staged'.index event.1 position with ⟨outcome, index⟩
      rw [hrun] at houtcome hcoherent' hentries
      cases houtcome
      refine Triple.bind (Q := fun _ => Staging lib) (Triple.update ?_) fun _ =>
        Triple.ret fun _ h => h
      rintro v rfl
      refine staging_setStaged hu ⟨⟨hcoherent', ?_⟩, fun id e he => ?_⟩
      · rw [hterminal]
        exact hnoted.terminal
      · dsimp only at he
        rw [hentries, hindex] at he
        refine MempoolEvent.forall_apply hnoted.entries (fun entry hentry => ?_) id e he
        rw [hentry] at hpreflight
        exact ⟨hpreflight.2.1, hbuilt entry hentry⟩

/-- Whatever events were accepted, the staged generation is sound and its entries are built ones. -/
theorem hydrate_accepted {events : List ObservedEvent}
    (hbuilt : ∀ entry observedAt, (.added entry, observedAt) ∈ events → entry.Built lib) :
    Triple (fun _ => True) (hydrate E events) (fun _ => Staging lib) (fun _ _ => True) := by
  refine Triple.bind (Q := fun _ => Staging lib) ?_ fun _ => ?_
  · refine Triple.bind (Q := fun _ s => s.owner.stagedGeneration = some .new)
      (Triple.update fun _ _ => rfl) fun _ => Triple.update fun s hs => ⟨rfl, .new, hs, ?_⟩
    exact ⟨StagedMempoolGeneration.sound_new, fun id e he => by
      simp [StagedMempoolGeneration.new, MempoolIndex.entryMap, MempoolIndex.new] at he⟩
  · induction events with
    | nil => exact Triple.ret fun _ h => h
    | cons event rest ih =>
      refine Triple.bind (applyEvent_staging fun entry hentry => hbuilt entry event.2 ?_) fun _ =>
        ih fun entry observedAt hmem => hbuilt entry observedAt (mem_cons_of_mem _ hmem)
      rw [← hentry]
      exact mem_cons_self

end Staged

/-! ## The events of a reconciliation -/

/-- Removals and additions as a reconciliation owes them: one terminal event for every live
transaction that the snapshot lacks, the staged one where there is one, and one addition for every
transaction of the snapshot that is not live. -/
structure ReconcilingEvents (staged : StagedMempoolGeneration) (clock : TransactionId → U64)
    (live : MempoolIndex) (removed added : List ObservedEvent) : Prop where
  removedOnce : (removed.map fun event => event.1.transactionId).Nodup
  removedIds : ∀ id, id ∈ removed.map (fun event => event.1.transactionId) ↔
    live.entryMap id ≠ none ∧ staged.index.entryMap id = none
  removedBy : ∀ event ∈ removed, event.1.change.value = none ∧
    event = (staged.terminalEvents[event.1.transactionId]?).getD
      (.invalidated event.1.transactionId .unknown, clock event.1.transactionId)
  addedOnce : (added.map fun event => event.1.transactionId).Nodup
  addedIds : ∀ id, id ∈ added.map (fun event => event.1.transactionId) ↔
    staged.index.entryMap id ≠ none ∧ live.entryMap id = none
  addedBy : ∀ event ∈ added, ∃ e, staged.index.entryMap e.transactionId = some e ∧
    event = (.added e, e.firstSeenUnixMillis)

section Events

variable {staged : StagedMempoolGeneration} {live : MempoolIndex} (clock : TransactionId → U64)

theorem reconcilingEvents (hsound : staged.Sound) (hids : live.OwnIds) :
    ReconcilingEvents staged clock live (removals staged clock (live.entriesAfter none))
      (additions live (staged.index.entriesAfter none)) where
  removedOnce := by
    rw [removals_ids hsound]
    exact nodup_missing_ids hids
  removedIds id := by
    rw [removals_ids hsound]
    exact mem_missing_ids hids id
  removedBy event hevent := by
    obtain ⟨e, _, rfl⟩ := mem_map.mp hevent
    rw [transactionId_removalOf hsound, removalOf_change hsound]
    exact ⟨rfl, rfl⟩
  addedOnce := by
    rw [additions_ids]
    exact nodup_missing_ids hsound.coherent.transactionId
  addedIds id := by
    rw [additions_ids]
    exact mem_missing_ids hsound.coherent.transactionId id
  addedBy event hevent := by
    obtain ⟨e, he, rfl⟩ := mem_map.mp hevent
    exact ⟨e, ((MempoolIndex.mem_entriesAfter hsound.coherent.transactionId).mp
      (mem_of_mem_filter he)).1, rfl⟩

theorem applicable_of_removal {m : TransactionId → Option MempoolEntry} {event : MempoolEvent}
    {id : TransactionId} (hevent : event.change = ⟨id, none⟩) (hlive : m id ≠ none) :
    Applicable m event := by
  cases event with
  | added entry => cases hevent
  | invalidated id' reason =>
    cases hevent
    exact hlive
  | mined id' height hash =>
    cases hevent
    exact hlive

theorem removals_batchable (hsound : staged.Sound) (hids : live.OwnIds) :
    Batchable live.entryMap (removals staged clock (live.entriesAfter none)) := by
  refine ⟨fun event hevent => ?_, removals_independent hsound clock
    (MempoolIndex.pairwise_entriesAfter hids none)⟩
  obtain ⟨e, he, rfl⟩ := mem_map.mp hevent
  refine applicable_of_removal (removalOf_change hsound clock e.transactionId) ?_
  rw [((MempoolIndex.mem_entriesAfter hids).mp (mem_of_mem_filter he)).1]
  exact Option.some_ne_none e

variable {lib : TransactionLibrary}

theorem additions_batchable (hcommit : lib.IdsCommit) (haccepted : staged.Accepted lib)
    (hcoherent : live.Coherent) (hlive : ∀ id e, live.entryMap id = some e → e.Built lib) :
    Batchable (replayFrom live.entryMap (changes (removals staged clock (live.entriesAfter none))))
      (additions live (staged.index.entriesAfter none)) := by
  have hids := haccepted.coherent.transactionId
  have hlisted : ∀ e ∈ staged.index.entriesAfter none,
      staged.index.entryMap e.transactionId = some e :=
    fun e he => ((MempoolIndex.mem_entriesAfter hids).mp he).1
  refine ⟨fun event hevent => ?_, additions_independent haccepted.coherent live
    (MempoolIndex.pairwise_entriesAfter hids none) hlisted⟩
  obtain ⟨e, he, rfl⟩ := mem_map.mp hevent
  obtain ⟨hmem, hnew⟩ := mem_filter.mp he
  rw [isInMempool_eq, Bool.not_eq_true', Option.isSome_eq_false_iff, Option.isNone_iff_eq_none]
    at hnew
  have hstaged := hlisted e hmem
  refine ⟨?_, (haccepted.entries _ e hstaged).1, ?_⟩
  · rw [replay_removals haccepted.toSound hcoherent.transactionId, hnew, ite_self]
  · intro id e' hfound o ho ho'
    -- What is still live is in the snapshot, under its own id.
    rw [replay_removals haccepted.toSound hcoherent.transactionId, ite_eq_iff] at hfound
    obtain ⟨_, hnone⟩ | ⟨hin, hfound⟩ := hfound
    · cases hnone
    have hid := hcoherent.transactionId id e' hfound
    subst hid
    obtain ⟨e'', he''⟩ := Option.ne_none_iff_exists'.mp hin
    have hspends : e'.spentOutpoints = e''.spentOutpoints :=
      (hlive _ e' hfound).spentOutpoints_eq hcommit (haccepted.entries _ e'' he'').2
        (hids _ e'' he'').symm
    rw [hspends] at ho'
    have hspender := (haccepted.coherent.spends o e.transactionId).mpr ⟨e, hstaged, ho⟩
    have hspender' := (haccepted.coherent.spends o e'.transactionId).mpr ⟨e'', he'', ho'⟩
    rw [hspender] at hspender'
    rw [← Option.some.inj hspender', hnew] at hfound
    cases hfound

end Events

/-- A library whose transactions are their ids; transaction 3 has no input, any other one spends the
same outpoint. -/
def idLibrary : TransactionLibrary where
  Transaction := Bytes32
  deserialize bytes := if h : bytes.length = 32 then .ok ⟨bytes, h⟩ else .error "short transaction"
  hash t := t
  authDigest _ := none
  compactTransactionData t := .ok ⟨[⟨1000, [], repeatedByte 5⟩], if t = byteId 3 then [] else [⟨byteId 7, 0⟩]⟩

theorem idLibrary_idsCommit : idLibrary.IdsCommit := by
  intro bytes bytes' t t' data data' _ _ hid hdata hdata'
  have ht : t = t' := hid
  rw [ht, hdata'] at hdata
  cases hdata
  rfl

def sampleLive : MempoolIndex :=
  (applyToIndex .new (.added (plainEntry (byteId 1) [⟨byteId 7, 0⟩])) ⟨1, byteId 1⟩).2

def sampleReplacement : List ObservedEvent :=
  [(.added (plainEntry (byteId 3) []), 40), (.mined (byteId 1) 5 (byteId 9), 50),
    (.added (plainEntry (byteId 2) [⟨byteId 7, 0⟩]), 60)]

def sampleOwner (index : MempoolIndex) : OwnerSystem :=
  ⟨⟨.empty, [], []⟩, { LiveMempoolOwner.new 1000 with index }, []⟩

end Zinder.Mempool
