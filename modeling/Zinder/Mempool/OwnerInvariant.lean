import Zinder.Mempool.Applies
import Zinder.Mempool.LiveOwner
import Zinder.Mempool.SnapshotPages

/-!
# Zinder.Mempool.OwnerInvariant

What the owner's operations keep.

The log holds only transitions that could be applied where they stand (`DurableInvariant`), and the
live index is the replay of the log (`OwnerInvariant`). An operation whose requests are all settled,
that is answered with what the writer did or never sent, keeps both (`Ready`), also when it fails. One
whose last request got lost keeps the first (`Failed`): the log has the transitions, the index does
not.
-/

namespace Zinder.Mempool

open LogHolds (envelopesFrom)
open List
open KeyedLog Stateful

/-! ## Invariants -/

/-- After a settled request the caller knows whether the log has the command's events. -/
def RequestFate.Settled : RequestFate → Prop
  | queueFull => True
  | writerGone => True
  | answered .done => True
  | answered (.failed durable) => durable = false
  | lost _ => False
  | late => False

/-- The log holds what its rows say, and every transition of it could be applied. -/
structure DurableInvariant (E : LogEnv) (w : Writer) : Prop where
  store : ∃ floor, StoreInvariant E w.store w.log floor
  applies : Applies (fun _ => none) w.log

def WriterCommand.IsPrune : WriterCommand → Prop
  | append _ => False
  | prune _ _ _ => True

/-- No append waits in the queue. -/
structure QuietWriter (E : LogEnv) (w : Writer) : Prop where
  store : ∃ floor, StoreInvariant E w.store w.log floor
  queue : ∀ command ∈ w.queue, command.IsPrune

structure WriterInvariant (E : LogEnv) (w : Writer) : Prop extends QuietWriter E w where
  applies : Applies (fun _ => none) w.log

/-- A staged generation: a coherent index and removals under their own ids. -/
structure StagedMempoolGeneration.Sound (staged : StagedMempoolGeneration) : Prop where
  coherent : staged.index.Coherent
  terminal : ∀ (id : TransactionId) (event : ObservedEvent), staged.terminalEvents[id]? = some event →
    event.1.change = ⟨id, none⟩

structure OwnerInvariant (E : LogEnv) (s : OwnerSystem) : Prop where
  writer : WriterInvariant E s.writer
  coherent : s.owner.index.Coherent
  entries : s.owner.index.entryMap = liveEntries s.writer.log
  staged : ∀ staged, s.owner.stagedGeneration = some staged → staged.Sound

/-- The invariant, with a script that is settled where `settled` asks for it. -/
def Ready (E : LogEnv) (settled : Prop) (s : OwnerSystem) : Prop :=
  OwnerInvariant E s ∧ (settled → ∀ r ∈ s.script, r.fate.Settled)

/-- What a failed operation leaves. -/
def Failed (E : LogEnv) (settled : Prop) (s : OwnerSystem) : Prop :=
  DurableInvariant E s.writer ∧ (settled → Ready E settled s)

variable {E : LogEnv} {settled : Prop}

theorem WriterInvariant.toDurableInvariant {w : Writer} (h : WriterInvariant E w) :
    DurableInvariant E w := ⟨h.store, h.applies⟩

theorem WriterInvariant.of_quiet {w w' : Writer} (h : WriterInvariant E w)
    (hquiet : QuietWriter E w')
    (hlog : w'.log = w.log) : WriterInvariant E w' :=
  ⟨hquiet, by rw [hlog]; exact h.applies⟩

variable {s : OwnerSystem} {α : Type}

theorem Ready.failed (h : Ready E settled s) : Failed E settled s :=
  ⟨h.1.writer.toDurableInvariant, fun _ => h⟩

/-! ## The writer -/

section Writer

variable {w : Writer}

theorem QuietWriter.carryOutQueued (h : QuietWriter E w) (replies : List WriteReply) :
    QuietWriter E (w.carryOutQueued E replies) ∧ (w.carryOutQueued E replies).log = w.log := by
  induction replies generalizing w with
  | nil => exact ⟨h, rfl⟩
  | cons reply replies ih =>
    rw [Writer.carryOutQueued]
    cases hqueue : w.queue with
    | nil => exact ⟨h, rfl⟩
    | cons command queue =>
      have hprune := h.queue
      rw [hqueue, forall_mem_cons] at hprune
      cases command with
      | append events => exact hprune.1.elim
      | prune now retention budget =>
        obtain ⟨floor, hstore⟩ := h.store
        obtain ⟨floor', _, hstore'⟩ := hstore.retain reply now retention budget
        have hpruned : QuietWriter E
            ({ w with queue }.carryOut E (.prune now retention budget) reply) :=
          ⟨⟨floor', hstore'⟩, hprune.2⟩
        exact ih hpruned

theorem QuietWriter.pruneRequest (h : QuietWriter E w) (now : U64)
    (retention : MempoolEventRetentionConfig) (budget : MempoolEventRetentionStepBudget)
    (script : RequestScript) :
    QuietWriter E (w.request E (.prune now retention budget)
        (Writer.pruneEvents E now retention budget) script).2 ∧
      (w.request E (.prune now retention budget)
        (Writer.pruneEvents E now retention budget) script).2.log = w.log := by
  obtain ⟨hw, hlog⟩ := h.carryOutQueued script.earlier
  have hpruned : ∀ reply, QuietWriter E
      ((w.carryOutQueued E script.earlier).pruneEvents E now retention budget reply).2 := by
    intro reply
    obtain ⟨floor, hstore⟩ := hw.store
    obtain ⟨floor', _, hstore'⟩ := hstore.retain reply now retention budget
    exact ⟨⟨floor', hstore'⟩, hw.queue⟩
  unfold Writer.request
  cases script.fate with
  | queueFull => exact ⟨hw, hlog⟩
  | writerGone => exact ⟨hw, hlog⟩
  | answered reply => exact ⟨hpruned reply, hlog⟩
  | lost reply => exact ⟨hpruned reply, hlog⟩
  | late =>
    refine ⟨⟨hw.store, fun command hmem => ?_⟩, hlog⟩
    rcases mem_append.mp hmem with hqueued | hnew
    · exact hw.queue command hqueued
    · cases mem_singleton.mp hnew
      exact trivial

theorem appendEvents_log (events : List ObservedEvent) (reply : WriteReply) :
    (w.appendEvents E events reply).2.log = w.log ∨
      (w.appendEvents E events reply).2.log = w.log ++ events := by
  change w.log ++ durableEvents E reply w.store.rows events = _ ∨
    w.log ++ durableEvents E reply w.store.rows events = _
  rcases appendMempoolEvents_rows (E := E) reply w.store.rows events with
    ⟨_, hnone⟩ | ⟨_, _, _, _, _, hall, _⟩
  · rw [hnone, append_nil]
    exact .inl rfl
  · rw [hall]
    exact .inr rfl

theorem appendEvents_reply (h : ∃ floor, StoreInvariant E w.store w.log floor)
    (events : List ObservedEvent) (reply : WriteReply) {envelopes : List MempoolEventEnvelope}
    (hok : (w.appendEvents E events reply).1 = .ok envelopes) :
    envelopes = envelopesFrom E w.log.length events ∧
      (w.appendEvents E events reply).2.log = w.log ++ events := by
  obtain ⟨floor, hstore⟩ := h
  change (appendMempoolEvents E reply w.store.rows events).1 = _ at hok
  change _ ∧ w.log ++ durableEvents E reply w.store.rows events = _
  unfold appendMempoolEvents at hok
  split at hok
  · next hnil =>
    subst hnil
    cases hok
    exact ⟨rfl, by simp [durableEvents]⟩
  · next hne =>
    split at hok
    · cases hok
    · next envelopes' batch hprepare =>
      cases reply with
      | failed durable => cases hok
      | done =>
        cases hok
        refine ⟨congrArg Prod.fst ((hstore.rows.prepareAppend_eq_ok hne).mp hprepare).2, ?_⟩
        simp [durableEvents, hprepare, Except.toOption, WriteReply.durable]

theorem appendEvents_log_of_error {events : List ObservedEvent} {reply : WriteReply}
    {e : MempoolLogError} (herror : (w.appendEvents E events reply).1 = .error e)
    (hsettled : (RequestFate.answered reply).Settled) :
    (w.appendEvents E events reply).2.log = w.log := by
  change (appendMempoolEvents E reply w.store.rows events).1 = _ at herror
  change w.log ++ durableEvents E reply w.store.rows events = w.log
  cases reply with
  | failed durable =>
    cases hsettled
    simp [durableEvents, WriteReply.durable]
  | done =>
    unfold appendMempoolEvents at herror
    split at herror
    · cases herror
    · split at herror
      · next hprepare => simp [durableEvents, hprepare, Except.toOption]
      · cases herror

end Writer

/-! ## Append requests -/

/-- The log already has `events` behind `log`; the live index does not. -/
structure Pending (E : LogEnv) (settled : Prop) (log events : List ObservedEvent)
    (s : OwnerSystem) : Prop where
  writer : WriterInvariant E s.writer
  appended : s.writer.log = log ++ events
  coherent : s.owner.index.Coherent
  entries : s.owner.index.entryMap = liveEntries log
  staged : ∀ staged, s.owner.stagedGeneration = some staged → staged.Sound
  script : settled → ∀ r ∈ s.script, r.fate.Settled

theorem Pending.ready {log : List ObservedEvent} (h : Pending E settled log [] s) :
    Ready E settled s := by
  have hlog := h.appended
  rw [append_nil] at hlog
  refine ⟨⟨h.writer, h.coherent, ?_, h.staged⟩, h.script⟩
  rw [hlog]
  exact h.entries

/-- The two append requests answer alike: from the reply to the batch and the head before it. -/
def AnswersAppend (E : LogEnv) (events : List ObservedEvent) {α : Type} (value : Nat → α)
    (perform : WriteReply → Writer → Except MempoolLogError α × Writer) : Prop :=
  ∀ reply w, (∃ floor, StoreInvariant E w.store w.log floor) →
    (perform reply w).2 = (w.appendEvents E events reply).2 ∧
      (perform reply w).1 = (w.appendEvents E events reply).1.map fun _ => value w.log.length

theorem answersAppend_appendEvents (events : List ObservedEvent) :
    AnswersAppend E events (fun n => envelopesFrom E n events) (Writer.appendEvents E events) := by
  intro reply w h
  refine ⟨rfl, ?_⟩
  cases hreply : (w.appendEvents E events reply).1 with
  | error e => rfl
  | ok envelopes => exact congrArg Except.ok (appendEvents_reply h events reply hreply).1

theorem answersAppend_appendEvent (event : ObservedEvent) :
    AnswersAppend E [event] (fun n => envelopeOf E (n + 1) event) (Writer.appendEvent E event) := by
  intro reply w h
  refine ⟨rfl, ?_⟩
  change (do
    let envelopes ← (w.appendEvents E [event] reply).1
    okOr envelopes.head? _) = _
  cases hreply : (w.appendEvents E [event] reply).1 with
  | error e => rfl
  | ok envelopes =>
    rw [(appendEvents_reply h [event] reply hreply).1]
    rfl

theorem exchange_triple {P : OwnerSystem → Prop} {Q : α → OwnerSystem → Prop}
    {R : Status → OwnerSystem → Prop} {run : RequestScript → Writer → Except Status α × Writer}
    (h : ∀ s, P s →
      Ends Q R ((run s.nextScript s.writer).1,
        { s with writer := (run s.nextScript s.writer).2, script := s.script.tail })) :
    Triple P (exchange run) Q R := h

/-- The state an append request leaves that the caller was told has succeeded, or failed. -/
def AfterAppend (E : LogEnv) (s : OwnerSystem) (events : List ObservedEvent) (told : Bool)
    (t : OwnerSystem) : Prop :=
  ∃ w, t = { s with writer := w, script := s.script.tail } ∧
    (∃ floor, StoreInvariant E w.store w.log floor) ∧
    (w.log = s.writer.log ∨ w.log = s.writer.log ++ events) ∧
    (told = true ∨ s.nextScript.fate.Settled → QuietWriter E w ∧
      w.log = s.writer.log ++ if told then events else [])

section

variable {events : List ObservedEvent} {value : Nat → α}
  {perform : WriteReply → Writer → Except MempoolLogError α × Writer}
  (hanswers : AnswersAppend E events value perform)
include hanswers

theorem append_exchange (hquiet : QuietWriter E s.writer) :
    Triple (fun t => t = s) (exchange (Writer.request E (.append events) perform))
      (fun a t => a = value s.writer.log.length ∧ AfterAppend E s events true t)
      (fun _ t => AfterAppend E s events false t) := by
  refine exchange_triple ?_
  rintro t rfl
  obtain ⟨hw, hlog⟩ := hquiet.carryOutQueued t.nextScript.earlier
  obtain ⟨floor, hstore⟩ := hw.store
  have hunchanged : AfterAppend E t events false { t with
      writer := t.writer.carryOutQueued E t.nextScript.earlier, script := t.script.tail } :=
    ⟨_, rfl, hw.store, .inl hlog, fun _ => ⟨hw, by rw [hlog]; simp⟩⟩
  have happended : ∀ reply, let w' :=
      ((t.writer.carryOutQueued E t.nextScript.earlier).appendEvents E events reply).2
      (∃ floor, StoreInvariant E w'.store w'.log floor) ∧
        (w'.log = t.writer.log ∨ w'.log = t.writer.log ++ events) := by
    intro reply
    refine ⟨⟨floor, hstore.append reply events⟩, ?_⟩
    rw [← hlog]
    exact appendEvents_log events reply
  unfold Writer.request
  cases hfate : t.nextScript.fate with
  | queueFull => exact hunchanged
  | writerGone => exact hunchanged
  | late =>
    refine ⟨_, rfl, hw.store, .inl hlog, fun htold => ?_⟩
    rcases htold with htold | hsettled
    · cases htold
    · rw [hfate] at hsettled
      exact hsettled.elim
  | lost reply =>
    dsimp only
    rw [(hanswers reply _ hw.store).1]
    refine ⟨_, rfl, (happended reply).1, (happended reply).2, fun htold => ?_⟩
    rcases htold with htold | hsettled
    · cases htold
    · rw [hfate] at hsettled
      exact hsettled.elim
  | answered reply =>
    dsimp only
    obtain ⟨hstate, hvalue⟩ := hanswers reply _ hw.store
    rw [hstate, hvalue]
    cases hreply :
        ((t.writer.carryOutQueued E t.nextScript.earlier).appendEvents E events reply).1 with
    | ok envelopes =>
      refine ⟨by rw [hlog], _, rfl, (happended reply).1, (happended reply).2, fun _ =>
        ⟨⟨(happended reply).1, hw.queue⟩, ?_⟩⟩
      rw [(appendEvents_reply hw.store events reply hreply).2, hlog]
      rfl
    | error e =>
      refine ⟨_, rfl, (happended reply).1, (happended reply).2, fun htold =>
        ⟨⟨(happended reply).1, hw.queue⟩, ?_⟩⟩
      rcases htold with htold | hsettled
      · cases htold
      · rw [hfate] at hsettled
        rw [appendEvents_log_of_error hreply hsettled, hlog]
        simp

/-- An append request of applicable events: the log gets them and the caller is told, or the request
fails. -/
theorem append_request (log : List ObservedEvent) :
    Triple (fun s => Ready E settled s ∧ s.writer.log = log ∧ Applies (liveEntries log) events)
      (exchange (Writer.request E (.append events) perform))
      (fun a s => a = value log.length ∧ Pending E settled log events s)
      (fun _ s => Failed E settled s) := by
  refine Triple.of_states ?_
  rintro s ⟨⟨hinv, hscript⟩, rfl, happlies⟩
  have hboth : Applies (fun _ => none) (s.writer.log ++ events) :=
    applies_append.mpr ⟨hinv.writer.applies, happlies⟩
  have htail : settled → ∀ r ∈ s.script.tail, r.fate.Settled := fun hsettled r hr =>
    hscript hsettled r (mem_of_mem_tail hr)
  refine Triple.consequence (append_exchange hanswers hinv.writer.toQuietWriter) (fun _ h => h) ?_ ?_
  · rintro a t ⟨rfl, w, rfl, _, _, htold⟩
    obtain ⟨hquiet, hlog⟩ := htold (.inl rfl)
    exact ⟨rfl, ⟨hquiet, by rw [hlog]; exact hboth⟩, hlog, hinv.coherent, hinv.entries, hinv.staged,
      htail⟩
  · rintro e t ⟨w, rfl, hstore, hlogs, hknown⟩
    refine ⟨⟨hstore, ?_⟩, fun hsettled => ?_⟩
    · rcases hlogs with hlog | hlog
      · rw [hlog]
        exact hinv.writer.applies
      · rw [hlog]
        exact hboth
    · have hfate : s.nextScript.fate.Settled := by
        unfold OwnerSystem.nextScript
        cases hnext : s.script with
        | nil => exact trivial
        | cons r rest => exact hscript hsettled r (by rw [hnext]; exact mem_cons_self)
      obtain ⟨hquiet, hlog⟩ := hknown (.inr hfate)
      have hsame : w.log = s.writer.log := by rw [hlog]; simp
      refine ⟨⟨hinv.writer.of_quiet hquiet hsame, hinv.coherent, ?_, hinv.staged⟩, htail⟩
      rw [hsame]
      exact hinv.entries

end

def OwnerSystem.withIndex (s : OwnerSystem) (index : MempoolIndex) : OwnerSystem :=
  { s with owner := { s.owner with index } }

def OwnerSystem.withStatus (s : OwnerSystem) (status : MempoolOwnerStatus) : OwnerSystem :=
  { s with owner := { s.owner with status } }

theorem preflightOrRebuild_spec {index : MempoolIndex} {event : MempoolEvent} {message : String}
    {R : Status → OwnerSystem → Prop} (hfail : ∀ error, index.preflightEvent event = .error error →
      ∀ status, R status (s.withStatus .rebuildRequired)) :
    Triple (fun t => t = s) (preflightOrRebuild index event message)
      (fun p t => t = s ∧ index.preflightEvent event = .ok p) R := by
  unfold preflightOrRebuild
  cases hpreflight : index.preflightEvent event with
  | ok p => exact Triple.ret fun t ht => ⟨ht, rfl⟩
  | error error =>
    refine Triple.bind (Q := fun _ t => t = s.withStatus .rebuildRequired) (Triple.update ?_)
      fun _ => Triple.fail ?_
    · rintro t rfl
      rfl
    · rintro t rfl
      exact hfail error hpreflight _

theorem applyOrRebuild_applied {event : MempoolEvent} {position : MempoolEventPosition}
    (h : (applyToIndex s.owner.index event position).1 = .applied) (status : Status) :
    Triple (fun t => t = s) (applyOrRebuild event position status)
      (fun _ t => t = s.withIndex (applyToIndex s.owner.index event position).2)
      (fun _ _ => False) := by
  refine Triple.get_bind ?_
  rintro t rfl
  rcases hrun : applyToIndex t.owner.index event position with ⟨outcome, index⟩
  rw [hrun] at h
  cases h
  refine Triple.bind (Q := fun _ u => u = t.withIndex index) (Triple.update ?_) fun _ =>
    Triple.ret fun _ hu => hu
  rintro u rfl
  rfl

theorem applyOrRebuild_applicable (h : s.owner.index.Coherent) {event : MempoolEvent}
    (happlicable : Applicable s.owner.index.entryMap event) (position : MempoolEventPosition)
    (status : Status) :
    Triple (fun t => t = s) (applyOrRebuild event position status)
      (fun _ t => ∃ index, t = s.withIndex index ∧ index.Coherent ∧
        index.entryMap = event.change.apply s.owner.index.entryMap)
      (fun _ _ => False) := by
  obtain ⟨houtcome, hcoherent, hentries⟩ := applyToIndex_applicable h happlicable position
  exact (applyOrRebuild_applied houtcome status).post fun _ t ht => ⟨_, ht, hcoherent, hentries⟩

theorem apply_pending {log rest : List ObservedEvent} (event : ObservedEvent)
    (position : MempoolEventPosition) (status : Status) :
    Triple (Pending E settled log (event :: rest)) (applyOrRebuild event.1 position status)
      (fun _ s => Pending E settled (log ++ [event]) rest s) (fun _ s => Failed E settled s) := by
  refine Triple.of_states fun s hs => ?_
  have happlicable : Applicable s.owner.index.entryMap event.1 := by
    have happlies := hs.writer.applies
    rw [hs.appended, applies_append, applies_cons] at happlies
    rw [hs.entries]
    exact happlies.2.1
  refine Triple.consequence (applyOrRebuild_applicable hs.coherent happlicable position status)
    (fun _ h => h) ?_ fun _ _ h => h.elim
  rintro _ t ⟨index, rfl, hcoherent, hentries⟩
  refine ⟨hs.writer, ?_, hcoherent, ?_, hs.staged, hs.script⟩
  · change s.writer.log = _
    rw [hs.appended, append_assoc]
    rfl
  · change index.entryMap = replay (changes (log ++ [event]))
    rw [hentries, hs.entries, changes_append]
    exact (replay_concat (changes log) event.1.change).symm

end Zinder.Mempool
