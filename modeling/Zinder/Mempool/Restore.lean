import Zinder.Mempool.OwnerInvariant
import Zinder.Mempool.Stream

/-!
# Zinder.Mempool.Restore

Rebuilding the live index from the retained log, `restore_durable_index`.

The owner reads the log as any stream consumer does. The events it has read are a contiguous run of
the log, and the index is their replay. A log that only got applicable transitions never rejects one
on the way: what the run leaves live is part of what the whole log leaves live
(`restoreEnvelopes_replays`). The run starts where retention cut the log, which is a safe place, so
at the head the index is the replay of the whole log (`Restoring.finish`).
-/

namespace Zinder.Mempool

open LogHolds (envelopesFrom)
open List
open KeyedLog Stateful

variable {E : LogEnv}

/-! ## One page -/

/-- The index after the events `p`, nothing else changed since `s`. -/
def Replayed (s : OwnerSystem) (p : List ObservedEvent) (t : OwnerSystem) : Prop :=
  ∃ index, t = s.withIndex index ∧ index.Coherent ∧ index.entryMap = liveEntries p

theorem liveEntries_concat (p : List ObservedEvent) (event : ObservedEvent) :
    liveEntries (p ++ [event]) = event.1.change.apply (liveEntries p) := by
  rw [liveEntries, changes_append]
  exact replay_concat (changes p) event.1.change

theorem preflight_passes {index : MempoolIndex} {event : MempoolEvent}
    {preflight : MempoolIndexPreflight} (h : index.preflightEvent event = .ok preflight)
    (message : String) (s : OwnerSystem) :
    Triple (fun t => t = s) (preflightOrRebuild index event message)
      (fun p t => t = s ∧ p = preflight) (fun _ _ => False) := by
  rw [preflightOrRebuild, h]
  refine Triple.ret ?_
  rintro t rfl
  exact ⟨rfl, rfl⟩

/-- The events of a page, somewhere in a log of applicable transitions, are replayed without a
rejection. -/
theorem restoreEnvelopes_replays (s : OwnerSystem) (a p : List ObservedEvent)
    (envelopes : List MempoolEventEnvelope)
    (happlies : Applies (liveEntries (a ++ p)) (envelopes.map MempoolEventEnvelope.observed)) :
    Triple (Replayed s p) (restoreEnvelopes envelopes)
      (fun _ t => Replayed s (p ++ envelopes.map MempoolEventEnvelope.observed) t)
      (fun _ _ => False) := by
  induction envelopes generalizing p with
  | nil =>
    refine Triple.ret fun t ht => ?_
    rw [map_nil, append_nil]
    exact ht
  | cons envelope rest ih =>
    rw [map_cons, applies_cons] at happlies
    obtain ⟨happlicable, hrest⟩ := happlies
    have hstep : Triple (Replayed s (p ++ [envelope.observed])) (restoreEnvelopes rest)
        (fun _ t => Replayed s (p ++ (envelope :: rest).map MempoolEventEnvelope.observed) t)
        (fun _ _ => False) := by
      have hnext := ih (p ++ [envelope.observed])
        (by rw [← append_assoc, liveEntries_concat]; exact hrest)
      rw [append_assoc] at hnext
      exact hnext
    refine Triple.get_bind ?_
    rintro t ⟨index, rfl, hcoherent, hentries⟩
    have hpart : ∀ id e, index.entryMap id = some e → liveEntries (a ++ p) id = some e := by
      intro id e he
      rw [hentries] at he
      rw [liveEntries, changes_append]
      exact replay_append_of_live he
    rcases happlicable.restrict hpart with hfits | ⟨habsent, hvalue⟩
    · have hpreflight := (preflightEvent_eq_apply hcoherent).mpr hfits
      refine Triple.bind (preflight_passes hpreflight _ _) fun p' => Triple.of_states ?_
      rintro t ⟨rfl, rfl⟩
      refine Triple.bind (applyOrRebuild_applicable hcoherent hfits _ _) fun _ => ?_
      refine Triple.pre hstep ?_
      rintro t ⟨index', rfl, hcoherent', hentries'⟩
      refine ⟨index', rfl, hcoherent', ?_⟩
      rw [hentries', liveEntries_concat, ← hentries]
      rfl
    · have hnoChange : index.preflightEvent envelope.event = .ok .noChange := by
        rw [preflightEvent_eq_noChange]
        have hvalue' : envelope.event.change.value = none := hvalue
        have habsent' : index.entryMap envelope.event.transactionId = none := habsent
        simp [hvalue', habsent']
      refine Triple.bind (preflight_passes hnoChange _ _) fun p' => Triple.of_states ?_
      rintro t ⟨rfl, rfl⟩
      refine Triple.pre hstep ?_
      rintro t rfl
      refine ⟨index, rfl, hcoherent, ?_⟩
      rw [liveEntries_concat, ← hentries]
      exact (apply_absent habsent hvalue).symm

/-! ## One turn -/

/-- A restore part way: the owner follows the log as the consumer `c`, from a safe cut on. -/
structure Restoring (E : LogEnv) (s : OwnerSystem) (c : Consumer) (first : Option Nat) : Prop where
  writer : WriterInvariant E s.writer
  follows : Follows E s.writer.log c first
  safe : ∀ f, first = some f → CutSafe (changes s.writer.log) (f - 1)
  coherent : s.owner.index.Coherent
  entries : s.owner.index.entryMap = liveEntries (c.delivered.map MempoolEventEnvelope.observed)

variable {s : OwnerSystem} {c : Consumer} {first : Option Nat}

theorem restoring_new (hw : WriterInvariant E s.writer) (hindex : s.owner.index = .new) :
    Restoring E s ⟨none, []⟩ none := by
  refine ⟨hw, .waiting, fun f hf => (by cases hf), ?_, ?_⟩
  · rw [hindex]
    exact MempoolIndex.coherent_new
  · rw [hindex]
    funext id
    exact Std.ExtTreeMap.getElem?_empty

theorem Follows.slice {log : List ObservedEvent} (h : Follows E log c first) :
    ∃ a b, log = a ++ c.delivered.map MempoolEventEnvelope.observed ++ b := by
  cases h with
  | waiting => exact ⟨[], log, by simp⟩
  | @following first s o hfirst hle hs ho =>
    refine ⟨log.take (first - 1), (log.drop (first - 1)).drop (s + 1 - first), ?_⟩
    rw [observed_envelopesFrom, append_assoc, take_append_drop, take_append_drop]

theorem Follows.length_delivered_le {log : List ObservedEvent} (h : Follows E log c first) :
    c.delivered.length ≤ log.length := by
  obtain ⟨a, b, hslice⟩ := h.slice
  have hlength := congrArg List.length hslice
  simp only [length_append, length_map] at hlength
  omega

def AfterRead (E : LogEnv) (s t : OwnerSystem) : Prop :=
  ∃ w, t = { s with writer := w, script := s.script.tail } ∧ WriterInvariant E w ∧
    w.log = s.writer.log ∧ (s.script = [] → w = s.writer)

theorem requestEventPage_reads (h : WriterInvariant E s.writer)
    (fromCursor : Option StreamCursorTokenV1) (maxEvents : Nat) :
    Triple (fun t => t = s) (requestEventPage E fromCursor maxEvents)
      (fun page t => AfterRead E s t ∧
        mempoolEventHistory E t.writer.store.rows fromCursor maxEvents = .ok page)
      (fun _ t => AfterRead E s t ∧ (s.script = [] →
        ∃ e, mempoolEventHistory E s.writer.store.rows fromCursor maxEvents = .error e)) := by
  refine exchange_triple ?_
  rintro t rfl
  obtain ⟨hquiet, hlog⟩ := h.carryOutQueued t.nextScript.earlier
  have hw := h.of_quiet hquiet hlog
  have hprompt : t.script = [] → t.nextScript = .prompt := by
    intro hnil
    rw [OwnerSystem.nextScript, hnil]
    rfl
  have hsame : t.script = [] → t.writer.carryOutQueued E t.nextScript.earlier = t.writer := by
    intro hnil
    rw [hprompt hnil]
    rfl
  have hafter : AfterRead E t
      { t with writer := t.writer.carryOutQueued E t.nextScript.earlier, script := t.script.tail } :=
    ⟨_, rfl, hw, hlog, hsame⟩
  have hunprompt : t.nextScript.fate ≠ .answered .done → t.script = [] →
      ∃ e, mempoolEventHistory E t.writer.store.rows fromCursor maxEvents = .error e := by
    intro hfate hnil
    rw [hprompt hnil] at hfate
    exact absurd rfl hfate
  unfold Writer.requestRead
  cases hfate : t.nextScript.fate with
  | queueFull => exact ⟨hafter, hunprompt (by rw [hfate]; decide)⟩
  | writerGone => exact ⟨hafter, hunprompt (by rw [hfate]; decide)⟩
  | lost reply => exact ⟨hafter, hunprompt (by rw [hfate]; simp)⟩
  | late => exact ⟨hafter, hunprompt (by rw [hfate]; decide)⟩
  | answered reply =>
    dsimp only
    cases hread : mempoolEventHistory E
        (t.writer.carryOutQueued E t.nextScript.earlier).store.rows fromCursor maxEvents with
    | ok page => exact ⟨hafter, hread⟩
    | error e =>
      refine ⟨hafter, fun hnil => ⟨e, ?_⟩⟩
      rw [hsame hnil] at hread
      exact hread

theorem Restoring.finish (h : Restoring E s c first) {maxEvents : Nat} (hmax : 0 < maxEvents)
    (hread : mempoolEventHistory E s.writer.store.rows c.resume maxEvents = .ok []) :
    s.owner.index.entryMap = liveEntries s.writer.log := by
  obtain ⟨floor, hstore⟩ := h.writer.store
  obtain ⟨n, hdelivered, hstart⟩ := h.follows.atHead_of_empty hstore.rows hmax hread
  have hsafe : CutSafe (changes s.writer.log) n := by
    rcases hstart with ⟨_, hsafe⟩ | hfirst
    · exact hsafe
    · exact h.safe (n + 1) hfirst
  rw [h.entries, hdelivered, liveEntries_drop hsafe]

theorem restoreTurn_replays (h : Restoring E s c first) :
    Triple (fun t => t = s) (restoreTurn E c.resume)
      (fun r t => ∃ index u page, t = OwnerSystem.withIndex u index ∧ AfterRead E s u ∧
        mempoolEventHistory E u.writer.store.rows c.resume mempoolEventPageSize = .ok page ∧
        ((page = [] ∧ (∃ after, r = .leave after) ∧ index.Coherent ∧
            index.entryMap = liveEntries s.writer.log) ∨
          (page ≠ [] ∧ r = .again (c.receive page).resume ∧ ∀ floor,
            StoreInvariant E u.writer.store u.writer.log floor →
            Restoring E t (c.receive page) (first.or (some floor)))))
      (fun _ t => AfterRead E s t ∧ (s.script = [] → ∃ e,
        mempoolEventHistory E s.writer.store.rows c.resume mempoolEventPageSize = .error e)) := by
  refine Triple.bind (requestEventPage_reads h.writer c.resume mempoolEventPageSize)
    fun page => Triple.of_states ?_
  rintro u ⟨hread, hpage⟩
  obtain ⟨w, rfl, hw, hlog, hsame⟩ := hread
  have hu : Restoring E { s with writer := w, script := s.script.tail } c first := by
    refine ⟨hw, ?_, ?_, h.coherent, h.entries⟩
    · rw [hlog]
      exact h.follows
    · rw [hlog]
      exact h.safe
  obtain ⟨floor, hstore⟩ := hw.store
  cases hlast : page.getLast? with
  | none =>
    have hnil := getLast?_eq_none_iff.mp hlast
    subst hnil
    refine Triple.ret ?_
    rintro t rfl
    refine ⟨s.owner.index, _, [], rfl, ⟨w, rfl, hw, hlog, hsame⟩, hpage, .inl
      ⟨rfl, ⟨_, rfl⟩, h.coherent, ?_⟩⟩
    rw [← hlog]
    exact hu.finish (by decide) hpage
  | some last =>
    have hne : page ≠ [] := by
      rintro rfl
      cases hlast
    have hreceived := hu.follows.read hstore.rows (show 0 < mempoolEventPageSize by decide) hpage
    rw [if_neg hne] at hreceived
    obtain ⟨a, b, hslice⟩ := hreceived.slice
    have hreceived_observed : (c.receive page).delivered.map MempoolEventEnvelope.observed =
        c.delivered.map MempoolEventEnvelope.observed ++
          page.map MempoolEventEnvelope.observed := map_append
    have happlies : Applies (liveEntries (a ++ c.delivered.map MempoolEventEnvelope.observed))
        (page.map MempoolEventEnvelope.observed) := by
      have hall := hw.applies
      change w.log = _ at hslice
      rw [hslice, hreceived_observed, ← append_assoc, applies_append, applies_append] at hall
      exact hall.1.2
    refine Triple.bind (Triple.consequence (restoreEnvelopes_replays
      { s with writer := w, script := s.script.tail } a _ page happlies) ?_ (fun _ _ h => h)
      fun _ _ h => h.elim) fun _ => Triple.ret ?_
    · rintro t rfl
      exact ⟨s.owner.index, rfl, h.coherent, h.entries⟩
    · rintro t ⟨index, rfl, hcoherent, hentries⟩
      refine ⟨index, _, page, rfl, ⟨w, rfl, hw, hlog, hsame⟩, hpage, .inr ⟨hne, ?_, ?_⟩⟩
      · rw [Consumer.receive, hlast]
        rfl
      · intro floor' hstore'
        have hreceived' := hu.follows.read hstore'.rows (show 0 < mempoolEventPageSize by decide)
          hpage
        rw [if_neg hne] at hreceived'
        refine ⟨hw, hreceived', fun f hf => ?_, hcoherent, ?_⟩
        · cases first with
          | none =>
            cases hf
            exact hstore'.rows.safe
          | some f' =>
            cases hf
            exact hu.safe f rfl
        · rw [hreceived_observed]
          exact hentries

/-! ## The whole rebuild -/

/-- A restore whose requests are answered: nothing is cut off behind it. -/
structure PromptRestore (E : LogEnv) (floor : Nat) (s : OwnerSystem) (c : Consumer)
    (first : Option Nat) : Prop extends Restoring E s c first where
  store : StoreInvariant E s.writer.store s.writer.log floor
  room : s.writer.log.length + 1 < u64Bound
  prompt : s.script = []
  started : first = none ∨ first = some floor ∧ c.delivered ≠ []

theorem PromptRestore.reads {floor : Nat} (h : PromptRestore E floor s c first) :
    ∃ page, mempoolEventHistory E s.writer.store.rows c.resume mempoolEventPageSize = .ok page := by
  have hrows := h.store.rows
  have hfollows := h.follows
  have hstarted := h.started
  have hroom := h.room
  cases hfollows with
  | waiting => exact ⟨_, hrows.history_none (by decide)⟩
  | @following first position o hfirst hle hposition ho =>
    have hlength : position - 1 < s.writer.log.length := (List.getElem?_eq_some_iff.mp ho).1
    have hretained : ¬ position < floor := by
      intro hlt
      rcases hstarted with hnone | ⟨hfloor, hdelivered⟩
      · cases hnone
      · cases hfloor
        refine hdelivered (length_eq_zero_iff.mp ?_)
        rw [length_envelopesFrom, length_take]
        omega
    rw [hrows.history_after hposition ho (by decide), if_neg hretained, if_pos (by omega)]
    exact ⟨_, rfl⟩

/-- The page loop reaches the head of the log, and then the index is the replay of the whole log. -/
theorem restore_reaches_head {floor : Nat} (fuel : Nat) (h : PromptRestore E floor s c first)
    (hfuel : s.writer.log.length < fuel + c.delivered.length) :
    Triple (fun t => t = s) (repeatTurns (restoreTurn E) fuel c.resume)
      (AfterLoop fun t => ∃ index, t = s.withIndex index ∧ index.Coherent ∧
        index.entryMap = liveEntries s.writer.log)
      (fun _ _ => False) := by
  induction fuel generalizing s c first with
  | zero =>
    have := h.follows.length_delivered_le
    omega
  | succ fuel ih =>
    obtain ⟨page, hpage⟩ := h.reads
    refine Triple.bind (Triple.handle (restoreTurn_replays h.toRestoring) ?_) fun r => Triple.of_states ?_
    · rintro e t ⟨_, hfailed⟩
      obtain ⟨e', he'⟩ := hfailed h.prompt
      rw [hpage] at he'
      cases he'
    · rintro t ⟨index, u, page', rfl, ⟨w, rfl, _, _, hsame⟩, hpage', hcases⟩
      have hw := hsame h.prompt
      subst hw
      have hframe : OwnerSystem.mk s.writer s.owner s.script.tail = s := by
        obtain ⟨writer, owner, script⟩ := s
        have hprompt := h.prompt
        dsimp only at hprompt
        subst hprompt
        rfl
      rw [hframe] at hcases hpage' ⊢
      rcases hcases with ⟨_, ⟨after', rfl⟩, hcoherent, hentries⟩ | ⟨hne, rfl, hnext⟩
      · refine Triple.ret ?_
        rintro t rfl
        exact ⟨index, rfl, hcoherent, hentries⟩
      · have hrestoring := hnext floor h.store
        have hdelivered : (c.receive page').delivered = c.delivered ++ page' := rfl
        have hpos : 0 < page'.length := length_pos_iff.mpr hne
        have hprompt' : PromptRestore E floor (s.withIndex index) (c.receive page')
            (first.or (some floor)) := by
          refine ⟨hrestoring, h.store, h.room, h.prompt, .inr ⟨?_, ?_⟩⟩
          · rcases h.started with rfl | ⟨rfl, _⟩ <;> rfl
          · rw [hdelivered]
            exact append_ne_nil_of_right_ne_nil _ hne
        refine ih hprompt' ?_
        rw [hdelivered, length_append]
        change s.writer.log.length < _
        omega

theorem exec_restoreDurableIndex (fuel : Nat) (s : OwnerSystem) :
    (restoreDurableIndex E fuel).exec s =
      (repeatTurns (restoreTurn E) fuel none).exec (resetForRestore.exec s).2 := rfl

theorem restoreDurableIndex_rebuilds (hw : WriterInvariant E s.writer)
    (hroom : s.writer.log.length + 1 < u64Bound) (hprompt : s.script = []) {fuel : Nat}
    (hfuel : s.writer.log.length < fuel) :
    Triple (fun t => t = s) (restoreDurableIndex E fuel)
      (AfterLoop fun t => t.writer = s.writer ∧ t.owner.status = .hydrating ∧
        t.owner.index.entryMap = liveEntries s.writer.log)
      (fun _ _ => False) := by
  obtain ⟨floor, hstore⟩ := hw.store
  refine Triple.bind (Q := fun _ t => t = (resetForRestore.exec s).2) ?_ fun _ => ?_
  · rintro t rfl
    exact rfl
  · have hstart : PromptRestore E floor (resetForRestore.exec s).2 ⟨none, []⟩ none :=
      ⟨restoring_new hw rfl, hstore, hroom, hprompt, .inl rfl⟩
    refine Triple.post (restore_reaches_head fuel hstart hfuel) ?_
    intro r t ht
    cases r with
    | leave after =>
      obtain ⟨index, rfl, _, hentries⟩ := ht
      exact ⟨rfl, rfl, hentries⟩
    | again after => exact ht.elim

end Zinder.Mempool
