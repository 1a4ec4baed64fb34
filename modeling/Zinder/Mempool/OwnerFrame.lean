import Zinder.Mempool.OwnerRun

/-!
# Zinder.Mempool.OwnerFrame

What every operation of the owner keeps, whatever becomes of its requests: the store is one some run
of appends, retention steps and restarts leaves, every entry of the live index stands under its own
id, and the index is empty until the log has its first event.
-/

namespace Zinder.Mempool

open Stateful List

variable {E : LogEnv}

/-! ## The writer -/

/-- A store a run leaves, and whether its log has an event. -/
def WriterKept (E : LogEnv) (w w' : Writer) : Prop :=
  LogReachable E w'.store w'.log ∧ ∃ more, w'.log = w.log ++ more

section Writer

variable {w : Writer}

theorem kept_appendEvents (h : LogReachable E w.store w.log) (events : List ObservedEvent)
    (reply : WriteReply) : WriterKept E w (w.appendEvents E events reply).2 :=
  ⟨h.tail (.append w.store w.log events reply), _, rfl⟩

theorem kept_pruneEvents (h : LogReachable E w.store w.log) (now : U64)
    (retention : MempoolEventRetentionConfig) (budget : MempoolEventRetentionStepBudget)
    (reply : WriteReply) : WriterKept E w (w.pruneEvents E now retention budget reply).2 :=
  ⟨h.tail (.retain w.store w.log reply now retention budget), [], (append_nil _).symm⟩

theorem WriterKept.trans {w w' w'' : Writer} (h : WriterKept E w w') (h' : WriterKept E w' w'') :
    WriterKept E w w'' := by
  obtain ⟨_, more, hmore⟩ := h
  obtain ⟨hreachable, more', hmore'⟩ := h'
  exact ⟨hreachable, more ++ more', by rw [hmore', hmore, append_assoc]⟩

theorem kept_carryOutQueued (h : LogReachable E w.store w.log) (replies : List WriteReply) :
    WriterKept E w (w.carryOutQueued E replies) := by
  induction replies generalizing w with
  | nil => exact ⟨h, [], (append_nil _).symm⟩
  | cons reply replies ih =>
    rw [Writer.carryOutQueued]
    cases w.queue with
    | nil => exact ⟨h, [], (append_nil _).symm⟩
    | cons command queue =>
      have hfirst : WriterKept E w ({ w with queue }.carryOut E command reply) := by
        cases command with
        | append events =>
          exact kept_appendEvents (w := { w with queue }) h events reply
        | prune now retention budget =>
          exact kept_pruneEvents (w := { w with queue }) h now retention budget reply
      exact hfirst.trans (ih hfirst.1)

theorem kept_request {α : Type} {command : WriterCommand}
    {perform : WriteReply → Writer → Except MempoolLogError α × Writer}
    (hperform : ∀ reply w', LogReachable E w'.store w'.log → WriterKept E w' (perform reply w').2)
    (h : LogReachable E w.store w.log) (script : RequestScript) :
    WriterKept E w (w.request E command perform script).2 := by
  have hqueued := kept_carryOutQueued h script.earlier
  unfold Writer.request
  cases script.fate with
  | queueFull => exact hqueued
  | writerGone => exact hqueued
  | answered reply => exact hqueued.trans (hperform reply _ hqueued.1)
  | lost reply => exact hqueued.trans (hperform reply _ hqueued.1)
  | late => exact hqueued

end Writer

/-! ## The owner -/

structure FrameInvariant (E : LogEnv) (s : OwnerSystem) : Prop where
  reachable : LogReachable E s.writer.store s.writer.log
  ownIds : s.owner.index.OwnIds
  started : s.writer.log = [] → ∀ id, s.owner.index.entryMap id = none

/-- The invariant, with a log that has its first event. -/
def Begun (E : LogEnv) (s : OwnerSystem) : Prop := FrameInvariant E s ∧ s.writer.log ≠ []

theorem FrameInvariant.setWriter {s : OwnerSystem} (h : FrameInvariant E s) {w : Writer}
    (hw : WriterKept E s.writer w) (script : List RequestScript) :
    FrameInvariant E { s with writer := w, script } := by
  obtain ⟨hreachable, more, hmore⟩ := hw
  refine ⟨hreachable, h.ownIds, fun hempty => h.started ?_⟩
  change w.log = [] at hempty
  rw [hmore] at hempty
  exact (append_eq_nil_iff.mp hempty).1

theorem frame_setStatus (status : MempoolOwnerStatus) :
    Preserves (FrameInvariant E) (setStatus status) :=
  Triple.update fun _ hs => ⟨hs.reachable, hs.ownIds, hs.started⟩

theorem frame_setStaged (staged : Option StagedMempoolGeneration) :
    Preserves (FrameInvariant E) (setStagedGeneration staged) :=
  Triple.update fun _ hs => ⟨hs.reachable, hs.ownIds, hs.started⟩

theorem frame_fail {α : Type} {Q : α → OwnerSystem → Prop} (status : Status) :
    Triple (FrameInvariant E) (do markRebuildRequired; throw status) Q (fun _ => FrameInvariant E) :=
  Triple.bind (frame_setStatus _) fun _ => Triple.fail fun _ hs => hs

theorem frame_preflight {P : OwnerSystem → Prop} (hP : ∀ s, P s → FrameInvariant E s)
    (index : MempoolIndex) (event : MempoolEvent) (message : String) :
    Triple P (preflightOrRebuild index event message) (fun _ s => P s)
      (fun _ => FrameInvariant E) := by
  unfold preflightOrRebuild
  cases index.preflightEvent event with
  | ok p => exact Triple.ret fun _ hs => hs
  | error e => exact Triple.pre (frame_fail _) hP

theorem frame_append {α : Type} {events : List ObservedEvent} (hne : events ≠ []) {value : Nat → α}
    {perform : WriteReply → Writer → Except MempoolLogError α × Writer}
    (hanswers : AnswersAppend E events value perform) :
    Triple (FrameInvariant E) (exchange (Writer.request E (.append events) perform))
      (fun a s => Begun E s ∧ ∃ n, a = value n) (fun _ => FrameInvariant E) := by
  refine exchange_triple fun s hs => ?_
  have hkept := kept_carryOutQueued hs.reachable s.nextScript.earlier
  have hperformed : ∀ reply, WriterKept E s.writer
      (perform reply (s.writer.carryOutQueued E s.nextScript.earlier)).2 := by
    intro reply
    rw [(hanswers reply _ hkept.1.invariant).1]
    exact hkept.trans (kept_appendEvents hkept.1 events reply)
  unfold Writer.request
  cases s.nextScript.fate with
  | queueFull => exact hs.setWriter hkept _
  | writerGone => exact hs.setWriter hkept _
  | late =>
    have hlate : WriterKept E s.writer { s.writer.carryOutQueued E s.nextScript.earlier with
        queue := (s.writer.carryOutQueued E s.nextScript.earlier).queue ++ [.append events] } := hkept
    exact hs.setWriter hlate _
  | lost reply => exact hs.setWriter (hperformed reply) _
  | answered reply =>
    have hframe := hs.setWriter (hperformed reply) s.script.tail
    obtain ⟨hstate, hvalue⟩ := hanswers reply _ hkept.1.invariant
    dsimp only
    rw [hstate] at hframe ⊢
    rw [hvalue]
    cases hreply : ((s.writer.carryOutQueued E s.nextScript.earlier).appendEvents E events reply).1 with
    | error e => exact hframe
    | ok envelopes =>
      refine ⟨⟨hframe, ?_⟩, _, rfl⟩
      change ((s.writer.carryOutQueued E s.nextScript.earlier).appendEvents E events reply).2.log ≠ []
      rw [(appendEvents_reply hkept.1.invariant events reply hreply).2]
      exact append_ne_nil_of_right_ne_nil _ hne

variable (event : MempoolEvent)

theorem frame_apply (position : MempoolEventPosition) (status : Status) :
    Triple (Begun E) (applyOrRebuild event position status) (fun _ => Begun E)
      (fun _ => FrameInvariant E) := by
  refine Triple.get_bind fun s hs => ?_
  have hids := ownIds_applyToIndex hs.1.ownIds event position
  rcases hrun : applyToIndex s.owner.index event position with ⟨outcome, index⟩
  rw [hrun] at hids
  refine Triple.bind (Q := fun _ => Begun E) (Triple.update ?_) fun _ => ?_
  · rintro t rfl
    exact ⟨⟨hs.1.reachable, hids, fun hempty => absurd hempty hs.2⟩, hs.2⟩
  · split
    · exact Triple.pre (frame_fail _) (fun _ ht => ht.1)
    · exact Triple.ret fun _ ht => ht

theorem frame_applyEnvelopes (envelopes : List MempoolEventEnvelope) :
    Triple (Begun E) (applyEnvelopes envelopes) (fun _ => Begun E)
      (fun _ => FrameInvariant E) := by
  induction envelopes with
  | nil => exact Triple.ret fun _ hs => hs
  | cons envelope rest ih => exact Triple.bind (frame_apply _ _ _) fun _ => ih

theorem frame_preflightTransitions (index : MempoolIndex) (transitions : List ObservedEvent) :
    Preserves (FrameInvariant E) (preflightTransitions index transitions) := by
  induction transitions with
  | nil => exact Triple.ret fun _ hs => hs
  | cons event rest ih =>
    exact Triple.bind (frame_preflight (fun _ h => h) _ _ _) fun _ => Triple.bind ih fun _ =>
      Triple.ret fun _ hs => hs

theorem frame_batch (transitions : List ObservedEvent) :
    Preserves (FrameInvariant E) (appendAndApplyReconciliationBatchLocked E transitions) := by
  refine Triple.bind Preserves.read fun s => ?_
  refine Triple.bind (frame_preflightTransitions _ transitions) fun applicable => ?_
  split
  · exact Triple.ret fun _ hs => hs
  · next hne =>
    refine Triple.bind (Triple.post (frame_append hne (answersAppend_appendEvents _))
      (fun _ _ h => h.1)) fun envelopes => ?_
    split
    · exact Triple.pre (frame_fail _) (fun _ ht => ht.1)
    · exact Triple.post (frame_applyEnvelopes envelopes) (fun _ _ h => h.1)

theorem frame_batchRule :
    BatchRule E (fun _ => True) (fun _ => FrameInvariant E) (fun _ => FrameInvariant E) :=
  ⟨fun _ => trivial, fun _ => frame_batch _⟩

theorem frame_reconcile (staged : StagedMempoolGeneration) (clock : TransactionId → U64) :
    Preserves (FrameInvariant E) (reconcileStagedGenerationLocked E staged clock) := by
  have htransitions : ∀ batchEvents transitions, Preserves (FrameInvariant E)
      (appendAndApplyReconciliationTransitionsLocked E batchEvents transitions) :=
    fun batchEvents _ => @BatchRule.appendTransitions _ _ _ _ frame_batchRule batchEvents [] _ trivial
  refine Triple.bind (Triple.bind Preserves.read fun _ => Triple.bind
    (Triple.repeatTurns_invariant ?_ _ _) fun _ => Preserves.ret) fun _ =>
    Triple.bind (Triple.repeatTurns_invariant ?_ _ _) fun _ => Preserves.ret
  all_goals
    refine fun after => Triple.bind Preserves.read fun s => ?_
    dsimp only
    split
    · exact Preserves.ret
    · exact Triple.bind (htransitions _ _) fun _ => Preserves.ret

theorem frame_stage (observedAt : U64) :
    Preserves (FrameInvariant E) (stageEventLocked event observedAt) := by
  refine Triple.bind Preserves.read fun s => ?_
  cases s.owner.stagedGeneration with
  | none => exact Triple.fail fun _ hs => hs
  | some staged =>
    refine Triple.bind (frame_setStaged _) fun _ =>
      Triple.bind (frame_preflight (fun _ h => h) _ _ _) fun p => ?_
    split
    · exact Triple.ret fun _ hs => hs
    · cases (staged.noteTerminalEvent (event, observedAt)).nextPosition event.transactionId with
      | error status => exact Triple.fail fun _ hs => hs
      | ok next =>
        obtain ⟨position, staged'⟩ := next
        dsimp only
        rcases applyToIndex staged'.index event position with ⟨outcome, index⟩
        refine Triple.bind (frame_setStaged _) fun _ => ?_
        split
        · exact frame_fail _
        · exact Triple.ret fun _ hs => hs

theorem frame_appendAndApply (observedAt : U64) :
    Preserves (FrameInvariant E) (appendAndApplyLocked E event observedAt) := by
  refine Triple.bind Preserves.read fun s => ?_
  refine Triple.bind (frame_preflight (fun _ h => h) _ _ _) fun p => ?_
  split
  · exact Triple.ret fun _ hs => hs
  · refine Triple.bind (Triple.post (frame_append (cons_ne_nil _ _)
      (answersAppend_appendEvent (event, observedAt))) (fun _ _ h => h.1)) fun envelope => ?_
    exact Triple.bind (frame_apply _ _ _) fun _ => Triple.ret fun _ hs => hs.1

/-- Whatever becomes of its requests, an operation keeps the frame. -/
theorem frame_program (op : OwnerOperation) : Preserves (FrameInvariant E) (op.program E) := by
  cases op with
  | applyEvent event observedAt =>
    refine Triple.bind (Triple.bind Preserves.read fun s => ?_) fun _ => Triple.ret fun _ hs => hs
    cases s.owner.status with
    | hydrating => exact frame_stage event observedAt
    | serving tip certifiedAt => exact frame_appendAndApply event observedAt
    | rebuildRequired => exact Triple.fail fun _ hs => hs
  | beginHydration => exact Triple.bind (frame_setStaged _) fun _ => frame_setStatus _
  | withdrawForRebuild => exact Triple.bind (frame_setStaged _) fun _ => frame_setStatus _
  | tryCompleteHydration clock certifiedAt visibleTip sourceTip =>
    refine Triple.bind (Triple.bind Preserves.read fun s => ?_) fun _ => Triple.ret fun _ hs => hs
    split
    · exact Triple.fail fun _ hs => hs
    · cases visibleTip with
      | error status => exact Triple.fail fun _ hs => hs
      | ok visibleTip =>
        dsimp only
        split
        · exact Triple.ret fun _ hs => hs
        · cases s.owner.stagedGeneration with
          | none => exact Triple.fail fun _ hs => hs
          | some staged =>
            exact Triple.bind (frame_setStaged _) fun _ => Triple.bind (frame_reconcile staged clock)
              fun _ => Triple.bind (frame_setStatus _) fun _ => Triple.ret fun _ hs => hs

theorem frame_restoreEnvelopes (envelopes : List MempoolEventEnvelope) :
    Triple (Begun E) (restoreEnvelopes envelopes) (fun _ => Begun E)
      (fun _ => FrameInvariant E) := by
  induction envelopes with
  | nil => exact Triple.ret fun _ hs => hs
  | cons envelope rest ih =>
    refine Triple.bind (Q := fun _ => Begun E) (Triple.read fun _ hs => hs) fun s => ?_
    refine Triple.bind (frame_preflight (fun _ h => h.1) _ _ _) fun p => ?_
    split
    · exact ih
    · exact Triple.bind (frame_apply _ _ _) fun _ => ih

theorem log_ne_nil_of_page {rows : MempoolRows} {log : List ObservedEvent} {floor maxEvents : Nat}
    (h : LogHolds E rows log floor) {fromCursor : Option StreamCursorTokenV1}
    {page : List MempoolEventEnvelope} (hne : page ≠ [])
    (hread : mempoolEventHistory E rows fromCursor maxEvents = .ok page) : log ≠ [] := by
  rintro rfl
  simp only [mempoolEventHistory, h.currentSequence, ok_bind, length_nil, if_true, bind_eq_ok,
    rejectIf_eq_ok] at hread
  obtain ⟨_, _, heq⟩ := hread
  exact hne (Except.ok.inj heq).symm

theorem frame_restoreTurn (after : Option StreamCursorTokenV1) :
    Preserves (FrameInvariant E) (restoreTurn E after) := by
  have hpage : Triple (FrameInvariant E) (requestEventPage E after mempoolEventPageSize)
      (fun page s => FrameInvariant E s ∧ (page ≠ [] → s.writer.log ≠ []))
      (fun _ => FrameInvariant E) := by
    refine exchange_triple fun s hs => ?_
    have hkept := kept_carryOutQueued hs.reachable s.nextScript.earlier
    have hframe := hs.setWriter hkept s.script.tail
    unfold Writer.requestRead
    cases s.nextScript.fate with
    | queueFull => exact hframe
    | writerGone => exact hframe
    | lost reply => exact hframe
    | late => exact hframe
    | answered reply =>
      dsimp only
      cases hread : mempoolEventHistory E
          (s.writer.carryOutQueued E s.nextScript.earlier).store.rows after mempoolEventPageSize with
      | error e => exact hframe
      | ok page =>
        refine ⟨hframe, fun hne => ?_⟩
        obtain ⟨floor, hstore⟩ := hkept.1.invariant
        exact log_ne_nil_of_page hstore.rows hne hread
  refine Triple.bind hpage fun page => ?_
  cases hlast : page.getLast? with
  | none => exact Triple.ret fun _ hs => hs.1
  | some last =>
    have hne : page ≠ [] := by
      rintro rfl
      cases hlast
    refine Triple.bind (Triple.consequence (frame_restoreEnvelopes page) (fun _ h => ⟨h.1, h.2 hne⟩)
      (fun _ _ h => h.1) fun _ _ h => h) fun _ => Triple.ret fun _ hs => hs

/-! ## Whole runs -/

theorem frame_new {w : Writer} {owner : LiveMempoolOwner} (hw : LogReachable E w.store w.log)
    (hindex : owner.index = .new) : FrameInvariant E ⟨w, owner, []⟩ := by
  refine ⟨hw, ?_, fun _ id => ?_⟩
  · rw [hindex]
    exact MempoolIndex.coherent_new.transactionId
  · change owner.index.entryMap id = none
    rw [hindex]
    exact Std.ExtTreeMap.getElem?_empty

variable {s : OwnerState}

theorem frame_restart (h : LogReachable E s.writer.store s.writer.log) (batchTarget : Nat) :
    FrameInvariant E ((s.restart batchTarget).system []) :=
  frame_new (h.tail (.restart s.writer.store s.writer.log)) rfl

theorem FrameInvariant.script {s : OwnerSystem} (h : FrameInvariant E s)
    (script : List RequestScript) : FrameInvariant E { s with script } :=
  ⟨h.reachable, h.ownIds, h.started⟩

theorem frame_operate (h : FrameInvariant E (s.system [])) (op : OwnerOperation)
    (script : List RequestScript) : FrameInvariant E ((s.operate E op script).system []) := by
  have hkept : FrameInvariant E ((op.program E).exec (s.system script)).2 :=
    Ends.left_of (frame_program op _ (h.script script)) (fun _ _ ht => ht) fun _ _ ht => ht
  exact hkept.script []

theorem OwnerReachable.frame {Fate : RequestFate → Prop} (h : OwnerReachable E Fate s) :
    FrameInvariant E (s.system []) := by
  obtain ⟨batchTarget, hrun⟩ := h
  induction hrun with
  | refl => exact frame_new .refl rfl
  | @tail b c _ hstep ih =>
    cases hstep with
    | operate op script hrunning hfates => exact frame_operate ih op script
    | crash op script batchTarget' hrunning =>
      exact frame_restart (frame_operate ih op script).reachable batchTarget'
    | restore after script hrestoring =>
      have hends := frame_restoreTurn after (b.system script) (ih.script script)
      unfold OwnerState.restoreTurn
      rcases hrun : (Mempool.restoreTurn E after).exec (b.system script) with ⟨r, t⟩
      rw [hrun] at hends
      cases r with
      | error e => exact frame_new hends.reachable rfl
      | ok r =>
        cases r with
        | leave after' => exact FrameInvariant.script hends []
        | again after' => exact FrameInvariant.script hends []
    | prune now retention budget script =>
      have hkept : WriterKept E b.writer (b.writer.request E (.prune now retention budget)
          (Writer.pruneEvents E now retention budget) (b.system script).nextScript).2 :=
        kept_request (fun reply w hw => kept_pruneEvents hw now retention budget reply) ih.reachable _
      exact ih.setWriter hkept []
    | carryOut reply => exact ih.setWriter (kept_carryOutQueued ih.reachable [reply]) []
    | restart batchTarget' => exact frame_restart ih.reachable batchTarget'

end Zinder.Mempool
