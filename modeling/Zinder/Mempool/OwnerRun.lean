import Zinder.Mempool.Hydration
import Zinder.Mempool.Restore

/-!
# Zinder.Mempool.OwnerRun

Whole runs of the live mempool owner: source transitions, snapshot hydrations, reconnects, retention
steps, crashes and restarts, with any fate for any request.

The run loop calls one operation after another under the gate. Steps here come in any order, which
includes the order of the loop. A crash may hit an operation at any of its requests; the restarted
owner first rebuilds its index page by page.
-/

namespace Zinder.Mempool

open KeyedLog Stateful List

/-! ## Runs -/

inductive OwnerOperation where
  | applyEvent (event : MempoolEvent) (observedAt : U64)
  | beginHydration
  | withdrawForRebuild
  | tryCompleteHydration (clock : TransactionId → U64) (certifiedAt : U64)
    (visibleTip : Except Status BlockId) (sourceTip : BlockId)

def OwnerOperation.program (E : LogEnv) : OwnerOperation → OwnerM Unit
  | applyEvent event observedAt => do
    let _ ← Mempool.applyEvent E event observedAt
    pure ()
  | beginHydration => Mempool.beginHydration
  | withdrawForRebuild => Mempool.withdrawForRebuild
  | tryCompleteHydration clock certifiedAt visibleTip sourceTip => do
    let _ ← Mempool.tryCompleteHydration E clock certifiedAt visibleTip sourceTip
    pure ()

/-- The writer and the owner between two operations. While the index is being rebuilt, `restoring`
is the cursor the next page resumes after. -/
structure OwnerState where
  writer : Writer
  owner : LiveMempoolOwner
  restoring : Option (Option StreamCursorTokenV1)

namespace OwnerState

def initial (batchTarget : Nat) : OwnerState :=
  ⟨⟨.empty, [], []⟩, .new batchTarget, some none⟩

def system (s : OwnerState) (script : List RequestScript) : OwnerSystem :=
  ⟨s.writer, s.owner, script⟩

def operate (E : LogEnv) (op : OwnerOperation) (script : List RequestScript) (s : OwnerState) :
    OwnerState :=
  let t := ((op.program E).exec (s.system script)).2
  ⟨t.writer, t.owner, none⟩

/-- A new process on the same store: the queue and everything in memory is gone. -/
def restart (batchTarget : Nat) (s : OwnerState) : OwnerState :=
  ⟨{ s.writer with store := s.writer.store.restart, queue := [] }, .new batchTarget, some none⟩

/-- One page of the rebuild. A failed rebuild starts over. -/
def restoreTurn (E : LogEnv) (after : Option StreamCursorTokenV1) (script : List RequestScript)
    (s : OwnerState) : OwnerState :=
  match (Mempool.restoreTurn E after).exec (s.system script) with
  | (.ok (.leave _), t) => ⟨t.writer, t.owner, none⟩
  | (.ok (.again after'), t) => ⟨t.writer, t.owner, some after'⟩
  | (.error _, t) => ⟨t.writer, (resetForRestore.exec t).2.owner, some none⟩

/-- The retention task's step; it has no part in the owner's state. -/
def prune (E : LogEnv) (now : U64) (retention : MempoolEventRetentionConfig)
    (budget : MempoolEventRetentionStepBudget) (script : List RequestScript) (s : OwnerState) :
    OwnerState :=
  { s with writer := ((pruneEvents E now retention budget).exec (s.system script)).2.writer }

end OwnerState

/-- A step of a run in which the requests of a surviving operation have only the given fates. -/
inductive OwnerStep (E : LogEnv) (Fate : RequestFate → Prop) : OwnerState → OwnerState → Prop where
  | operate (s : OwnerState) (op : OwnerOperation) (script : List RequestScript)
      (hrunning : s.restoring = none) (hfates : ∀ r ∈ script, Fate r.fate) :
    OwnerStep E Fate s (s.operate E op script)
  | crash (s : OwnerState) (op : OwnerOperation) (script : List RequestScript) (batchTarget : Nat)
      (hrunning : s.restoring = none) :
    OwnerStep E Fate s ((s.operate E op script).restart batchTarget)
  | restore (s : OwnerState) (after : Option StreamCursorTokenV1) (script : List RequestScript)
      (hrestoring : s.restoring = some after) : OwnerStep E Fate s (s.restoreTurn E after script)
  | prune (s : OwnerState) (now : U64) (retention : MempoolEventRetentionConfig)
      (budget : MempoolEventRetentionStepBudget) (script : List RequestScript) :
    OwnerStep E Fate s (s.prune E now retention budget script)
  | carryOut (s : OwnerState) (reply : WriteReply) :
    OwnerStep E Fate s { s with writer := s.writer.carryOutQueued E [reply] }
  | restart (s : OwnerState) (batchTarget : Nat) : OwnerStep E Fate s (s.restart batchTarget)

def OwnerReachable (E : LogEnv) (Fate : RequestFate → Prop) (s : OwnerState) : Prop :=
  ∃ batchTarget, Relation.ReflTransGen (OwnerStep E Fate) (.initial batchTarget) s

variable {E : LogEnv} {settled : Prop}

/-! ## The invariant of a run -/

/-- A running owner has the replay of the log in its index; one that rebuilds it follows the log. -/
structure RunInvariant (E : LogEnv) (s : OwnerState) : Prop where
  running : s.restoring = none → OwnerInvariant E (s.system [])
  restoring : ∀ after, s.restoring = some after →
    (∀ tip certifiedAt, s.owner.status ≠ .serving tip certifiedAt) ∧
      (∀ staged, s.owner.stagedGeneration = some staged → staged.Sound) ∧
      ∃ c first, c.resume = after ∧ Restoring E (s.system []) c first

variable {s : OwnerState}

theorem RunInvariant.writer (h : RunInvariant E s) : WriterInvariant E s.writer := by
  cases hphase : s.restoring with
  | none => exact (h.running hphase).writer
  | some after =>
    obtain ⟨_, _, c, first, _, hrestoring⟩ := h.restoring after hphase
    exact hrestoring.writer

theorem program_keeps (op : OwnerOperation) (s : OwnerSystem) (hs : Ready E settled s) :
    Triple (fun t => t = s) (op.program E) (fun _ t => Ready E settled t)
      (fun _ t => Failed E settled t) := by
  have hstart : ∀ t, t = s → Ready E settled t := by
    rintro t rfl
    exact hs
  cases op with
  | applyEvent event observedAt =>
    exact Triple.bind (Triple.pre (applyEvent_keeps event observedAt) hstart) fun _ => Triple.ret fun _ h => h
  | beginHydration =>
    exact Triple.pre beginHydration_keeps hstart
  | withdrawForRebuild =>
    exact Triple.pre withdrawForRebuild_keeps hstart
  | tryCompleteHydration clock certifiedAt visibleTip sourceTip =>
    exact Triple.bind (tryCompleteHydration_keeps clock certifiedAt visibleTip sourceTip s hs)
      fun _ => Triple.ret fun _ h => h.1

theorem Ends.left_of {α σ ε : Type} {P : σ → Prop} {Q : α → σ → Prop} {R : ε → σ → Prop}
    {r : Except ε α × σ} (h : Ends Q R r) (hQ : ∀ a s, Q a s → P s) (hR : ∀ e s, R e s → P s) :
    P r.2 := by
  rcases r with ⟨r, s⟩
  cases r with
  | ok a => exact hQ a s h
  | error e => exact hR e s h

theorem operate_durable (h : OwnerInvariant E (s.system [])) (op : OwnerOperation)
    (script : List RequestScript) : DurableInvariant E (s.operate E op script).writer := by
  have hready : Ready E False (s.system script) :=
    ⟨⟨h.writer, h.coherent, h.entries, h.staged⟩, fun hfalse => hfalse.elim⟩
  exact Ends.left_of (P := fun t => DurableInvariant E t.writer)
    (program_keeps op _ hready _ rfl) (fun _ t ht => ht.1.writer.toDurableInvariant)
    fun _ t ht => ht.1

theorem operate_settled (h : OwnerInvariant E (s.system [])) (op : OwnerOperation)
    {script : List RequestScript} (hsettled : ∀ r ∈ script, r.fate.Settled) :
    OwnerInvariant E ((s.operate E op script).system []) := by
  have hready : Ready E True (s.system script) :=
    ⟨⟨h.writer, h.coherent, h.entries, h.staged⟩, fun _ => hsettled⟩
  have hkept : Ready E True ((op.program E).exec (s.system script)).2 :=
    Ends.left_of (program_keeps op _ hready _ rfl) (fun _ t ht => ht) fun _ t ht => ht.2 trivial
  exact ⟨hkept.1.writer, hkept.1.coherent, hkept.1.entries, hkept.1.staged⟩

theorem runInvariant_new {w : Writer} (hw : WriterInvariant E w) (batchTarget : Nat) :
    RunInvariant E ⟨w, .new batchTarget, some none⟩ := by
  refine ⟨fun hphase => (by cases hphase), fun after hafter => ?_⟩
  cases hafter
  refine ⟨fun tip certifiedAt hstatus => (by cases hstatus), ?_, ⟨none, []⟩, none, rfl,
    restoring_new hw rfl⟩
  intro staged hstaged
  cases hstaged
  exact StagedMempoolGeneration.sound_new

theorem runInvariant_restart (h : DurableInvariant E s.writer) (batchTarget : Nat) :
    RunInvariant E (s.restart batchTarget) := by
  obtain ⟨floor, hstore⟩ := h.store
  exact runInvariant_new (w := { s.writer with store := s.writer.store.restart, queue := [] })
    ⟨⟨⟨floor, hstore.rows.without⟩, fun _ hmem => absurd hmem not_mem_nil⟩, h.applies⟩ batchTarget

theorem RunInvariant.setWriter (h : RunInvariant E s) {w : Writer} (hquiet : QuietWriter E w)
    (hlog : w.log = s.writer.log) :
    RunInvariant E { s with writer := w } := by
  have hw := h.writer.of_quiet hquiet hlog
  refine ⟨fun hphase => ?_, fun after hafter => ?_⟩
  · have hrunning := h.running hphase
    refine ⟨hw, hrunning.coherent, ?_, hrunning.staged⟩
    change s.owner.index.entryMap = liveEntries w.log
    rw [hlog]
    exact hrunning.entries
  · obtain ⟨hstatus, hstaged, c, first, hresume, hrestoring⟩ := h.restoring after hafter
    refine ⟨hstatus, hstaged, c, first, hresume, hw, ?_, ?_, hrestoring.coherent, hrestoring.entries⟩
    · change Follows E w.log c first
      rw [hlog]
      exact hrestoring.follows
    · change ∀ f, first = some f → CutSafe (changes w.log) (f - 1)
      rw [hlog]
      exact hrestoring.safe

theorem prune_keeps (h : RunInvariant E s) (now : U64) (retention : MempoolEventRetentionConfig)
    (budget : MempoolEventRetentionStepBudget) (script : List RequestScript) :
    RunInvariant E (s.prune E now retention budget script) := by
  obtain ⟨hw, hlog⟩ :=
    h.writer.pruneRequest now retention budget (s.system script).nextScript
  exact h.setWriter hw hlog

theorem restoreTurn_keeps (h : RunInvariant E s) {after : Option StreamCursorTokenV1}
    (hafter : s.restoring = some after) (script : List RequestScript) :
    RunInvariant E (s.restoreTurn E after script) := by
  obtain ⟨hstatus, hstaged, c, first, rfl, hrestoring⟩ := h.restoring after hafter
  have hscripted : Restoring E (s.system script) c first :=
    ⟨hrestoring.writer, hrestoring.follows, hrestoring.safe, hrestoring.coherent,
      hrestoring.entries⟩
  have hends := restoreTurn_replays hscripted (s.system script) rfl
  unfold OwnerState.restoreTurn
  rcases hrun : (Mempool.restoreTurn E c.resume).exec (s.system script) with ⟨r, t⟩
  rw [hrun] at hends
  cases r with
  | error e =>
    obtain ⟨⟨w, rfl, hw, hlog, _⟩, _⟩ := hends
    exact runInvariant_new hw _
  | ok r =>
    obtain ⟨index, u, page, rfl, ⟨w, rfl, hw, hlog, _⟩, _, hcases⟩ := hends
    rcases hcases with ⟨_, ⟨after', rfl⟩, hcoherent, hentries⟩ | ⟨_, rfl, hnext⟩
    · refine ⟨fun _ => ⟨hw, hcoherent, ?_, hstaged⟩, fun after' hafter' => (by cases hafter')⟩
      change index.entryMap = liveEntries w.log
      rw [hlog]
      exact hentries
    · refine ⟨fun hphase => (by cases hphase), fun after' hafter' => ?_⟩
      cases hafter'
      obtain ⟨floor, hstore⟩ := hw.store
      have hrest := hnext floor hstore
      exact ⟨hstatus, hstaged, _, _, rfl, hrest.writer, hrest.follows, hrest.safe, hrest.coherent,
        hrest.entries⟩

/-- Every state of a run whose surviving operations had settled requests satisfies the invariant. -/
theorem OwnerReachable.invariant (h : OwnerReachable E RequestFate.Settled s) :
    RunInvariant E s := by
  obtain ⟨batchTarget, hrun⟩ := h
  induction hrun with
  | refl =>
    have hempty : DurableInvariant E ⟨.empty, [], []⟩ := ⟨⟨1, (logHolds_empty E).without⟩, applies_nil⟩
    exact runInvariant_restart (s := .initial batchTarget) hempty batchTarget
  | tail _ hstep ih =>
    cases hstep with
    | operate op script hrunning hfates =>
      refine ⟨fun _ => operate_settled (ih.running hrunning) op hfates, fun after hafter => ?_⟩
      cases hafter
    | crash op script batchTarget' hrunning =>
      exact runInvariant_restart (operate_durable (ih.running hrunning) op script) batchTarget'
    | restore after script hrestoring => exact restoreTurn_keeps ih hrestoring script
    | prune now retention budget script => exact prune_keeps ih now retention budget script
    | carryOut reply =>
      obtain ⟨hw, hlog⟩ := ih.writer.carryOutQueued [reply]
      exact ih.setWriter hw hlog
    | restart batchTarget' => exact runInvariant_restart ih.writer.toDurableInvariant batchTarget'

/-! ## The served mempool -/

/-- In every run in which the owner learns the outcome of the append requests it survives, a serving
owner's index has exactly the transactions that the durable log leaves live. -/
theorem served_mempool_is_durable_log (E : LogEnv) {s : OwnerState}
    (h : OwnerReachable E RequestFate.Settled s) {sourceTip : BlockId} {certifiedAt : U64}
    (hserving : s.owner.status = .serving sourceTip certifiedAt) :
    ∃ envelopes, retainedEvents E s.writer.store.rows = .ok envelopes ∧
      (∀ id, s.owner.index.isInMempool id = true ↔
        liveEntries (envelopes.map MempoolEventEnvelope.observed) id ≠ none) ∧
      s.owner.index.entryMap = liveEntries (envelopes.map MempoolEventEnvelope.observed) ∧
      liveEntries (envelopes.map MempoolEventEnvelope.observed) = liveEntries s.writer.log := by
  have hinv := h.invariant
  have hrunning : s.restoring = none := by
    cases hphase : s.restoring with
    | none => rfl
    | some after => exact absurd hserving ((hinv.restoring after hphase).1 sourceTip certifiedAt)
  obtain ⟨floor, hstore⟩ := hinv.writer.store
  have hreplay : liveEntries ((LogHolds.envelopesFrom E (floor - 1)
      (s.writer.log.drop (floor - 1))).map MempoolEventEnvelope.observed) =
      liveEntries s.writer.log := by
    rw [observed_envelopesFrom, liveEntries_drop hstore.rows.safe]
  have hentries : s.owner.index.entryMap = liveEntries s.writer.log :=
    (hinv.running hrunning).entries
  refine ⟨_, hstore.rows.retainedEvents_eq, fun id => ?_, ?_, hreplay⟩
  · rw [hreplay, isInMempool_eq, hentries, ← Option.isSome_iff_ne_none]
  · rw [hreplay, hentries]

def OwnerState.operations (E : LogEnv) :
    List (OwnerOperation × List RequestScript) → OwnerState → OwnerState
  | [], s => s
  | (op, script) :: rest, s => (s.operate E op script).operations E rest

theorem OwnerReachable.operations {Fate : RequestFate → Prop} (h : OwnerReachable E Fate s)
    (hrunning : s.restoring = none) (ops : List (OwnerOperation × List RequestScript))
    (hfates : ∀ op ∈ ops, ∀ r ∈ op.2, Fate r.fate) :
    OwnerReachable E Fate (s.operations E ops) := by
  induction ops generalizing s with
  | nil => exact h
  | cons op rest ih =>
    rw [forall_mem_cons] at hfates
    obtain ⟨batchTarget, hrun⟩ := h
    exact ih ⟨batchTarget, hrun.tail (.operate s op.1 op.2 hrunning hfates.1)⟩ rfl hfates.2

def sampleTip : BlockId := ⟨1, byteId 9⟩

def sampleSnapshot (entries : List MempoolEntry) : List (OwnerOperation × List RequestScript) :=
  (.beginHydration, []) :: entries.map (fun entry => (.applyEvent (.added entry) 0, [])) ++
    [(.tryCompleteHydration (fun _ => 0) 0 (.ok sampleTip) sampleTip, [])]

def sampleStart (E : LogEnv) : OwnerState := (OwnerState.initial 1000).restoreTurn E none []

theorem sampleStart_reachable (E : LogEnv) (Fate : RequestFate → Prop) :
    OwnerReachable E Fate (sampleStart E) :=
  ⟨1000, .single (.restore _ none [] rfl)⟩

theorem sampleSnapshot_reachable {entries : List MempoolEntry}
    (hstarted : (sampleStart E).restoring = none) :
    OwnerReachable E RequestFate.Settled
      ((sampleStart E).operations E (sampleSnapshot entries)) := by
  refine (sampleStart_reachable E _).operations hstarted _ fun op hop r hr => ?_
  simp only [sampleSnapshot, cons_append, mem_cons, mem_append, mem_map, not_mem_nil, or_false]
    at hop
  rcases hop with rfl | ⟨_, _, rfl⟩ | rfl <;> cases hr

theorem served_mempool_is_durable_log_sample :
    let E := listedLogEnv [(.added (plainEntry (byteId 1) []), 0)]
    let s := (sampleStart E).operations E (sampleSnapshot [plainEntry (byteId 1) []])
    s.owner.status = .serving sampleTip 0 ∧ s.owner.index.isInMempool (byteId 1) = true ∧
      ∃ envelopes, retainedEvents E s.writer.store.rows = .ok envelopes ∧
        (∀ id, s.owner.index.isInMempool id = true ↔
          liveEntries (envelopes.map MempoolEventEnvelope.observed) id ≠ none) ∧
        s.owner.index.entryMap = liveEntries (envelopes.map MempoolEventEnvelope.observed) ∧
        liveEntries (envelopes.map MempoolEventEnvelope.observed) = liveEntries s.writer.log := by
  intro E s
  have hserving : s.owner.status = .serving sampleTip 0 := by decide +kernel
  exact ⟨hserving, by decide +kernel,
    served_mempool_is_durable_log E (sampleSnapshot_reachable (by decide +kernel)) hserving⟩

/-- The reply to an append got lost, and the next snapshot no longer has the transaction. -/
def sampleLostAppend (entry : MempoolEntry) (snapshot : List MempoolEntry) :
    List (OwnerOperation × List RequestScript) :=
  sampleSnapshot [] ++ [(.applyEvent (.added entry) 0, [⟨[], .lost .done⟩]),
    (.withdrawForRebuild, [])] ++ sampleSnapshot snapshot

/-- The owner serves an empty mempool while the durable log still has the transaction live, and
nothing waits in the writer's queue. -/
theorem lost_append_reply_splits_mempool_from_log :
    ∃ (E : LogEnv) (s : OwnerState) (id : TransactionId), OwnerReachable E (fun _ => True) s ∧
      s.owner.status = .serving sampleTip 0 ∧ s.writer.queue = [] ∧
      s.owner.index.isInMempool id = false ∧ (liveEntries s.writer.log id).isSome = true ∧
      (retainedEvents E s.writer.store.rows).map (fun envelopes =>
        (liveEntries (envelopes.map MempoolEventEnvelope.observed) id).isSome) = .ok true := by
  refine ⟨listedLogEnv [(.added (plainEntry (byteId 1) []), 0)], _, byteId 1,
    (sampleStart_reachable _ _).operations (by decide +kernel)
      (sampleLostAppend (plainEntry (byteId 1) []) []) fun _ _ _ _ => trivial, ?_, ?_, ?_, ?_, ?_⟩
  · decide +kernel
  · exact List.isEmpty_iff.mp (by decide +kernel)
  · decide +kernel
  · decide +kernel
  · decide +kernel

/-! ## Restarting -/

/-- After every such run a restarted owner rebuilds its index without a rejected transition, and the
index has exactly the live transactions of the log. -/
theorem restore_after_settled_run (E : LogEnv) {s : OwnerState}
    (h : OwnerReachable E RequestFate.Settled s) (hroom : s.writer.log.length + 1 < u64Bound)
    (batchTarget : Nat) {fuel : Nat} (hfuel : s.writer.log.length < fuel) :
    ∃ after t, (restoreDurableIndex E fuel).exec ((s.restart batchTarget).system []) =
        (.ok (.leave after), t) ∧
      t.owner.index.entryMap = liveEntries s.writer.log ∧ t.owner.status = .hydrating := by
  have hdurable := h.invariant.writer.toDurableInvariant
  have hw : WriterInvariant E (s.restart batchTarget).writer :=
    (runInvariant_restart hdurable batchTarget).writer
  have hends := restoreDurableIndex_rebuilds (s := (s.restart batchTarget).system []) hw hroom rfl
    hfuel _ rfl
  rcases hrun : (restoreDurableIndex E fuel).exec ((s.restart batchTarget).system []) with ⟨r, t⟩
  rw [hrun] at hends
  cases r with
  | ok turn =>
    cases turn with
    | leave after => exact ⟨after, t, rfl, hends.2.2, hends.2.1⟩
    | again after => exact hends.elim
  | error e => exact hends.elim

theorem restore_after_settled_run_sample :
    let E := listedLogEnv [(.added (plainEntry (byteId 1) []), 0)]
    let s := (sampleStart E).operations E (sampleSnapshot [plainEntry (byteId 1) []])
    (liveEntries s.writer.log (byteId 1)).isSome = true ∧
      ∃ after t, (restoreDurableIndex E 2).exec ((s.restart 1000).system []) =
          (.ok (.leave after), t) ∧
        t.owner.index.entryMap = liveEntries s.writer.log ∧ t.owner.status = .hydrating := by
  intro E s
  exact ⟨by decide +kernel, restore_after_settled_run E
    (sampleSnapshot_reachable (by decide +kernel)) (by decide +kernel) 1000 (by decide +kernel)⟩

/-- The lost transaction and the one that replaced it spend the same output. The log has both, and
from then on every rebuild of the index is rejected. -/
theorem lost_append_reply_blocks_restore :
    ∃ (E : LogEnv) (s : OwnerState) (o : TransparentOutPoint), OwnerReachable E (fun _ => True) s ∧
      s.owner.status = .serving sampleTip 0 ∧
      ∀ fuel, ((restoreDurableIndex E (fuel + 1)).exec ((s.restart 1000).system [])).1 =
        .error ⟨.failedPrecondition, "durable mempool history cannot rebuild the live index",
          some (.spendCollision o)⟩ := by
  refine ⟨listedLogEnv [(.added (plainEntry (byteId 1) [⟨byteId 7, 0⟩]), 0),
      (.added (plainEntry (byteId 2) [⟨byteId 7, 0⟩]), 0)], _, ⟨byteId 7, 0⟩,
    (sampleStart_reachable _ _).operations (by decide +kernel)
      (sampleLostAppend (plainEntry (byteId 1) [⟨byteId 7, 0⟩]) [plainEntry (byteId 2) [⟨byteId 7, 0⟩]])
      fun _ _ _ _ => trivial, ?_, ?_⟩
  · decide +kernel
  · intro fuel
    rw [exec_restoreDurableIndex]
    refine repeatTurns_error ?_ fuel
    decide +kernel

end Zinder.Mempool
