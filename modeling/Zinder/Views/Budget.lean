import Mathlib

/-!
# Zinder.Views.Budget

The replay budget of the materialized-view tailer: a hysteresis machine over memory pressure and a
gate that pauses replay outside tip follow. The stricter of the two decides.

Ratios are `f64` in the source and rationals here.
-/

namespace Zinder.Views

/-- In order of throttle severity. -/
inductive MaterializedViewReplayBudgetState where
  | normal
  | degraded
  | paused
deriving DecidableEq

namespace MaterializedViewReplayBudgetState

def isPaused : MaterializedViewReplayBudgetState → Bool
  | paused => true
  | _ => false

/-- The stricter of two states. -/
def max : MaterializedViewReplayBudgetState → MaterializedViewReplayBudgetState →
    MaterializedViewReplayBudgetState
  | paused, _ | _, paused => paused
  | degraded, _ | _, degraded => degraded
  | normal, normal => normal

end MaterializedViewReplayBudgetState

inductive IngestPhase where
  | awaitingUpstream
  | bulkCatchup
  | followingTip
deriving DecidableEq

inductive MaterializedViewReplayPolicy where
  | canonicalFirst
  | continuous
deriving DecidableEq

structure MaterializedViewReplayConfig where
  replayBatchBlocks : Nat
  replayPolicy : MaterializedViewReplayPolicy
  memoryBudgetBytes : Option Nat
  memoryDegradeRatio : Rat
  memoryPauseRatio : Rat
  memoryResumeRatio : Rat
  minReplayBatchBlocks : Nat

/-- `MaterializedViewReplayConfig::DEFAULT`. -/
def MaterializedViewReplayConfig.default : MaterializedViewReplayConfig where
  replayBatchBlocks := 100
  replayPolicy := .canonicalFirst
  memoryBudgetBytes := none
  memoryDegradeRatio := 9 / 10
  memoryPauseRatio := 99 / 100
  memoryResumeRatio := 8 / 10
  minReplayBatchBlocks := 10

structure RuntimeMemorySnapshot where
  cgroupMaxBytes : Option Nat
  cgroupHighBytes : Option Nat
  cgroupAnonBytes : Option Nat
  processRssAnonBytes : Option Nat

def RuntimeMemorySnapshot.nonReclaimableBytes (m : RuntimeMemorySnapshot) : Option Nat :=
  m.cgroupAnonBytes.or m.processRssAnonBytes

/-- What one budget check finds: the memory, the ingest phase, and whether the process is being
cancelled. -/
structure BudgetSample where
  memory : RuntimeMemorySnapshot
  phase : Option IngestPhase
  cancelled : Bool

structure EffectiveMaterializedViewReplayLimits where
  state : MaterializedViewReplayBudgetState
  batchBlocks : Nat

def phaseEngagesReplayGate : Option IngestPhase → Bool
  | some .followingTip => false
  | _ => true

variable (config : MaterializedViewReplayConfig) (memoryState : MaterializedViewReplayBudgetState)

def nextMemoryBudgetState (currentState : MaterializedViewReplayBudgetState)
    (memoryPressureRatio : Option Rat) :
    MaterializedViewReplayBudgetState :=
  match memoryPressureRatio with
  | none => .normal
  | some pressureRatio =>
    match currentState with
    | .normal =>
      if config.memoryPauseRatio ≤ pressureRatio then .paused
      else if config.memoryDegradeRatio ≤ pressureRatio then .degraded
      else .normal
    | .degraded =>
      if config.memoryPauseRatio ≤ pressureRatio then .paused
      else if pressureRatio < config.memoryResumeRatio then .normal
      else .degraded
    | .paused =>
      if config.memoryPauseRatio ≤ pressureRatio then .paused
      else if config.memoryResumeRatio ≤ pressureRatio then .degraded
      else .normal

def composeReplayState (phaseGateEngaged : Bool) : MaterializedViewReplayBudgetState :=
  let memoryApplies := config.replayPolicy = .canonicalFirst ∨ phaseGateEngaged = true
  let appliedMemoryState := if memoryApplies then memoryState else .normal
  let gateFloor := if phaseGateEngaged then .paused else .normal
  appliedMemoryState.max gateFloor

def effectiveReplayBatchBlocks (state : MaterializedViewReplayBudgetState)
    (memoryPressureRatio : Option Rat) (phaseGateEngaged : Bool) : Nat :=
  match state with
  | .normal => config.replayBatchBlocks
  | .paused => 0
  | .degraded =>
    if phaseGateEngaged then config.minReplayBatchBlocks
    else
      let midpoint := config.memoryDegradeRatio +
        (config.memoryPauseRatio - config.memoryDegradeRatio) / 2
      if memoryPressureRatio.any fun ratio => midpoint ≤ ratio then config.minReplayBatchBlocks
      else Nat.max (config.replayBatchBlocks / 2) config.minReplayBatchBlocks

/-- The pressure ratio of `MaterializedViewReplayBudget::evaluate`. -/
def memoryPressureRatio (memory : RuntimeMemorySnapshot) : Option Rat :=
  let memoryBudgetBytes :=
    (config.memoryBudgetBytes.or memory.cgroupHighBytes).or memory.cgroupMaxBytes
  match memory.nonReclaimableBytes, memoryBudgetBytes with
  | some current, some budget => if 0 < budget then some ((current : Rat) / budget) else none
  | _, _ => none

/-- The memory state after one check. -/
def nextMemoryState (sample : BudgetSample) : MaterializedViewReplayBudgetState :=
  nextMemoryBudgetState config memoryState (memoryPressureRatio config sample.memory)

/-- `MaterializedViewReplayBudget::evaluate`, from the memory state it leaves. -/
def effectiveLimits (sample : BudgetSample) : EffectiveMaterializedViewReplayLimits :=
  let phaseGateEngaged := phaseEngagesReplayGate sample.phase
  let state := composeReplayState config memoryState phaseGateEngaged
  { state
    batchBlocks := effectiveReplayBatchBlocks config state
      (memoryPressureRatio config sample.memory) phaseGateEngaged }

/-! ## Sequences of checks -/

/-- What the successive checks of one pass find. A cancelled process stays cancelled. -/
structure BudgetSamples where
  sample : Nat → BudgetSample
  cancelled_sticks : ∀ i, (sample i).cancelled = true → (sample (i + 1)).cancelled = true

namespace BudgetSamples

variable (samples : BudgetSamples) (config : MaterializedViewReplayConfig)
  (memoryState : MaterializedViewReplayBudgetState)

theorem cancelled_of_le {i j : Nat} (hij : i ≤ j) (h : (samples.sample i).cancelled = true) :
    (samples.sample j).cancelled = true := by
  induction hij with
  | refl => exact h
  | step _ ih => exact samples.cancelled_sticks _ ih

def memoryStateAt : Nat → MaterializedViewReplayBudgetState
  | 0 => memoryState
  | i + 1 => nextMemoryState config (memoryStateAt i) (samples.sample i)

/-- The answer of check `i`: stop, because replay is paused or the process is cancelled. -/
def stops (i : Nat) : Bool :=
  (samples.sample i).cancelled || (effectiveLimits config
    (samples.memoryStateAt config memoryState (i + 1)) (samples.sample i)).state.isPaused

/-- Once a check of the pass says stop, every later one does. -/
def PausesStick : Prop :=
  ∀ i, samples.stops config memoryState i = true → samples.stops config memoryState (i + 1) = true

variable {samples config memoryState}

theorem PausesStick.of_le (h : samples.PausesStick config memoryState) {i j : Nat} (hij : i ≤ j)
    (hi : samples.stops config memoryState i = true) :
    samples.stops config memoryState j = true := by
  induction hij with
  | refl => exact hi
  | step _ ih => exact h _ ih

end BudgetSamples

end Zinder.Views
