import Saci.Service.FlowConfig

/-!
# The flow controller

`FlowController` (`saci-service/src/service/flow.rs`): how many rows a runner admits from one source
per pass. Epochs compare an incumbent size with a candidate one step away, guards divide the size
on the spot, and a search that stops moving rests. Rates and factors are exact rationals, times are
whole nanoseconds, and the counters that would take 2^32 passes to overflow are numbers.
-/

namespace Saci

/-- `EWMA_ALPHA`. -/
def EWMA_ALPHA : ℚ := 3 / 10

def CEILING_INCREMENT_DIVISOR : Nat := 8

def PRESSURE_TREND_PASSES : Nat := 2

def MAX_REST_EPOCHS : Nat := 16

/-! ## Samples and decisions -/

/-- `FlowSample`. -/
structure FlowSample where
  rows : Nat
  elapsed : Nat
  bytes : Nat
  sinkPending : Option Nat
  /-- The outcome is an error. -/
  failed : Bool
  at_ : Nat

/-- Rows per second of a pass that measured something. -/
def FlowSample.measured (sample : FlowSample) : Option ℚ :=
  if sample.rows = 0 ∨ sample.elapsed = 0 then none
  else some (sample.rows / (sample.elapsed / 1000000000))

/-- `FlowCause`. -/
inductive FlowCause
  | experiment (winnerRowsPerSecond loserRowsPerSecond : ℚ)
  | latencyObjective (meanPassMs objectiveMs : Nat)
  | passError
  | chunkBytes (projectedBytes maxChunkBytes : Nat)
  | sinkBacklog (pendingRows : Nat)

/-- `FlowMove`. -/
structure FlowMove where
  fromRows : Nat
  toRows : Nat
  cause : FlowCause

/-- `FlowAdjustment`. -/
inductive FlowAdjustment
  | grew (move : FlowMove)
  | held
  | shrank (move : FlowMove)
  | backedOff (move : FlowMove)
  | heldAtFloor (move : FlowMove)

/-- Which arm of the experiment a pass belongs to. -/
inductive Arm
  | incumbent
  | candidate
  deriving DecidableEq

inductive Phase
  | experiment
  | rest (remaining : Nat)
  deriving DecidableEq

inductive Direction
  | up
  | down
  deriving DecidableEq

def Direction.flipped : Direction → Direction
  | up => down
  | down => up

/-- `ArmStats`. -/
structure ArmStats where
  rows : Nat := 0
  elapsed : Nat := 0
  samples : Nat := 0

namespace ArmStats

def add (stats : ArmStats) (rows elapsed : Nat) : ArmStats :=
  ⟨stats.rows + rows, stats.elapsed + elapsed, stats.samples + 1⟩

/-- Rows per second. -/
def rate (stats : ArmStats) : ℚ :=
  if stats.elapsed = 0 then 0 else stats.rows / (stats.elapsed / 1000000000)

/-- `mean_pass`, in nanoseconds. -/
def meanPass (stats : ArmStats) : Nat :=
  if stats.samples = 0 then 0 else stats.elapsed / stats.samples

end ArmStats

/-- `clamp_rows`. -/
def clampRows (rows : Nat) (settings : FlowSettings) : Nat :=
  let min' := max settings.minRows 1
  let max' := max settings.maxRows min'
  max min' (min rows max')

/-- `.round() as usize` of a number that is not negative: halves go up. -/
def roundRows (q : ℚ) : Nat := (q + 1 / 2).floor.toNat

/-! ## The controller -/

/-- `FlowController`. -/
structure FlowController where
  settings : FlowSettings
  incumbent : Nat
  candidate : Nat
  arm : Arm
  direction : Direction
  phase : Phase
  settled : Nat
  incumbentStats : ArmStats
  candidateStats : ArmStats
  epochStart : Option Nat
  throughput : ℚ
  ceiling : Option Nat
  lastSinkPending : Option Nat
  pendingRises : Nat
  latencyAbandoned : Bool
  latencyNotice : Option Bool
  cooldown : Nat

namespace FlowController

/-- One step from the incumbent in a direction, before it is clamped. -/
def stepped (c : FlowController) : Nat :=
  match c.direction, c.ceiling with
  | .up, some ceiling =>
    min (c.incumbent + max (ceiling / CEILING_INCREMENT_DIVISOR) 1) ceiling
  | .up, none => roundRows (c.incumbent * c.settings.growthFactor)
  | .down, some ceiling => c.incumbent - max (ceiling / CEILING_INCREMENT_DIVISOR) 1
  | .down, none => roundRows (c.incumbent / c.settings.growthFactor)

/-- `step_from_incumbent`. -/
def stepFromIncumbent (c : FlowController) : Nat := clampRows (max c.stepped 1) c.settings

/-- `propose_candidate`. -/
def proposeCandidate (c : FlowController) : FlowController :=
  let c := { c with candidate := c.stepFromIncumbent }
  let c :=
    if c.candidate = c.incumbent then
      let c := { c with direction := c.direction.flipped }
      { c with candidate := c.stepFromIncumbent }
    else c
  { c with arm := .incumbent }

/-- The size a controller starts from: a pinned one is taken as it is. -/
def startSize (settings : FlowSettings) : Nat :=
  match settings.fixedRows with
  | some rows => max rows 1
  | none => clampRows settings.startRows settings

/-- `new`. -/
def new (settings : FlowSettings) : FlowController :=
  proposeCandidate {
    settings
    incumbent := startSize settings
    candidate := startSize settings
    arm := .incumbent
    direction := .up
    phase := .experiment
    settled := 0
    incumbentStats := {}
    candidateStats := {}
    epochStart := none
    throughput := 0
    ceiling := none
    lastSinkPending := none
    pendingRises := 0
    latencyAbandoned := false
    latencyNotice := none
    cooldown := 0 }

/-- `target_rows`. -/
def targetRows (c : FlowController) : Nat :=
  if 0 < c.cooldown then c.incumbent
  else
    match c.arm with
    | .incumbent => c.incumbent
    | .candidate => c.candidate

def isAdaptive (c : FlowController) : Bool := c.settings.enabled && c.settings.fixedRows.isNone

/-- `floor`. -/
def floorRows (c : FlowController) : Nat := max c.settings.minRows 1

/-- `start_epoch`. -/
def startEpoch (c : FlowController) : FlowController :=
  { c with incumbentStats := {}, candidateStats := {}, epochStart := none, arm := .incumbent }

/-- `breaches_objective`. -/
def breachesObjective (c : FlowController) (stats : ArmStats) : Bool :=
  0 < c.settings.targetLatencyMs ∧ ¬ c.latencyAbandoned ∧
    c.settings.targetLatencyMs * 1000000 < stats.meanPass

/-- `rest_if_settled`. -/
def restIfSettled (c : FlowController) : FlowController :=
  if c.settings.settleAfterEpochs = 0 ∨ c.settled < c.settings.settleAfterEpochs then c
  else
    let doublings := min (c.settled - c.settings.settleAfterEpochs) (Nat.log2 MAX_REST_EPOCHS)
    { c with phase := .rest (min (2 ^ doublings) MAX_REST_EPOCHS) }

/-- Whether the candidate of an epoch unseats the incumbent. -/
def candidateWins (c : FlowController) (incumbent candidate : ArmStats) : Bool :=
  if c.breachesObjective incumbent then c.candidate < c.incumbent
  else
    ¬ c.breachesObjective candidate ∧
      incumbent.rate * (1 + c.settings.improveThreshold) < candidate.rate

/-- The candidate lost: turn around, and rest once nothing moves. -/
def loseEpoch (c : FlowController) (incumbentBreaches : Bool) : FlowController :=
  let direction :=
    if incumbentBreaches ∧ c.incumbent < c.candidate then .down else c.direction.flipped
  let settled := if incumbentBreaches then 0 else min (c.settled + 1) 4294967295
  ({ c with direction, settled }.proposeCandidate).restIfSettled

/-- The candidate won. A win at the size that failed removes the ceiling. -/
def winEpoch (c : FlowController) : FlowController :=
  let ceiling := if c.ceiling.any fun ceiling => ceiling ≤ c.candidate then none else c.ceiling
  { c with incumbent := c.candidate, settled := 0, ceiling }.proposeCandidate

/-- `close_epoch`. -/
def closeEpoch (c : FlowController) : FlowController × FlowAdjustment :=
  let incumbent := c.incumbentStats
  let candidate := c.candidateStats
  let c := c.startEpoch
  if c.candidate = c.incumbent then (c, .held)
  else if incumbent.samples < c.settings.minSamplesPerArm ∨
      candidate.samples < c.settings.minSamplesPerArm then (c, .held)
  else
    let incumbentBreaches := c.breachesObjective incumbent
    if ¬ c.candidateWins incumbent candidate then (c.loseEpoch incumbentBreaches, .held)
    else
      let cause :=
        if incumbentBreaches then
          .latencyObjective (incumbent.meanPass / 1000000) c.settings.targetLatencyMs
        else .experiment candidate.rate incumbent.rate
      let won := c.winEpoch
      let moved := ⟨c.incumbent, won.incumbent, cause⟩
      (won, if c.incumbent < won.incumbent then .grew moved else .shrank moved)

/-- `close_rest_epoch`. -/
def closeRestEpoch (c : FlowController) (remaining : Nat) : FlowController × FlowAdjustment :=
  let incumbent := c.incumbentStats
  let c := c.startEpoch
  let breached :=
    c.settings.minSamplesPerArm ≤ incumbent.samples ∧ c.breachesObjective incumbent
  let c := if breached then { c with settled := 0, direction := .down } else c
  if breached ∨ remaining ≤ 1 then ({ c with phase := .experiment }.proposeCandidate, .held)
  else ({ c with phase := .rest (remaining - 1) }, .held)

/-- `chunk_bytes_over_ceiling`. -/
def chunkBytesOverCeiling (c : FlowController) (sample : FlowSample) : Option Nat :=
  if c.settings.maxChunkBytes = 0 ∨ sample.rows = 0 ∨ sample.bytes = 0 then none
  else
    let projected : ℚ := sample.bytes / sample.rows * c.targetRows
    if c.settings.maxChunkBytes < projected then some projected.floor.toNat else none

/-- `track_sink_pressure`. -/
def trackSinkPressure (c : FlowController) : Option Nat → FlowController × Bool
  | none => ({ c with lastSinkPending := none, pendingRises := 0 }, false)
  | some pending =>
    let rises := if c.lastSinkPending.any fun previous => previous < pending then
      c.pendingRises + 1 else 0
    ({ c with lastSinkPending := some pending, pendingRises := rises },
      PRESSURE_TREND_PASSES ≤ rises)

/-- The guard a pass trips, the strongest one first. -/
def guardOf (c : FlowController) (sample : FlowSample) (pressure : Bool) : Option FlowCause :=
  if sample.failed then some .passError
  else if pressure then some (.sinkBacklog (sample.sinkPending.getD 0))
  else
    (c.chunkBytesOverCeiling sample).map fun projected =>
      .chunkBytes projected c.settings.maxChunkBytes

/-- `track_latency_objective`. -/
def trackLatencyObjective (c : FlowController) (sample : FlowSample) : FlowController :=
  if c.settings.targetLatencyMs = 0 ∨ sample.rows = 0 ∨ c.floorRows < c.targetRows then c
  else
    let breached : Bool := c.settings.targetLatencyMs * 1000000 < sample.elapsed
    if breached ≠ c.latencyAbandoned then
      { c with latencyAbandoned := breached, latencyNotice := some breached }
    else c

/-- `back_off`. -/
def backOff (c : FlowController) (cause : FlowCause) : FlowController × FlowAdjustment :=
  let failed := max c.targetRows c.incumbent
  let previous := c.incumbent
  let c := { c with settled := 0, phase := .experiment }
  if failed ≤ c.floorRows then (c, .heldAtFloor ⟨failed, failed, cause⟩)
  else
    let ceiling := match c.ceiling with
      | some ceiling => min ceiling failed
      | none => failed
    let reduced := (failed / c.settings.backoffFactor).floor.toNat
    let c := { c with
      ceiling := some ceiling
      incumbent := clampRows (max reduced 1) c.settings
      direction := .down }
    let c := { c.proposeCandidate.startEpoch with
      cooldown := c.settings.backoffCooldown
      lastSinkPending := none
      pendingRises := 0 }
    let moved := ⟨failed, c.incumbent, cause⟩
    (c, if c.incumbent = previous ∧ c.incumbent ≤ c.floorRows then .heldAtFloor moved
      else .backedOff moved)

/-- A measured pass joins its arm, and the arms take turns unless the search rests. -/
def count (c : FlowController) (sample : FlowSample) : FlowController :=
  let c := match c.arm with
    | .incumbent =>
      { c with incumbentStats := c.incumbentStats.add sample.rows sample.elapsed }
    | .candidate =>
      { c with candidateStats := c.candidateStats.add sample.rows sample.elapsed }
  let c := { c with epochStart := some (c.epochStart.getD sample.at_) }
  if c.phase = .experiment ∧ c.candidate ≠ c.incumbent then
    { c with arm := match c.arm with
      | .incumbent => .candidate
      | .candidate => .incumbent }
  else c

/-- What a pass comes to before epochs are looked at: it ends there, or it counts. -/
inductive Judged
  | ends (c : FlowController) (adjustment : FlowAdjustment)
  | counts (c : FlowController)

/-- The first part of `observe`: bookkeeping, guards and cooldown. -/
def judge (c : FlowController) (sample : FlowSample) : Judged :=
  let throughput := match sample.measured with
    | none => c.throughput
    | some rate =>
      if c.throughput = 0 then rate else EWMA_ALPHA * rate + (1 - EWMA_ALPHA) * c.throughput
  let c := { c with latencyNotice := none, throughput }
  if ¬ c.isAdaptive then .ends c .held
  else
    let (c, pressure) := c.trackSinkPressure sample.sinkPending
    let guard_ := c.guardOf sample pressure
    if 0 < c.cooldown then
      .ends { c with
        cooldown := if guard_.isSome then c.settings.backoffCooldown else c.cooldown - 1 } .held
    else
      match guard_ with
      | some cause =>
        let (c, adjustment) := c.backOff cause
        .ends c adjustment
      | none =>
        let c := c.trackLatencyObjective sample
        match sample.measured with
        | none => .ends c .held
        | some _ => .counts (c.count sample)

/-- The epoch of a pass that counted has run its length. -/
def epochOver (c : FlowController) (sample : FlowSample) : Bool :=
  max c.settings.adjustIntervalMs 1 * 1000000 ≤ sample.at_ - c.epochStart.getD sample.at_

/-- `observe`. -/
def observe (c : FlowController) (sample : FlowSample) : FlowController × FlowAdjustment :=
  match c.judge sample with
  | .ends c adjustment => (c, adjustment)
  | .counts c =>
    if ¬ c.epochOver sample then (c, .held)
    else
      match c.phase with
      | .experiment => c.closeEpoch
      | .rest remaining => c.closeRestEpoch remaining

end FlowController
end Saci
