import Saci.Library.Loop
import Saci.Distributed.StateStores

/-!
# The distributed runner

The claim loop of `run_with_shutdown` (`distributed/runner.rs`). A turn of the loop claims a batch,
restores what earlier batches left, runs the pipeline on a fresh dataset, saves, and acks or
releases the claim. Everything the loop asks of its surroundings in one turn is a `Turn`: the
clock, the shutdown token, the store's answers, the dataset the world factory makes and the
runtime. What the loop does to the claim, and the save results it has seen, are the `Event`s of the
turn.
-/

namespace Saci.Distributed

inductive CheckpointStrategy
  | everyStage
  | everyNStages (n : Nat)
  | none
  deriving DecidableEq

/-- `should_checkpoint`. -/
def CheckpointStrategy.shouldCheckpoint : CheckpointStrategy → Nat → Bool
  | .everyStage, _ => true
  | .everyNStages n, stageIdx => 0 < n ∧ (stageIdx + 1) % n = 0
  | .none, _ => false

/-- Which slice of the keys an instance accumulates. -/
structure KeyPartition where
  instanceOrdinal : UInt32
  numInstances : UInt32
  deriving DecidableEq

structure RunnerConfig where
  checkpointStrategy : CheckpointStrategy
  maxBatches : Option Nat
  partitionMask : Option KeyPartition
  deriving DecidableEq

/-- A granted claim, through what the loop reads of it. -/
structure BatchClaim where
  claimId : Uuid
  instanceId : Uuid

/-- How the runtime's turn ends: the dataset it leaves and its answer, or a lease renewal that
failed first and cancelled it. -/
inductive RunOutcome (R : Type)
  | ran (data : Dataset R) (result : SaciResult (Option Bytes))
  | renewalFailed

/-- What the surroundings of the loop answer in one turn. -/
structure Turn (R : Type) where
  cancelled : Bool
  sweepDue : Bool
  claim : SaciResult (Option BatchClaim)
  world : Dataset R
  accumulatorLoadFault : Option SaciError
  stateLoadFault : Option SaciError
  shouldRenew : Bool
  renew : SaciResult UInt64
  run : Dataset R → Option Bytes → RunOutcome R
  checkpointSave : SaveAnswer
  accumulatorSave : SaveAnswer
  stateSave : SaveAnswer
  ack : SaciResult Unit

/-- The locals of the loop, and what the store holds. -/
structure Runner where
  processed : Nat
  stateClaimId : Option Uuid
  accumulatorClaimId : Option Uuid
  checkpoints : Checkpoints

/-- What a turn does that can be seen from outside. `ran` is the pipeline's answer, with whether
the dataset it leaves holds the window accumulator. -/
inductive Event
  | reclaimExpired
  | claimed (claimId : Uuid)
  | ran (claimId : Uuid) (result : SaciResult (Option Bytes)) (windowed : Bool)
  | saved (claimId : Uuid) (stageIdx : UInt32)
  | saveFailed (claimId : Uuid) (stageIdx : UInt32)
  | ack (claimId : Uuid)
  | release (claimId : Uuid)
  deriving DecidableEq

namespace Runner

/-- Before the first turn. -/
def start : Runner := ⟨0, none, none, fun _ _ => none⟩

section
variable {R V : Type} (api : Externals R V) (insertKeyPartition : KeyPartition → R → R)
  (cfg : RunnerConfig)

/-- The fresh dataset of a turn, with the partition mask as a resource. -/
def freshData (t : Turn R) : Dataset R :=
  match cfg.partitionMask with
  | none => t.world
  | some kp => t.world.insertResource (insertKeyPartition kp)

/-- The accumulator to restore, under the chain pointer. -/
def loadAccumulator (s : Runner) (t : Turn R) : SaciResult (Option RecordBatch) :=
  match s.accumulatorClaimId with
  | none => .ok none
  | some priorId => loadAccumulatorState api s.checkpoints t.accumulatorLoadFault priorId

/-- Append the rows of a loaded accumulator to the fresh dataset, if that holds the component. -/
def restoreAccumulator (data : Dataset R) (loaded : Option RecordBatch) :
    SaciResult (Dataset R) :=
  match loaded, data.batchFor WINDOW_ACCUMULATOR with
  | some batch, some _ =>
    match api.fromRecordBatch batch with
    | .error e =>
      .error (.generic s!"DistributedRunner: failed to decode accumulator: {e}")
    | .ok rows =>
      match data.append api.toRecordBatch WINDOW_ACCUMULATOR rows with
      | .error e =>
        .error (.generic s!"DistributedRunner: failed to restore accumulator rows: {e}")
      | .ok (data', _) => .ok data'
  | _, _ => .ok data

/-- The state blob handed to the runtime, under the chain pointer. -/
def loadState (s : Runner) (t : Turn R) : SaciResult (Option Bytes) :=
  match s.stateClaimId with
  | none => .ok none
  | some priorId => loadProcessorState s.checkpoints t.stateLoadFault priorId

/-- The renewal a lease that is about to expire needs before the run. -/
def renewIfDue (t : Turn R) : SaciResult Unit :=
  if t.shouldRenew then t.renew.map fun _ => () else .ok ()

/-- `write_checkpoint` at a stage. -/
def writeCheckpoint (cps : Checkpoints) (answer : SaveAnswer) (claimId : Uuid) (stageIdx : UInt32)
    (data : Dataset R) : Checkpoints × SaciResult Unit :=
  match data.writeIpc api.arrow with
  | .error e => (cps, .error e)
  | .ok buf =>
    if MAX_LOG_ENTRY_BYTES < buf.length then
      (cps, .error <| .configuration <|
        s!"checkpoint dataset size {buf.length} bytes exceeds MAX_LOG_ENTRY_BYTES " ++
        s!"{MAX_LOG_ENTRY_BYTES} — reduce pipeline state or shorten batches")
    else cps.save answer claimId stageIdx ⟨buf, data.fingerprint⟩

/-- The locals after the run: `run_error`, `claim_released`, and the events so far. -/
structure PostRun where
  runner : Runner
  events : List Event
  runError : Option SaciError
  claimReleased : Bool

/-- One save after the run. It is made only while nothing has failed, and a save that fails
releases the claim. A save that is made answers with the store it leaves. -/
def PostRun.save (p : PostRun) (claimId : Uuid) (stageIdx : UInt32) (due : Bool)
    (attempt : Checkpoints → Checkpoints × SaciResult Unit) (advance : Runner → Runner) :
    PostRun :=
  if p.runError.isNone ∧ ¬ p.claimReleased ∧ due then
    match attempt p.runner.checkpoints with
    | (cps, .ok ()) =>
      { p with
        runner := advance { p.runner with checkpoints := cps }
        events := p.events ++ [.saved claimId stageIdx] }
    | (cps, .error e) =>
      { runner := { p.runner with checkpoints := cps }
        events := p.events ++ [.saveFailed claimId stageIdx, .release claimId]
        runError := some e
        claimReleased := true }
  else p

/-- What a save after the run can do: nothing, succeed, or fail and release the claim. -/
theorem PostRun.save_cases (p : PostRun) (claimId : Uuid) (stageIdx : UInt32) (due : Bool)
    (attempt : Checkpoints → Checkpoints × SaciResult Unit) (advance : Runner → Runner) :
    (¬ (p.runError = none ∧ p.claimReleased = false ∧ due = true) ∧
      p.save claimId stageIdx due attempt advance = p) ∨
    (p.runError = none ∧ p.claimReleased = false ∧ due = true ∧
      ∃ cps, attempt p.runner.checkpoints = (cps, .ok ()) ∧
        p.save claimId stageIdx due attempt advance =
          { p with
            runner := advance { p.runner with checkpoints := cps }
            events := p.events ++ [.saved claimId stageIdx] }) ∨
    (p.runError = none ∧ p.claimReleased = false ∧ due = true ∧
      ∃ cps e, attempt p.runner.checkpoints = (cps, .error e) ∧
        p.save claimId stageIdx due attempt advance =
          ⟨{ p.runner with checkpoints := cps },
            p.events ++ [.saveFailed claimId stageIdx, .release claimId], some e, true⟩) := by
  by_cases h : p.runError = none ∧ p.claimReleased = false ∧ due = true
  · obtain ⟨herror, hreleased, hdue⟩ := h
    have hguard : p.runError.isNone ∧ ¬ p.claimReleased ∧ due = true := by
      simp [herror, hreleased, hdue]
    cases hattempt : attempt p.runner.checkpoints with
    | mk cps result =>
      cases result with
      | ok _ =>
        refine .inr (.inl ⟨herror, hreleased, hdue, cps, rfl, ?_⟩)
        rw [PostRun.save, if_pos hguard, hattempt]
      | error e =>
        refine .inr (.inr ⟨herror, hreleased, hdue, cps, e, rfl, ?_⟩)
        rw [PostRun.save, if_pos hguard, hattempt]
  · refine .inl ⟨h, ?_⟩
    rw [PostRun.save, if_neg]
    simpa using h

/-- The saves after the run: the stage checkpoint, the accumulator, the state blob. Each pointer
moves as soon as its own save is durable. -/
def saveAll (s : Runner) (t : Turn R) (claimId : Uuid) (data : Dataset R)
    (result : SaciResult (Option Bytes)) : PostRun :=
  let windowed := (data.batchFor WINDOW_ACCUMULATOR).isSome
  let nextState := match result with | .ok blob => blob | .error _ => none
  let runError := match result with | .ok _ => none | .error e => some e
  let p : PostRun := ⟨s, [.ran claimId result windowed], runError, false⟩
  let p := p.save claimId 0 (cfg.checkpointStrategy.shouldCheckpoint 0)
    (fun cps => writeCheckpoint api cps t.checkpointSave claimId 0 data) id
  let p := p.save claimId ACCUMULATOR_STAGE_SENTINEL true
    (fun cps => saveAccumulatorState api cps t.accumulatorSave claimId data)
    fun s => { s with accumulatorClaimId := some claimId }
  p.save claimId PROCESSOR_STATE_STAGE_SENTINEL nextState.isSome
    (fun cps => saveProcessorState cps t.stateSave claimId (nextState.getD []) data.fingerprint)
    fun s => { s with stateClaimId := some claimId }

/-- Ack, or release what has not been released. -/
def PostRun.finish (p : PostRun) (t : Turn R) (claimId : Uuid) :
    List Event × Ending Runner (SaciResult Nat) :=
  match p.runError, p.claimReleased with
  | some _, true => (p.events, .next p.runner)
  | some e, false => (p.events ++ [.release claimId], .leave (.error e))
  | none, _ =>
    match t.ack with
    | .error e => (p.events ++ [.ack claimId], .leave (.error e))
    | .ok () =>
      (p.events ++ [.ack claimId],
        .next { p.runner with processed := p.runner.processed + 1 })

/-- From the pipeline's answer to the end of the turn. -/
def conclude (s : Runner) (t : Turn R) (claimId : Uuid) (data : Dataset R)
    (result : SaciResult (Option Bytes)) : List Event × Ending Runner (SaciResult Nat) :=
  (saveAll api cfg s t claimId data result).finish t claimId

/-- From a claim to the end of the turn. -/
def process (s : Runner) (t : Turn R) (claim : BatchClaim) :
    List Event × Ending Runner (SaciResult Nat) :=
  match loadAccumulator api s t with
  | .error _ => ([.release claim.claimId], .next s)
  | .ok loaded =>
    match restoreAccumulator api (freshData insertKeyPartition cfg t) loaded with
    -- The only error of the turn that leaves the loop with the claim still held.
    | .error e => ([], .leave (.error e))
    | .ok data =>
      match loadState s t with
      | .error _ => ([.release claim.claimId], .next s)
      | .ok priorState =>
        match renewIfDue t with
        | .error e =>
          ([.release claim.claimId],
            .leave <| .error <| .generic
              s!"lease renewal failed for claim {claim.claimId}: {e}")
        | .ok () =>
          match t.run data priorState with
          | .renewalFailed => ([.release claim.claimId], .next s)
          | .ran data' result => conclude api cfg s t claim.claimId data' result

/-- One turn of the loop. -/
def turn (s : Runner) (t : Turn R) : List Event × Ending Runner (SaciResult Nat) :=
  if ∃ max ∈ cfg.maxBatches, max ≤ s.processed then ([], .leave (.ok s.processed))
  else if t.cancelled then ([], .leave (.ok s.processed))
  else
    let swept := if t.sweepDue then [Event.reclaimExpired] else []
    match t.claim with
    | .error e => (swept, .leave (.error e))
    | .ok none => (swept, .leave (.ok s.processed))
    | .ok (some claim) =>
      let (events, flow) := process api insertKeyPartition cfg s t claim
      (swept ++ .claimed claim.claimId :: events, flow)

/-- `run_with_shutdown`, over the turns its surroundings have answers for. -/
def runWithShutdown (ts : List (Turn R)) : List (List Event) × Ending Runner (SaciResult Nat) :=
  loop (turn api insertKeyPartition cfg) start ts

end
end Runner
end Saci.Distributed
