import Saci.Core.Error

/-!
# Workflow lifecycle

The verbs, the states and the transition table (`saci-service/src/service/lifecycle.rs`), the pause
gate between a supervisor and its runner, and the judgement of a verb by the registry. Time stamps
and counters are left out.
-/

namespace Saci

inductive WorkflowRunState
  | starting | running | pausing | paused | stopping | stopped | completed | failed
  deriving DecidableEq

def WorkflowRunState.asStr : WorkflowRunState → String
  | starting => "starting"
  | running => "running"
  | pausing => "pausing"
  | paused => "paused"
  | stopping => "stopping"
  | stopped => "stopped"
  | completed => "completed"
  | failed => "failed"

/-- `WorkflowStatus`, without the time at which the state was entered. -/
structure WorkflowStatus where
  id : String
  name : Option String
  state : WorkflowRunState
  runs : Nat
  restartable : Bool
  error : Option String
  restartBlockedReason : Option String
  deriving DecidableEq

inductive WorkflowCommand
  | start | stop | pause | resume | restart
  deriving DecidableEq

def WorkflowCommand.asStr : WorkflowCommand → String
  | start => "start"
  | stop => "stop"
  | pause => "pause"
  | resume => "resume"
  | restart => "restart"

inductive LifecycleError
  | unknownWorkflow (id : String)
  | notRestartable (id reason : String)
  | illegalTransition (id : String) (command : WorkflowCommand) (state : WorkflowRunState)
  | gone (id : String)
  deriving DecidableEq

def LifecycleError.display : LifecycleError → String
  | unknownWorkflow id => s!"no workflow '{id}' is under lifecycle control"
  | notRestartable id reason => s!"workflow '{id}' cannot be rebuilt: {reason}"
  | illegalTransition id command state =>
    s!"workflow '{id}' cannot {command.asStr} from state '{state.asStr}'"
  | gone id => s!"workflow '{id}' no longer has a supervisor"

/-! ## The transition table -/

inductive Disposition
  | dispatch | noOp | illegal
  deriving DecidableEq

def disposition : WorkflowCommand → WorkflowRunState → Disposition
  | .start, .stopped | .start, .completed | .start, .failed => .dispatch
  | .start, .running => .noOp
  | .start, _ => .illegal
  | .stop, .running | .stop, .pausing | .stop, .paused => .dispatch
  | .stop, .stopped | .stop, .completed | .stop, .failed => .noOp
  | .stop, _ => .illegal
  | .pause, .running => .dispatch
  | .pause, .pausing | .pause, .paused => .noOp
  | .pause, _ => .illegal
  | .resume, .pausing | .resume, .paused => .dispatch
  | .resume, .running => .noOp
  | .resume, _ => .illegal
  | .restart, .running | .restart, .paused | .restart, .stopped | .restart, .completed
  | .restart, .failed => .dispatch
  | .restart, _ => .illegal

/-- `target_reached`. -/
def targetReached : WorkflowCommand → WorkflowRunState → Bool
  | .pause, .paused | .pause, .stopped | .pause, .completed | .pause, .failed => true
  | .pause, _ => false
  | .stop, .stopped | .stop, .completed | .stop, .failed => true
  | .stop, _ => false
  | .start, .running | .start, .completed | .start, .failed => true
  | .start, _ => false
  | .resume, .running | .resume, .completed | .resume, .failed => true
  | .resume, _ => false
  | .restart, .running | .restart, .completed | .restart, .failed => true
  | .restart, _ => false

/-- A status answers a verb if the verb's target is reached, or nothing was to be done. -/
def Satisfies (command : WorkflowCommand) (state : WorkflowRunState) : Prop :=
  targetReached command state = true ∨ disposition command state = .noOp

instance (command : WorkflowCommand) (state : WorkflowRunState) :
    Decidable (Satisfies command state) :=
  inferInstanceAs (Decidable (_ ∨ _))

/-! ## The pause gate -/

/-- The two channels of a `PauseHandle` and its `PauseGate`: the request, the runner's
acknowledgement, and whether the supervisor has still to see the last change of it. -/
structure PauseGate where
  requested : Bool
  parked : Bool
  unseen : Bool
  /-- The runner has dropped its half. -/
  closed : Bool
  deriving DecidableEq

namespace PauseGate

def new : PauseGate := ⟨false, false, false, false⟩

def requestPause (gate : PauseGate) : PauseGate := { gate with requested := true }

def requestResume (gate : PauseGate) : PauseGate := { gate with requested := false }

/-- `park_while_paused`, up to where the runner is parked. -/
def park (gate : PauseGate) : PauseGate :=
  if gate.requested ∧ ¬ gate.parked ∧ ¬ gate.closed then
    { gate with parked := true, unseen := true }
  else gate

/-- The rest of `park_while_paused`: the pause is lifted, or the token of the run is cancelled. -/
def unpark (gate : PauseGate) (cancelled : Bool) : PauseGate :=
  if gate.parked ∧ (¬ gate.requested ∨ cancelled) then { gate with parked := false, unseen := true }
  else gate

end PauseGate

/-! ## The registry's judgement -/

inductive Judgement
  /-- Answered with the status as it is, settled. -/
  | satisfied (status : WorkflowStatus)
  | refused (error : LifecycleError)
  | dispatched
  deriving DecidableEq

/-- The part of `LifecycleRegistry::command` that looks at the published status. -/
def judge (current : WorkflowStatus) (command : WorkflowCommand) : Judgement :=
  if ¬ current.restartable ∧ (command = .start ∨ command = .stop ∨ command = .restart) then
    .refused <| .notRestartable current.id <|
      current.restartBlockedReason.getD "the workflow cannot be rebuilt"
  else
    match disposition command current.state with
    | .noOp => .satisfied current
    | .illegal => .refused (.illegalTransition current.id command current.state)
    | .dispatch => .dispatched

/-- A status that is answered as it is satisfies the verb. -/
theorem judge_satisfied {current status : WorkflowStatus} {command : WorkflowCommand}
    (h : judge current command = .satisfied status) : Satisfies command status.state := by
  unfold judge at h
  split at h
  · exact nomatch h
  · split at h
    · next hnoOp =>
      obtain rfl := Judgement.satisfied.inj h
      exact .inr hnoOp
    · exact nomatch h
    · exact nomatch h

end Saci
