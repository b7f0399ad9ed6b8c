import Saci.Library.Run
import Saci.Service.Lifecycle

/-!
# The supervisor

`run_supervised` for a controlled workflow, with its clients, its runner and the channels between
them. A client's request is judged against the published status, sent later, and answered or given
up on later still; the supervisor takes one arm of its `select!` at a time, in any order; the runner
parks, unparks and returns when it likes. An event that cannot happen in a state changes nothing.
-/

namespace Saci

/-- What the supervisor does once the current runner returns. -/
inductive AfterRun
  | stop | restart
  deriving DecidableEq

structure Envelope where
  command : WorkflowCommand
  /-- The request whose client waits at the other end of the reply channel. -/
  reply : Nat
  deriving DecidableEq

/-- The state of one runner. -/
structure SupervisedRun where
  gate : PauseGate
  isParked : Bool
  parkedOpen : Bool
  after : Option AfterRun
  commandsOpen : Bool
  /-- `run_token` is cancelled by the supervisor. -/
  drained : Bool
  deriving DecidableEq

def SupervisedRun.new : SupervisedRun := ⟨.new, false, true, none, true, false⟩

/-- Where `run_supervised` is. -/
inductive SupervisorPhase
  /-- About to build and run; the flag says that the first build is in hand. -/
  | building (initial : Bool)
  | running (r : SupervisedRun)
  /-- No runner: waiting for a command. -/
  | parked
  /-- No runner, and nobody left to send a command. -/
  | abandoned
  | returned (result : Except SaciError Unit)

/-- What a client gets. -/
inductive Answer
  | settled (status : WorkflowStatus)
  | unsettled (status : WorkflowStatus)
  | refused (error : LifecycleError)
  deriving DecidableEq

/-- What can be seen of a step: a status published, with the runner's gate at the time if there is a
runner, and an answer to a request. -/
inductive LifecycleEffect
  | published (state : WorkflowRunState) (gate : Option PauseGate)
  | answered (envelope : Envelope) (answer : Answer)
  deriving DecidableEq

structure LifecycleWorld where
  /-- The status, as it is published. -/
  current : WorkflowStatus
  pending : Option Envelope
  /-- Requests that were judged and have not been sent. -/
  sending : List Envelope
  queue : List Envelope
  /-- Requests whose clients wait for a reply. -/
  waiting : List Envelope
  requests : Nat
  shutdown : Bool
  /-- The registry, and with it every sender, is gone. -/
  registryGone : Bool
  /-- Shutdown was noticed. -/
  cancelled : Bool
  phase : SupervisorPhase

inductive LifecycleEvent
  /-- A client's request is judged. -/
  | request (id : String) (command : WorkflowCommand)
  | send (reply : Nat)
  /-- The budget of a waiting client is over. -/
  | timeout (envelope : Envelope)
  | shutdown
  | registryGone
  | park | unpark | dropGate
  /-- The runner returns. -/
  | finish (result : Except SaciError Unit)
  | seeShutdown | seeParked | handle
  /-- A build succeeds, or fails. -/
  | build (error : Option SaciError)

namespace LifecycleWorld

/-- The world once a workflow is registered and its supervisor starts. -/
def start (id : String) (name : Option String) (blocker : Option String) : LifecycleWorld where
  current := ⟨id, name, .starting, 0, blocker.isNone, none, blocker⟩
  pending := none
  sending := []
  queue := []
  waiting := []
  requests := 0
  shutdown := false
  registryGone := false
  cancelled := false
  phase := .building true

/-! ## The publisher -/

def gate? (w : LifecycleWorld) : Option PauseGate :=
  match w.phase with
  | .running r => some r.gate
  | _ => none

/-- A reply; a client that has given up does not get it. -/
def reply (w : LifecycleWorld) (envelope : Envelope) : LifecycleWorld × List LifecycleEffect :=
  if envelope ∈ w.waiting then
    ({ w with waiting := w.waiting.erase envelope }, [.answered envelope (.settled w.current)])
  else (w, [])

def settle (w : LifecycleWorld) : LifecycleWorld × List LifecycleEffect :=
  match w.pending with
  | some envelope =>
    if targetReached envelope.command w.current.state then
      { w with pending := none }.reply envelope
    else (w, [])
  | none => (w, [])

def publish (w : LifecycleWorld) (state : WorkflowRunState) (error : Option String) :
    LifecycleWorld × List LifecycleEffect :=
  let w := { w with current := { w.current with state := state, error := error } }
  let (w', effects) := w.settle
  (w', .published state w.gate? :: effects)

/-- Take over the reply channel. -/
def accept (w : LifecycleWorld) (envelope : Envelope) : LifecycleWorld × List LifecycleEffect :=
  let (w, superseded) :=
    match w.pending with
    | some old => { w with pending := none }.reply old
    | none => (w, [])
  let (w, effects) := { w with pending := some envelope }.settle
  (w, superseded ++ effects)

/-- Publish, then take over the reply channel. -/
def publishAccept (w : LifecycleWorld) (state : WorkflowRunState) (envelope : Envelope) :
    LifecycleWorld × List LifecycleEffect :=
  let (w, effects) := w.publish state none
  let (w, effects') := w.accept envelope
  (w, effects ++ effects')

/-! ## The supervisor's arms -/

def withRun (w : LifecycleWorld) (r : SupervisedRun) : LifecycleWorld :=
  { w with phase := .running r }

/-- The supervisor returns: the replies that are out, and the requests in the queue, are dropped. -/
def finishWith (w : LifecycleWorld) (result : Except SaciError Unit) :
    LifecycleWorld × List LifecycleEffect :=
  ({ w with
      pending := none
      queue := []
      waiting := w.waiting.filter fun envelope => envelope ∉ w.pending.toList ++ w.queue
      phase := .returned result },
    ((w.pending.toList ++ w.queue).filter fun envelope => envelope ∈ w.waiting).map
      fun envelope => .answered envelope (.refused (.gone w.current.id)))

def thenFinish (s : LifecycleWorld × List LifecycleEffect) (result : Except SaciError Unit) :
    LifecycleWorld × List LifecycleEffect :=
  let (w, effects) := s.1.finishWith result
  (w, s.2 ++ effects)

/-- The command arm while a runner is there. -/
def handleRunning (w : LifecycleWorld) (r : SupervisedRun) (envelope : Envelope) :
    LifecycleWorld × List LifecycleEffect :=
  match envelope.command with
  | .pause =>
    if w.current.state ≠ .pausing ∧ w.current.state ≠ .paused then
      (w.withRun { r with gate := r.gate.requestPause }).publishAccept .pausing envelope
    else w.accept envelope
  | .resume =>
    let w := w.withRun { r with gate := r.gate.requestResume }
    if ¬ r.isParked ∧ (w.current.state = .pausing ∨ w.current.state = .paused) then
      w.publishAccept .running envelope
    else w.accept envelope
  | .stop | .restart =>
    let after := if envelope.command = .stop then AfterRun.stop else .restart
    let (w, effects) := (w.withRun { r with after := some after }).publishAccept .stopping envelope
    (w.withRun { r with after := some after, gate := r.gate.requestResume, drained := true }, effects)
  | .start => w.reply envelope

/-- The command arm while there is no runner. -/
def handleParked (w : LifecycleWorld) (envelope : Envelope) :
    LifecycleWorld × List LifecycleEffect :=
  match envelope.command with
  | .start | .restart =>
    let (w, effects) := w.publishAccept .starting envelope
    ({ w with phase := .building false }, effects)
  | _ => w.reply envelope

/-- The next command is received, or the channel turns out to be closed. -/
def handle (w : LifecycleWorld) : LifecycleWorld × List LifecycleEffect :=
  match w.phase, w.queue with
  | .running r, envelope :: queue =>
    if r.commandsOpen then { w with queue := queue }.handleRunning r envelope else (w, [])
  | .running r, [] =>
    if w.registryGone then (w.withRun { r with commandsOpen := false }, []) else (w, [])
  | .parked, envelope :: queue => { w with queue := queue }.handleParked envelope
  | .parked, [] => if w.registryGone then ({ w with phase := .abandoned }, []) else (w, [])
  | _, _ => (w, [])

def seeShutdown (w : LifecycleWorld) : LifecycleWorld × List LifecycleEffect :=
  if w.shutdown then
    match w.phase with
    | .running r =>
      if w.cancelled then (w, [])
      else
        let (w, effects) := { w with cancelled := true }.publish .stopping none
        (w.withRun { r with after := some .stop, gate := r.gate.requestResume, drained := true },
          effects)
    | .parked | .abandoned => w.finishWith (.ok ())
    | _ => (w, [])
  else (w, [])

def seeParked (w : LifecycleWorld) : LifecycleWorld × List LifecycleEffect :=
  match w.phase with
  | .running r =>
    if ¬ r.parkedOpen then (w, [])
    else if r.gate.unseen then
      let w := w.withRun { r with gate := { r.gate with unseen := false }, isParked := r.gate.parked }
      if r.gate.parked then
        if w.current.state = .pausing then w.publish .paused none else (w, [])
      else if w.current.state = .paused then w.publish .running none
      else (w, [])
    else if r.gate.closed then (w.withRun { r with parkedOpen := false }, [])
    else (w, [])
  | _ => (w, [])

/-- The runner arm, and what follows the loop. -/
def finish (w : LifecycleWorld) (result : Except SaciError Unit) :
    LifecycleWorld × List LifecycleEffect :=
  match w.phase with
  | .running r =>
    let w := { w with phase := .parked, cancelled := w.cancelled || w.shutdown }
    match result with
    | .ok () =>
      if w.cancelled then thenFinish (w.publish .stopped none) (.ok ())
      else
        match r.after with
        | some .restart => ({ w with phase := .building false }, [])
        | some .stop => w.publish .stopped none
        | none => thenFinish (w.publish .completed none) (.ok ())
    | .error e =>
      let published := w.publish .failed (some e.display)
      if w.cancelled ∨ ¬ w.current.restartable then thenFinish published (.error e) else published
  | _ => (w, [])

/-- A run is built, unless the first one is in hand, and started. -/
def build (w : LifecycleWorld) (error : Option SaciError) : LifecycleWorld × List LifecycleEffect :=
  let run (w : LifecycleWorld) :=
    { w.withRun .new with current := { w.current with runs := w.current.runs + 1 }
      }.publish .running none
  match w.phase with
  | .building true => run w
  | .building false =>
    let (w, effects) := w.publish .starting none
    match error with
    | none =>
      let (w, effects') := run w
      (w, effects ++ effects')
    | some e =>
      let (w, effects') := { w with phase := .parked }.publish .failed (some e.display)
      let failed := (w, effects ++ effects')
      if w.current.restartable ∧ ¬ w.cancelled then failed else thenFinish failed (.error e)
  | _ => (w, [])

/-! ## Steps -/

/-- A change of the runner's half of the gate. -/
def onGate (w : LifecycleWorld) (f : SupervisedRun → PauseGate) : LifecycleWorld :=
  match w.phase with
  | .running r => w.withRun { r with gate := f r }
  | _ => w

/-- `LifecycleRegistry::command`, up to the point where the envelope is to be sent. -/
def request (w : LifecycleWorld) (id : String) (command : WorkflowCommand) :
    LifecycleWorld × List LifecycleEffect :=
  let envelope : Envelope := ⟨command, w.requests⟩
  let w := { w with requests := w.requests + 1 }
  if id ≠ w.current.id then (w, [.answered envelope (.refused (.unknownWorkflow id))])
  else
    match judge w.current command with
    | .satisfied status => (w, [.answered envelope (.settled status)])
    | .refused error => (w, [.answered envelope (.refused error)])
    | .dispatched => ({ w with sending := w.sending ++ [envelope] }, [])

def send (w : LifecycleWorld) (id : Nat) : LifecycleWorld × List LifecycleEffect :=
  match w.sending.find? fun envelope => envelope.reply = id with
  | none => (w, [])
  | some envelope =>
    let w := { w with sending := w.sending.erase envelope }
    match w.phase with
    | .returned _ => (w, [.answered envelope (.refused (.gone w.current.id))])
    | _ => ({ w with queue := w.queue ++ [envelope], waiting := envelope :: w.waiting }, [])

def timeout (w : LifecycleWorld) (envelope : Envelope) : LifecycleWorld × List LifecycleEffect :=
  if envelope ∈ w.waiting then
    ({ w with waiting := w.waiting.erase envelope },
      [.answered envelope (.unsettled w.current)])
  else (w, [])

def apply (w : LifecycleWorld) : LifecycleEvent → LifecycleWorld × List LifecycleEffect
  | .request id command => w.request id command
  | .send id => w.send id
  | .timeout envelope => w.timeout envelope
  | .shutdown => ({ w with shutdown := true }, [])
  | .registryGone => ({ w with registryGone := true }, [])
  | .park => (w.onGate fun r => r.gate.park, [])
  | .unpark => (w.onGate fun r => r.gate.unpark (r.drained || w.shutdown), [])
  | .dropGate => (w.onGate fun r => { r.gate with closed := true }, [])
  | .finish result => w.finish result
  | .seeShutdown => w.seeShutdown
  | .seeParked => w.seeParked
  | .handle => w.handle
  | .build error => w.build error

def step (w : LifecycleWorld) (event : LifecycleEvent) :
    Except Empty (LifecycleWorld × List LifecycleEffect) :=
  .ok (w.apply event)

end LifecycleWorld
end Saci
