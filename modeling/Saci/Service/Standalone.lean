import Saci.Library.Run
import Saci.Service.NodeTurns

/-!
# The batch runner

`run_standalone` (`saci-service/src/service/standalone.rs`) in the continuous, one-shot and interval
modes, as a machine with one step for each stretch between two waits: the head of the loop, a turn
of a source's drain, a processor run, a sink's writes, the end of a pass, the pacing. A step is
given what it waited for, so a cancellation can strike at every wait. The controllers are those of
the pass, whatever they have become. Counters, spans, processor state and dead letters are left out.
-/

namespace Saci.Workflow.Standalone

/-- `RunMode`; the stream mode has its own runner. -/
inductive RunMode
  | continuous
  | oneShot
  | interval (intervalMs : Nat)
  deriving DecidableEq

/-- Where the runner is. -/
inductive Phase
  /-- At the head of the loop, past the pause gate. -/
  | head
  /-- In a pass, at a node; past the last one at the end of the pass. -/
  | node (i : Nat)
  | pacing
  | stopped
  deriving DecidableEq

structure State (R : Type) where
  phase : Phase
  buffers : Buffers R
  /-- The unconsumed tail of the last batch each source produced. -/
  carry : Nat → Option RecordBatch
  controllers : Nat → Option FlowController
  /-- Rows each source admitted in this pass. A source drains once a pass, so `source_rows` of its
  drain is its entry. -/
  admittedRows : Nat → Nat
  backlogged : Bool

/-- What a step waited for. -/
inductive Answer (R : Type)
  | head (cancelled : Bool) (controllers : Nat → Option FlowController)
  /-- A step that waits for nothing, or only for the sinks. -/
  | go
  | poll (answer : Poll)
  | run (answer : RunAnswer R)
  | tail (cancelled paused : Bool)
  | pace (cancelled : Bool)

/-- An answer, with what the sinks answer to the batches written in the step. -/
structure Turn (R : Type) where
  answer : Answer R
  results : Nat → Nat → SaciResult Unit

section
variable {R : Type} [Inhabited R] (service : BuiltService R) (mode : RunMode)

def start : State R where
  phase := .head
  buffers := Buffers.start service.nodes
  carry := fun _ => none
  controllers := fun _ => none
  admittedRows := fun _ => 0
  backlogged := false

variable (s : State R)

/-- Flush and finish the sinks, then finish the sources. -/
def shutDown (results : Nat → Nat → SaciResult Unit) : State R × List Event :=
  let (buffers, events) := flushAndFinishAll service.nodes results s.buffers
  ({ s with phase := .stopped, buffers }, events ++ finishAllSources service.nodes)

/-- What the source may still admit in this pass; `none` is `usize::MAX`. -/
def remaining (i : Nat) : Option Nat :=
  (credit s.controllers i).map fun target => target - s.admittedRows i

/-- The chunk of a batch that the source may admit enters the pass, and the tail is carried over. -/
def admitFrom (i : Nat) (component : String) (batch : RecordBatch) : State R × List Event :=
  let limit := if service.wholeArrivals i then none else remaining s i
  let (chunk, tail) := cutAt limit batch
  let (buffers, events) := admitChunk service.nodes i component chunk s.buffers
  ({ s with
      buffers
      carry := Function.update s.carry i tail
      admittedRows := Function.update s.admittedRows i (s.admittedRows i + chunk.numRows)
      backlogged := s.backlogged || tail.isSome },
    events)

/-- A turn of the drain loop of a source. -/
def drainTurn (i : Nat) (component : String) (turn : Turn R) :
    Except Unit (State R × List Event) :=
  if remaining s i = some 0 then
    match turn.answer with
    | .go => .ok ({ s with phase := .node (i + 1), backlogged := true }, [])
    | _ => .error ()
  else
    match s.carry i, turn.answer with
    | some batch, .go => .ok (admitFrom service s i component batch)
    | none, .poll (.batch batch) =>
      let (next, events) := admitFrom service s i component batch
      .ok (next, .arrived i batch :: events)
    | none, .poll .eof => .ok ({ s with phase := .node (i + 1) }, [])
    | none, .poll (.failed e) => .ok ({ s with phase := .node (i + 1) }, [.sourceFailed i e])
    | none, .poll .cancelled => .ok (shutDown service s turn.results)
    | _, _ => .error ()

/-- The fan-out after a processor run, and on to the next node. -/
def ranTo (i : Nat) (left : Dataset R) (result : SaciResult (Option (List String))) :
    State R × List Event :=
  let (buffers, events) := afterRun service.nodes i left result s.buffers
  ({ s with phase := .node (i + 1), buffers }, events)

/-- A processor's turn. -/
def processorTurn (i : Nat) (turn : Turn R) : Except Unit (State R × List Event) :=
  match turn.answer with
  | .run (.done left routes) => .ok (ranTo service s i left (.ok routes))
  | .run (.failed left e) => .ok (ranTo service s i left (.error e))
  | .run .cancelled => .ok (shutDown service s turn.results)
  | _ => .error ()

/-- A sink's turn. -/
def sinkTurn (i : Nat) (turn : Turn R) : Except Unit (State R × List Event) :=
  match turn.answer with
  | .go =>
    let (buffers, events) := writeStaged turn.results i s.buffers
    .ok ({ s with phase := .node (i + 1), buffers }, events)
  | _ => .error ()

/-- The end of a pass. -/
def tailTurn (turn : Turn R) : Except Unit (State R × List Event) :=
  match turn.answer with
  | .tail cancelled paused =>
    if cancelled || mode = .oneShot then
      .ok ({ s with phase := .stopped },
        .completed :: (finishAllSinks service.nodes ++ finishAllSources service.nodes))
    else if s.backlogged || paused then .ok ({ s with phase := .head }, [.completed])
    else .ok ({ s with phase := .pacing }, [.completed])
  | _ => .error ()

/-- The head of the loop. The one-shot mode engages no controller. -/
def headTurn (turn : Turn R) : Except Unit (State R × List Event) :=
  match turn.answer with
  | .head true _ => .ok (shutDown service s turn.results)
  | .head false controllers =>
    .ok ({ s with
        phase := .node 0
        controllers := fun i => if mode = .oneShot then none else controllers i
        admittedRows := fun _ => 0
        backlogged := false },
      [.began])
  | _ => .error ()

/-- The pacing between passes. -/
def paceTurn (turn : Turn R) : Except Unit (State R × List Event) :=
  match turn.answer with
  | .pace true => .ok (shutDown service s turn.results)
  | .pace false => .ok ({ s with phase := .head }, [])
  | _ => .error ()

/-- `run_standalone`, from one wait to the next. -/
def step (turn : Turn R) : Except Unit (State R × List Event) :=
  match s.phase with
  | .head => headTurn service mode s turn
  | .node i =>
    match kindAt service.nodes i with
    | some (.source component _) => drainTurn service s i component turn
    | some (.processor _ _) => processorTurn service s i turn
    | some (.sink _ _) => sinkTurn s i turn
    | none => tailTurn service mode s turn
  | .pacing => paceTurn service s turn
  | .stopped => .error ()

end

/-! ## What a step can do -/

/-- The turn ends the run: it saw a cancellation, or the one pass of the one-shot mode is over. -/
def Ends {R : Type} (mode : RunMode) (turn : Turn R) : Bool :=
  match turn.answer with
  | .head cancelled _ => cancelled
  | .poll .cancelled => true
  | .run .cancelled => true
  | .tail cancelled _ => cancelled || mode = .oneShot
  | .pace cancelled => cancelled
  | _ => false

/-- The batch a source is about to admit: its carried tail, or one that has just arrived. -/
def Offers {R : Type} (s : State R) (turn : Turn R) (i : Nat) (batch : RecordBatch) : Prop :=
  s.carry i = some batch ∨ s.carry i = none ∧ turn.answer = .poll (.batch batch)

section
variable {R : Type} [Inhabited R] (service : BuiltService R) (mode : RunMode)

/-- The runner waits for something a cancellation is raced against. -/
inductive Waits (s : State R) : Prop
  | head (h : s.phase = .head)
  | polling (i : Nat) (h : s.phase = .node i) (hsource : isSource service.nodes i = true)
      (hcarry : s.carry i = none) (hcredit : remaining s i ≠ some 0)
  | running (i : Nat) (h : s.phase = .node i) (hprocessor : isProcessor service.nodes i = true)
  | pacing (h : s.phase = .pacing)

/-- The steps, one constructor a case. -/
inductive Steps (s : State R) (turn : Turn R) : State R → List Event → Prop
  | shutDown (h : Waits service s) (hends : Ends mode turn = true) :
    Steps s turn (shutDown service s turn.results).1 (shutDown service s turn.results).2
  | began (h : s.phase = .head) (controllers : Nat → Option FlowController)
    (hends : Ends mode turn = false) :
    Steps s turn
      { s with
        phase := .node 0
        controllers := fun i => if mode = .oneShot then none else controllers i
        admittedRows := fun _ => 0
        backlogged := false }
      [.began]
  | spent (i : Nat) (h : s.phase = .node i) (hsource : isSource service.nodes i = true)
    (hcredit : remaining s i = some 0) (hends : Ends mode turn = false) :
    Steps s turn { s with phase := .node (i + 1), backlogged := true } []
  | carried (i : Nat) (component : String) (schema : Schema) (batch : RecordBatch)
    (h : s.phase = .node i) (hkind : kindAt service.nodes i = some (.source component schema))
    (hcredit : remaining s i ≠ some 0) (hcarry : s.carry i = some batch)
    (hends : Ends mode turn = false) :
    Steps s turn (admitFrom service s i component batch).1 (admitFrom service s i component batch).2
  | arrived (i : Nat) (component : String) (schema : Schema) (batch : RecordBatch)
    (h : s.phase = .node i) (hkind : kindAt service.nodes i = some (.source component schema))
    (hcredit : remaining s i ≠ some 0) (hcarry : s.carry i = none) (hanswer : turn.answer = .poll (.batch batch))
    (hends : Ends mode turn = false) :
    Steps s turn (admitFrom service s i component batch).1
      (.arrived i batch :: (admitFrom service s i component batch).2)
  | drainedDry (i : Nat) (h : s.phase = .node i) (hsource : isSource service.nodes i = true)
    (hoffers : ∀ batch, ¬Offers s turn i batch) (events : List Event)
    (hevents : events = [] ∨ ∃ e, events = [.sourceFailed i e])
    (hends : Ends mode turn = false) :
    Steps s turn { s with phase := .node (i + 1) } events
  | ran (i : Nat) (left : Dataset R) (result : SaciResult (Option (List String)))
    (h : s.phase = .node i) (hprocessor : isProcessor service.nodes i = true)
    (hanswer : turn.answer = .run (result.casesOn (fun e => .failed left e) (.done left)))
    (hends : Ends mode turn = false) :
    Steps s turn (ranTo service s i left result).1 (ranTo service s i left result).2
  | wrote (i : Nat) (h : s.phase = .node i) (hsink : isSink service.nodes i = true)
    (hends : Ends mode turn = false) :
    Steps s turn { s with phase := .node (i + 1), buffers := (writeStaged turn.results i s.buffers).1 }
      (writeStaged turn.results i s.buffers).2
  | stopped (i : Nat) (h : s.phase = .node i) (hi : service.nodes.length ≤ i)
    (hends : Ends mode turn = true) :
    Steps s turn { s with phase := .stopped }
      (.completed :: (finishAllSinks service.nodes ++ finishAllSources service.nodes))
  | completed (i : Nat) (h : s.phase = .node i) (hi : service.nodes.length ≤ i) (phase : Phase)
    (hphase : phase = .head ∨ phase = .pacing) (hends : Ends mode turn = false) :
    Steps s turn { s with phase } [.completed]
  | paced (h : s.phase = .pacing) (hends : Ends mode turn = false) : Steps s turn { s with phase := .head } []

end

section
variable {R : Type} {service : BuiltService R} {mode : RunMode} {s s' : State R} {turn : Turn R}
  {events : List Event} {i : Nat}

@[simp] theorem admitFrom_phase (component : String) (batch : RecordBatch) :
    (admitFrom service s i component batch).1.phase = s.phase := rfl

/-- Whether a turn ends the run is decided by its answer. -/
theorem ends_of_answer {answer : Answer R} (h : turn.answer = answer) :
    Ends mode turn = Ends mode ⟨answer, turn.results⟩ := by
  rw [← h]

/-- A poll that answers no batch offers none. -/
theorem not_offers {answer : Answer R} (hcarry : s.carry i = none) (hanswer : turn.answer = answer)
    (hbatch : ∀ batch, answer ≠ .poll (.batch batch)) (batch : RecordBatch) :
    ¬Offers s turn i batch := by
  rintro (hcarried | ⟨-, harrived⟩)
  · cases hcarry.symm.trans hcarried
  · exact hbatch batch (hanswer.symm.trans harrived)

variable [Inhabited R]

theorem drainTurn_steps {component : String} {schema : Schema} (hphase : s.phase = .node i)
    (hkind : kindAt service.nodes i = some (.source component schema))
    (h : drainTurn service s i component turn = .ok (s', events)) :
    Steps service mode s turn s' events := by
  have hsource : isSource service.nodes i = true := by rw [isSource, hkind]
  rw [drainTurn] at h
  split_ifs at h with hcredit
  · split at h
    next hanswer =>
      cases h
      exact .spent i hphase hsource hcredit (ends_of_answer hanswer)
    next => cases h
  · split at h
    case h_1 batch hcarry hanswer =>
      cases h
      exact .carried i component schema batch hphase hkind hcredit hcarry (ends_of_answer hanswer)
    case h_2 batch hcarry hanswer =>
      cases h
      exact .arrived i component schema batch hphase hkind hcredit hcarry hanswer
        (ends_of_answer hanswer)
    case h_3 hcarry hanswer =>
      cases h
      exact .drainedDry i hphase hsource (not_offers hcarry hanswer nofun) _ (.inl rfl)
        (ends_of_answer hanswer)
    case h_4 e hcarry hanswer =>
      cases h
      exact .drainedDry i hphase hsource (not_offers hcarry hanswer nofun) _ (.inr ⟨e, rfl⟩)
        (ends_of_answer hanswer)
    case h_5 hcarry hanswer =>
      cases h
      exact .shutDown (.polling i hphase hsource hcarry hcredit) (ends_of_answer hanswer)
    case h_6 => cases h

theorem processorTurn_steps (hphase : s.phase = .node i)
    (hprocessor : isProcessor service.nodes i = true)
    (h : processorTurn service s i turn = .ok (s', events)) :
    Steps service mode s turn s' events := by
  rw [processorTurn] at h
  split at h
  case h_1 left routes hanswer =>
    cases h
    exact .ran i left (.ok routes) hphase hprocessor hanswer (ends_of_answer hanswer)
  case h_2 left e hanswer =>
    cases h
    exact .ran i left (.error e) hphase hprocessor hanswer (ends_of_answer hanswer)
  case h_3 hanswer =>
    cases h
    exact .shutDown (.running i hphase hprocessor) (ends_of_answer hanswer)
  case h_4 => cases h

theorem tailTurn_steps (hphase : s.phase = .node i) (hi : service.nodes.length ≤ i)
    (h : tailTurn service mode s turn = .ok (s', events)) :
    Steps service mode s turn s' events := by
  rw [tailTurn] at h
  split at h
  next cancelled paused hanswer =>
    split_ifs at h with hends
    · cases h
      exact .stopped i hphase hi ((ends_of_answer hanswer).trans hends)
    · cases h
      exact .completed i hphase hi .head (.inl rfl)
        ((ends_of_answer hanswer).trans (Bool.eq_false_iff.mpr hends))
    · cases h
      exact .completed i hphase hi .pacing (.inr rfl)
        ((ends_of_answer hanswer).trans (Bool.eq_false_iff.mpr hends))
  next => cases h

/-- **What a step of the batch runner can do.** -/
theorem steps_of_step (h : step service mode s turn = .ok (s', events)) :
    Steps service mode s turn s' events := by
  rw [step] at h
  split at h
  case h_1 hphase =>
    rw [headTurn] at h
    split at h
    next hanswer =>
      cases h
      exact .shutDown (.head hphase) (ends_of_answer hanswer)
    next hanswer =>
      cases h
      exact .began hphase _ (ends_of_answer hanswer)
    next => cases h
  case h_2 i hphase =>
    split at h
    case h_1 hkind => exact drainTurn_steps hphase hkind h
    case h_2 hkind => exact processorTurn_steps hphase (by rw [isProcessor, hkind]) h
    case h_3 hkind =>
      rw [sinkTurn] at h
      split at h
      next hanswer =>
        cases h
        exact .wrote i hphase (by rw [isSink, hkind]) (ends_of_answer hanswer)
      next => cases h
    case h_4 hkind => exact tailTurn_steps hphase (length_le_of_kindAt hkind) h
  case h_3 hphase =>
    rw [paceTurn] at h
    split at h
    next hanswer =>
      cases h
      exact .shutDown (.pacing hphase) (ends_of_answer hanswer)
    next hanswer =>
      cases h
      exact .paced hphase (ends_of_answer hanswer)
    next => cases h
  case h_4 => cases h

end
end Saci.Workflow.Standalone
