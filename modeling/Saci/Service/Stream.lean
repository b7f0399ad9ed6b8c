import Saci.Library.Run
import Saci.Service.NodeTurns

/-!
# The stream runner

`run_stream` (`saci-service/src/service/stream.rs`) as a machine with one step for each stretch
between two waits: the prime phase, the selection of a source, its poll, the item's turn at every
other node. A cancellation can strike at every wait but the prime phase, which is not raced against
one.
-/

namespace Saci.Workflow.Stream

/-- Where the runner is. -/
inductive Phase
  | priming
  /-- At the head of the loop, past the pause gate. -/
  | head
  /-- A source has been selected. -/
  | serving (source : Nat)
  /-- Waiting after a source error. -/
  | backoff
  /-- An item of a source at a node; past the last one at the end of the item. -/
  | item (source i : Nat)
  | stopped
  deriving DecidableEq

structure State (R : Type) where
  phase : Phase
  buffers : Buffers R
  /-- The tail of the batch each source is mid-way through. -/
  pending : Nat → Option RecordBatch
  /-- The batch a source's primed first poll answered. -/
  prefetched : Nat → Option RecordBatch
  exhausted : Nat → Bool
  remainingSources : Nat
  sourceCursor : Nat
  controllers : Nat → Option FlowController
  /-- The rows of the item. -/
  itemRows : Nat

/-- How a source's primed first poll ends. -/
inductive Primed
  | batch (batch : RecordBatch)
  | eof
  | failed (error : SaciError)
  | elapsed

/-- What a step waited for. -/
inductive Answer (R : Type)
  | prime (outcomes : Nat → Primed)
  | head (controllers : Nat → Option FlowController)
  /-- A step that waits for nothing, or only for a sink. -/
  | go
  | poll (answer : Poll)
  | pace (cancelled : Bool)
  | run (answer : RunAnswer R)

/-- An answer, with what the sinks answer to the batches written in the step. -/
structure Turn (R : Type) where
  answer : Answer R
  results : Nat → Nat → SaciResult Unit

section
variable {R : Type} [Inhabited R] (service : BuiltService R)

/-- The state a run starts from; a workflow without a source is refused. -/
def start : SaciResult (State R) :=
  if sourceIndices service.nodes = [] then
    .error (.configuration "stream mode requires at least one source (0 configured)")
  else .ok {
    phase := .priming
    buffers := Buffers.start service.nodes
    pending := fun _ => none
    prefetched := fun _ => none
    exhausted := fun _ => false
    remainingSources := (sourceIndices service.nodes).length
    sourceCursor := 0
    controllers := fun _ => none
    itemRows := 0 }

variable (s : State R)

/-- What a primed poll does for its source. -/
def primeOne (source : Nat) (outcome : Primed) : State R × List Event :=
  match outcome with
  | .batch batch =>
    ({ s with prefetched := Function.update s.prefetched source (some batch) },
      [.arrived source batch])
  | .eof =>
    ({ s with
        exhausted := Function.update s.exhausted source true
        remainingSources := s.remainingSources - 1 },
      [])
  | .failed e => (s, [.sourceFailed source e])
  | .elapsed => (s, [])

/-- The loop over the primed polls. -/
def primeEach (outcomes : Nat → Primed) : List Nat → State R → State R × List Event
  | [], s => (s, [])
  | source :: sources, s =>
    let (next, events) := primeOne s source (outcomes source)
    let (last, rest) := primeEach outcomes sources next
    (last, events ++ rest)

/-- Finish the sinks, then the sources. -/
def shutDown : State R × List Event :=
  ({ s with phase := .stopped }, finishAllSinks service.nodes ++ finishAllSources service.nodes)

/-- The rotation's position some steps after the cursor. -/
def sourceAt (position : Nat) : Nat :=
  (sourceIndices service.nodes).getD (position % (sourceIndices service.nodes).length) 0

/-- The position of the next source that holds a tail. -/
def pendingPosition : Option Nat :=
  ((List.range (sourceIndices service.nodes).length).map fun step =>
    (s.sourceCursor + step) % (sourceIndices service.nodes).length).find? fun position =>
      (s.pending (sourceAt service position)).isSome

/-- How far the rotation advances to a source that has not exhausted. It comes round in as many
steps as there are sources. -/
def stepsToLive : Option Nat :=
  (List.range (sourceIndices service.nodes).length).find? fun step =>
    !s.exhausted (sourceAt service (s.sourceCursor + step))

/-- The selected source and the cursor after it. -/
def selectSource : Option (Nat × Nat) :=
  match pendingPosition service s with
  | some position => some (sourceAt service position, position + 1)
  | none =>
    (stepsToLive service s).map fun step =>
      (sourceAt service (s.sourceCursor + step), s.sourceCursor + step + 1)

/-- The head of the loop. A source on a path to a windowed node has no controller. -/
def headTurn (turn : Turn R) : Except Unit (State R × List Event) :=
  match turn.answer with
  | .head controllers =>
    if s.remainingSources = 0 ∧ ∀ i ∈ sourceIndices service.nodes, s.pending i = none then
      .ok (shutDown service s)
    else
      match selectSource service s with
      | some (source, cursor) =>
        .ok ({ s with
            phase := .serving source
            sourceCursor := cursor
            controllers := fun i => if service.wholeArrivals i then none else controllers i },
          [])
      | none => .error ()
  | _ => .error ()

/-- The chunk of a batch becomes the item, and the tail stays pending. -/
def beginItem (source : Nat) (component : String) (batch : RecordBatch) : State R × List Event :=
  let (chunk, tail) := cutAt (credit s.controllers source) batch
  let (buffers, events) := admitChunk service.nodes source component chunk s.buffers
  ({ s with
      phase := .item source 0
      buffers
      pending := Function.update s.pending source tail
      itemRows := chunk.numRows },
    .began :: events)

/-- The selected source's batch: its tail, what it was primed with, or a fresh poll. -/
def serveTurn (source : Nat) (component : String) (turn : Turn R) :
    Except Unit (State R × List Event) :=
  match s.pending source, s.prefetched source, turn.answer with
  | some batch, _, .go => .ok (beginItem service s source component batch)
  | none, some batch, .go =>
    let taken := { s with prefetched := Function.update s.prefetched source none }
    .ok (beginItem service taken source component batch)
  | none, none, .poll (.batch batch) =>
    let (next, events) := beginItem service s source component batch
    .ok (next, .arrived source batch :: events)
  | none, none, .poll .eof =>
    .ok ({ s with
        phase := .head
        exhausted := Function.update s.exhausted source true
        remainingSources := s.remainingSources - 1 },
      [])
  | none, none, .poll (.failed e) => .ok ({ s with phase := .backoff }, [.sourceFailed source e])
  | none, none, .poll .cancelled => .ok (shutDown service s)
  | _, _, _ => .error ()

/-- The fan-out after a processor run, and on to the next node. -/
def ranTo (source i : Nat) (left : Dataset R) (result : SaciResult (Option (List String))) :
    State R × List Event :=
  let (buffers, events) := afterRun service.nodes i left result s.buffers
  ({ s with phase := .item source (i + 1), buffers }, events)

/-- An item's turn at a node. -/
def itemTurn (source i : Nat) (turn : Turn R) : Except Unit (State R × List Event) :=
  match kindAt service.nodes i, turn.answer with
  | some (.source _ _), .go => .ok ({ s with phase := .item source (i + 1) }, [])
  | some (.processor _ _), .run (.done left routes) => .ok (ranTo service s source i left (.ok routes))
  | some (.processor _ _), .run (.failed left e) => .ok (ranTo service s source i left (.error e))
  | some (.processor _ _), .run .cancelled => .ok (shutDown service s)
  | some (.sink _ _), .go =>
    let (buffers, events) := writeStaged turn.results i s.buffers
    .ok ({ s with phase := .item source (i + 1), buffers }, events)
  | none, .go => .ok ({ s with phase := .head }, [.completed])
  | _, _ => .error ()

/-- `run_stream`, from one wait to the next. -/
def step (turn : Turn R) : Except Unit (State R × List Event) :=
  match s.phase with
  | .priming =>
    match turn.answer with
    | .prime outcomes =>
      let (next, events) := primeEach outcomes (sourceIndices service.nodes) s
      .ok ({ next with phase := .head }, events)
    | _ => .error ()
  | .head => headTurn service s turn
  | .serving source =>
    match kindAt service.nodes source with
    | some (.source component _) => serveTurn service s source component turn
    | _ => .error ()
  | .backoff =>
    match turn.answer with
    | .pace true => .ok (shutDown service s)
    | .pace false => .ok ({ s with phase := .head }, [])
    | _ => .error ()
  | .item source i => itemTurn service s source i turn
  | .stopped => .error ()

end

/-! ## What a step can do -/

/-- The turn saw a cancellation. -/
def Cancels {R : Type} (turn : Turn R) : Bool :=
  match turn.answer with
  | .poll .cancelled => true
  | .pace cancelled => cancelled
  | .run .cancelled => true
  | _ => false

section
variable {R : Type} [Inhabited R] (service : BuiltService R)

/-- Where the runner shuts down: every source is exhausted, or a cancellation is raced against what
it waits for. -/
inductive Leaves (s : State R) : Prop
  | dry (h : s.phase = .head) (hremaining : s.remainingSources = 0)
      (hpending : ∀ i ∈ sourceIndices service.nodes, s.pending i = none)
  | polling (source : Nat) (h : s.phase = .serving source) (hpending : s.pending source = none)
      (hprefetched : s.prefetched source = none)
  | backoff (h : s.phase = .backoff)
  | running (source i : Nat) (h : s.phase = .item source i)
      (hprocessor : isProcessor service.nodes i = true)

/-- The steps, one constructor a case. -/
inductive Steps (s : State R) (turn : Turn R) : State R → List Event → Prop
  | primed (h : s.phase = .priming) (outcomes : Nat → Primed)
    (hanswer : turn.answer = .prime outcomes) (hcancels : Cancels turn = false) :
    Steps s turn { (primeEach outcomes (sourceIndices service.nodes) s).1 with phase := .head }
      (primeEach outcomes (sourceIndices service.nodes) s).2
  | shutDown (h : Leaves service s) (hcancels : Cancels turn = true ∨ s.phase = .head) :
    Steps s turn (shutDown service s).1 (shutDown service s).2
  | selected (h : s.phase = .head) (source cursor : Nat)
    (hselect : selectSource service s = some (source, cursor))
    (controllers : Nat → Option FlowController) (hcancels : Cancels turn = false) :
    Steps s turn
      { s with
        phase := .serving source
        sourceCursor := cursor
        controllers := fun i => if service.wholeArrivals i then none else controllers i }
      []
  | pending (source : Nat) (component : String) (schema : Schema) (batch : RecordBatch)
    (h : s.phase = .serving source)
    (hkind : kindAt service.nodes source = some (.source component schema))
    (hpending : s.pending source = some batch) (hcancels : Cancels turn = false) :
    Steps s turn (beginItem service s source component batch).1
      (beginItem service s source component batch).2
  | prefetched (source : Nat) (component : String) (schema : Schema) (batch : RecordBatch)
    (h : s.phase = .serving source)
    (hkind : kindAt service.nodes source = some (.source component schema))
    (hpending : s.pending source = none) (hprefetched : s.prefetched source = some batch)
    (hcancels : Cancels turn = false) :
    Steps s turn
      (beginItem service { s with prefetched := Function.update s.prefetched source none } source
        component batch).1
      (beginItem service { s with prefetched := Function.update s.prefetched source none } source
        component batch).2
  | arrived (source : Nat) (component : String) (schema : Schema) (batch : RecordBatch)
    (h : s.phase = .serving source)
    (hkind : kindAt service.nodes source = some (.source component schema))
    (hpending : s.pending source = none) (hprefetched : s.prefetched source = none)
    (hanswer : turn.answer = .poll (.batch batch)) (hcancels : Cancels turn = false) :
    Steps s turn (beginItem service s source component batch).1
      (.arrived source batch :: (beginItem service s source component batch).2)
  | exhausted (source : Nat) (h : s.phase = .serving source)
    (hsource : isSource service.nodes source = true) (hpending : s.pending source = none)
    (hprefetched : s.prefetched source = none) (hanswer : turn.answer = .poll .eof)
    (hcancels : Cancels turn = false) :
    Steps s turn
      { s with
        phase := .head
        exhausted := Function.update s.exhausted source true
        remainingSources := s.remainingSources - 1 }
      []
  | failed (source : Nat) (h : s.phase = .serving source) (hpending : s.pending source = none)
    (hprefetched : s.prefetched source = none) (e : SaciError)
    (hanswer : turn.answer = .poll (.failed e)) (hcancels : Cancels turn = false) :
    Steps s turn { s with phase := .backoff } [.sourceFailed source e]
  | retried (h : s.phase = .backoff) (hcancels : Cancels turn = false) :
    Steps s turn { s with phase := .head } []
  | passed (source i : Nat) (h : s.phase = .item source i)
    (hsource : isSource service.nodes i = true) (hcancels : Cancels turn = false) :
    Steps s turn { s with phase := .item source (i + 1) } []
  | ran (source i : Nat) (left : Dataset R) (result : SaciResult (Option (List String)))
    (h : s.phase = .item source i) (hprocessor : isProcessor service.nodes i = true)
    (hanswer : turn.answer = .run (result.casesOn (fun e => .failed left e) (.done left)))
    (hcancels : Cancels turn = false) :
    Steps s turn (ranTo service s source i left result).1 (ranTo service s source i left result).2
  | wrote (source i : Nat) (h : s.phase = .item source i) (hsink : isSink service.nodes i = true)
    (hcancels : Cancels turn = false) :
    Steps s turn
      { s with phase := .item source (i + 1), buffers := (writeStaged turn.results i s.buffers).1 }
      (writeStaged turn.results i s.buffers).2
  | completed (source i : Nat) (h : s.phase = .item source i) (hi : service.nodes.length ≤ i)
    (hcancels : Cancels turn = false) :
    Steps s turn { s with phase := .head } [.completed]

end

section
variable {R : Type} [Inhabited R] {service : BuiltService R} {s s' : State R} {turn : Turn R}
  {events : List Event} {source i : Nat}

omit [Inhabited R] in
/-- Whether a turn saw a cancellation is decided by its answer. -/
theorem cancels_of_answer {answer : Answer R} (h : turn.answer = answer) :
    Cancels turn = Cancels ⟨answer, turn.results⟩ := by
  rw [← h]

theorem headTurn_steps (hphase : s.phase = .head)
    (h : headTurn service s turn = .ok (s', events)) : Steps service s turn s' events := by
  rw [headTurn] at h
  split at h
  case h_1 controllers hanswer =>
    split_ifs at h with hdry
    · cases h
      exact .shutDown (.dry hphase hdry.1 hdry.2) (.inr hphase)
    · split at h
      case h_1 source cursor hselect =>
        cases h
        exact .selected hphase source cursor hselect controllers (cancels_of_answer hanswer)
      case h_2 => cases h
  case h_2 => cases h

theorem serveTurn_steps {component : String} {schema : Schema} (hphase : s.phase = .serving source)
    (hkind : kindAt service.nodes source = some (.source component schema))
    (h : serveTurn service s source component turn = .ok (s', events)) :
    Steps service s turn s' events := by
  have hsource : isSource service.nodes source = true := by rw [isSource, hkind]
  rw [serveTurn] at h
  split at h
  case h_1 batch hpending hanswer =>
    cases h
    exact .pending source component schema batch hphase hkind hpending (cancels_of_answer hanswer)
  case h_2 batch hpending hprefetched hanswer =>
    cases h
    exact .prefetched source component schema batch hphase hkind hpending hprefetched
      (cancels_of_answer hanswer)
  case h_3 batch hpending hprefetched hanswer =>
    cases h
    exact .arrived source component schema batch hphase hkind hpending hprefetched hanswer
      (cancels_of_answer hanswer)
  case h_4 hpending hprefetched hanswer =>
    cases h
    exact .exhausted source hphase hsource hpending hprefetched hanswer (cancels_of_answer hanswer)
  case h_5 e hpending hprefetched hanswer =>
    cases h
    exact .failed source hphase hpending hprefetched e hanswer (cancels_of_answer hanswer)
  case h_6 hpending hprefetched hanswer =>
    cases h
    exact .shutDown (.polling source hphase hpending hprefetched)
      (.inl (cancels_of_answer hanswer))
  case h_7 => cases h

theorem itemTurn_steps (hphase : s.phase = .item source i)
    (h : itemTurn service s source i turn = .ok (s', events)) : Steps service s turn s' events := by
  rw [itemTurn] at h
  split at h
  case h_1 hkind hanswer =>
    cases h
    exact .passed source i hphase (by rw [isSource, hkind]) (cancels_of_answer hanswer)
  case h_2 left routes hkind hanswer =>
    cases h
    exact .ran source i left (.ok routes) hphase (by rw [isProcessor, hkind]) hanswer
      (cancels_of_answer hanswer)
  case h_3 left e hkind hanswer =>
    cases h
    exact .ran source i left (.error e) hphase (by rw [isProcessor, hkind]) hanswer
      (cancels_of_answer hanswer)
  case h_4 hkind hanswer =>
    cases h
    exact .shutDown (.running source i hphase (by rw [isProcessor, hkind]))
      (.inl (cancels_of_answer hanswer))
  case h_5 hkind hanswer =>
    cases h
    exact .wrote source i hphase (by rw [isSink, hkind]) (cancels_of_answer hanswer)
  case h_6 hkind hanswer =>
    cases h
    exact .completed source i hphase (length_le_of_kindAt hkind) (cancels_of_answer hanswer)
  case h_7 => cases h

/-- **What a step of the stream runner can do.** -/
theorem steps_of_step (h : step service s turn = .ok (s', events)) :
    Steps service s turn s' events := by
  rw [step] at h
  split at h
  case h_1 hphase =>
    split at h
    next hanswer =>
      cases h
      exact .primed hphase _ hanswer (cancels_of_answer hanswer)
    next => cases h
  case h_2 hphase => exact headTurn_steps hphase h
  case h_3 source hphase =>
    split at h
    case h_1 hkind => exact serveTurn_steps hphase hkind h
    case h_2 => cases h
  case h_4 hphase =>
    split at h
    next hanswer =>
      cases h
      exact .shutDown (.backoff hphase) (.inl (cancels_of_answer hanswer))
    next hanswer =>
      cases h
      exact .retried hphase (cancels_of_answer hanswer)
    next => cases h
  case h_5 source i hphase => exact itemTurn_steps hphase h
  case h_6 => cases h

end
end Saci.Workflow.Stream
