import Mathlib.Logic.Function.Basic
import Saci.Service.Flow
import Saci.Service.Validation

/-!
# The turns of a workflow's nodes

What both runners do at a node (`saci-service/src/service/standalone.rs`, `stream.rs`): fan a
source's chunk out, run a processor and forward its output, write what is staged for a sink, finish
the sinks and the sources. What happens is told as a list of events. What the connectors and the
runtimes answer is taken as it comes.
-/

namespace Saci.Workflow

/-- What a run shows. -/
inductive Event
  /-- A source's `next_batch` answered a batch. -/
  | arrived (source : Nat) (batch : RecordBatch)
  | sourceFailed (source : Nat) (error : SaciError)
  /-- A pass or an item begins. -/
  | began
  /-- A chunk enters the pass. -/
  | admitted (source : Nat) (chunk : RecordBatch)
  | appendFailed (source processor : Nat) (error : SaciError)
  | forwardFailed (upstream processor : Nat) (error : SaciError)
  /-- The component a sink reads is not in the processor's dataset. -/
  | absent (processor sink : Nat)
  | staged (node sink : Nat) (batch : RecordBatch)
  | ran (processor : Nat) (result : SaciResult Unit)
  | wrote (sink : Nat) (batch : RecordBatch) (result : SaciResult Unit)
  /-- Everything staged for the sink has been written or counted as an error. -/
  | drained (sink : Nat)
  /-- Every node had its turn. -/
  | completed
  | finishedSink (sink : Nat)
  | finishedSource (source : Nat)

/-- What `next_batch` answers, or the cancellation it is raced against. -/
inductive Poll
  | batch (batch : RecordBatch)
  | eof
  | failed (error : SaciError)
  | cancelled

/-- What a runtime answers, with the dataset it leaves, or the cancellation it is raced against. -/
inductive RunAnswer (R : Type)
  | done (left : Dataset R) (routes : Option (List String))
  | failed (left : Dataset R) (error : SaciError)
  | cancelled

/-- The datasets of the processors and the batches staged for the sinks. -/
structure Buffers (R : Type) where
  datasets : Nat → Dataset R
  staged : Nat → List RecordBatch

namespace Buffers
variable {R : Type}

def setDataset (buffers : Buffers R) (i : Nat) (data : Dataset R) : Buffers R :=
  { buffers with datasets := Function.update buffers.datasets i data }

def stage (buffers : Buffers R) (sink : Nat) (batch : RecordBatch) : Buffers R :=
  { buffers with
    staged := Function.update buffers.staged sink (buffers.staged sink ++ [batch]) }

def unstage (buffers : Buffers R) (sink : Nat) : Buffers R :=
  { buffers with staged := Function.update buffers.staged sink [] }

variable (buffers : Buffers R) (i : Nat) (data : Dataset R) (batch : RecordBatch)

@[simp] theorem datasets_setDataset :
    (buffers.setDataset i data).datasets = Function.update buffers.datasets i data := rfl

end Buffers

/-! ## Forwarding -/

/-- The appends of `forward_into` with the dataset they leave, also where one fails. -/
def forwardNames {R : Type} (data : Dataset R) :
    List String → Dataset R → Nat → Dataset R × SaciResult Nat
  | [], dst, appended => (dst, .ok appended)
  | name :: names, dst, appended =>
    match data.batchFor name with
    | none => forwardNames data names dst appended
    | some batch =>
      match dst.appendRecordBatch name batch with
      | .error e => (dst, .error e)
      | .ok (dst', _) => forwardNames data names dst' (appended + batch.numRows)

/-- `forward_into` with the dataset it leaves. -/
def forwardInto {R : Type} (data dst : Dataset R) : Dataset R × SaciResult Nat :=
  forwardNames data (dst.components.map Registered.name) dst 0

/-! ## Fan-out -/

section
variable {R : Type} (nodes : List (BuiltNode R))

/-- A loop over a node's edges. -/
def overEdges (f : Buffers R → BuiltEdge → Buffers R × List Event) :
    Buffers R → List BuiltEdge → Buffers R × List Event
  | buffers, [] => (buffers, [])
  | buffers, edge :: edges =>
    let (next, events) := f buffers edge
    let (last, rest) := overEdges f next edges
    (last, events ++ rest)

/-- What every edge's events are, those of the loop are. -/
theorem mem_overEdges {f : Buffers R → BuiltEdge → Buffers R × List Event} {P : Event → Prop}
    (hf : ∀ buffers edge, ∀ e ∈ (f buffers edge).2, P e) (buffers : Buffers R)
    (edges : List BuiltEdge) : ∀ e ∈ (overEdges f buffers edges).2, P e := by
  induction edges generalizing buffers with
  | nil => exact fun e he => nomatch he
  | cons edge edges ih =>
    exact fun e he => (List.mem_append.mp he).elim (hf buffers edge e) (ih _ e)

/-- A source's chunk goes along one edge. -/
def fanOutEdge (source : Nat) (component : String) (chunk : RecordBatch) (buffers : Buffers R)
    (edge : BuiltEdge) : Buffers R × List Event :=
  match kindAt nodes edge.node with
  | some (.processor _ _) =>
    match (buffers.datasets edge.node).appendRecordBatch component chunk with
    | .ok (data, _) => (buffers.setDataset edge.node data, [])
    | .error e => (buffers, [.appendFailed source edge.node e])
  | some (.sink _ _) => (buffers.stage edge.node chunk, [.staged source edge.node chunk])
  | _ => (buffers, [])

/-- A source's chunk is admitted: it goes along every edge. -/
def admitChunk (source : Nat) (component : String) (chunk : RecordBatch) (buffers : Buffers R) :
    Buffers R × List Event :=
  let (next, events) :=
    overEdges (fanOutEdge nodes source component chunk) buffers (downstreamAt nodes source)
  (next, .admitted source chunk :: events)

/-- A processor's output goes along one edge, when the routes select it. -/
def forwardEdge (i : Nat) (routes : Option (List String)) (buffers : Buffers R) (edge : BuiltEdge) :
    Buffers R × List Event :=
  if edgeSelected routes edge.branch then
    match kindAt nodes edge.node with
    | some (.processor _ _) =>
      match forwardInto (buffers.datasets i) (buffers.datasets edge.node) with
      | (dst, .ok _) => (buffers.setDataset edge.node dst, [])
      | (dst, .error e) => (buffers.setDataset edge.node dst, [.forwardFailed i edge.node e])
    | some (.sink component _) =>
      match (buffers.datasets i).batchFor component with
      | some batch =>
        if 0 < batch.numRows then (buffers.stage edge.node batch, [.staged i edge.node batch])
        else (buffers, [])
      | none => (buffers, [.absent i edge.node])
    | _ => (buffers, [])
  else (buffers, [])

variable [Inhabited R]

/-- The dataset a node starts from. Only a processor's is ever looked at. -/
def templateAt (i : Nat) : Dataset R :=
  match kindAt nodes i with
  | some (.processor _ template) => template
  | _ => .new default

/-- The buffers a runner starts from. -/
def Buffers.start : Buffers R := ⟨templateAt nodes, fun _ => []⟩

/-- `clear` of a node's dataset. -/
def Buffers.clearDataset (buffers : Buffers R) (i : Nat) : Buffers R :=
  buffers.setDataset i ((buffers.datasets i).clear default)

/-- A run that came back: the fan-out, unless it failed, and the dataset is cleared. -/
def afterRun (i : Nat) (left : Dataset R) (result : SaciResult (Option (List String)))
    (buffers : Buffers R) : Buffers R × List Event :=
  match result with
  | .error e => ((buffers.setDataset i left).clearDataset i, [.ran i (.error e)])
  | .ok routes =>
    let (next, events) :=
      overEdges (forwardEdge nodes i routes) (buffers.setDataset i left) (downstreamAt nodes i)
    (next.clearDataset i, .ran i (.ok ()) :: events)

end

/-! ## Sinks and sources -/

section
variable {R : Type} (nodes : List (BuiltNode R)) (results : Nat → Nat → SaciResult Unit)

/-- `write_staged`. The results are what the sinks answer to their batches in turn. -/
def writeStaged (sink : Nat) (buffers : Buffers R) : Buffers R × List Event :=
  (buffers.unstage sink,
    ((buffers.staged sink).mapIdx fun j batch => .wrote sink batch (results sink j)) ++
      [.drained sink])

/-- The indices of the sinks. -/
def sinkIndices : List Nat := (List.range nodes.length).filter (isSink nodes)

/-- `source_indices`. -/
def sourceIndices : List Nat := (List.range nodes.length).filter (isSource nodes)

/-- The loop of `flush_and_finish_all`. -/
def flushEach : List Nat → Buffers R → Buffers R × List Event
  | [], buffers => (buffers, [])
  | sink :: sinks, buffers =>
    let (next, events) := writeStaged results sink buffers
    let (last, rest) := flushEach sinks next
    (last, events ++ .finishedSink sink :: rest)

/-- `flush_and_finish_all`. -/
def flushAndFinishAll (buffers : Buffers R) : Buffers R × List Event :=
  flushEach results (sinkIndices nodes) buffers

/-- `finish_all_sinks`. -/
def finishAllSinks : List Event := (sinkIndices nodes).map .finishedSink

/-- `finish_all_sources`. -/
def finishAllSources : List Event := (sourceIndices nodes).map .finishedSource

end

/-! ## Chunks -/

/-- The chunk and the tail of a batch of which at most so many rows may enter; `none` is
`usize::MAX`. -/
def cutAt (limit : Option Nat) (batch : RecordBatch) : RecordBatch × Option RecordBatch :=
  match limit with
  | none => (batch, none)
  | some limit =>
    if limit < batch.numRows then
      (batch.slice 0 limit, some (batch.slice limit (batch.numRows - limit)))
    else (batch, none)

/-- A source's admission credit: it has a controller and that is enabled. -/
def credit (controllers : Nat → Option FlowController) (source : Nat) : Option Nat :=
  match controllers source with
  | some controller => if controller.settings.enabled then some controller.targetRows else none
  | none => none

theorem rows_cutAt (limit : Option Nat) (batch : RecordBatch) :
    (cutAt limit batch).1.rows ++ ((cutAt limit batch).2.elim [] RecordBatch.rows) = batch.rows := by
  cases limit with
  | none => exact List.append_nil _
  | some limit =>
    rw [cutAt]
    split_ifs with h
    · have htail : (batch.rows.drop limit).length ≤ batch.numRows - limit := by
        rw [List.length_drop, RecordBatch.numRows]
      rw [Option.elim_some, RecordBatch.rows_slice, RecordBatch.rows_slice, List.drop_zero,
        List.take_of_length_le htail, List.take_append_drop]
    · exact List.append_nil _

theorem numRows_cutAt_le {limit : Nat} {batch : RecordBatch} :
    (cutAt (some limit) batch).1.numRows ≤ limit := by
  rw [cutAt]
  split_ifs with h
  · rw [RecordBatch.numRows_slice]
    exact Nat.min_le_left _ _
  · exact Nat.le_of_not_lt h

@[simp] theorem cutAt_none (batch : RecordBatch) : cutAt none batch = (batch, none) := rfl

end Saci.Workflow
