import Mathlib
import Saci.Library.Kahn
import Saci.Core.Error

/-!
# The scheduler

Several pipelines, driven one pass of their dependency graph at a time (`scheduler.rs`). A
pipeline is whatever has a name that running it leaves alone, can be run, and says how many rows
its last run produced.
-/

namespace Saci

/-- What the scheduler calls on a pipeline: `name`, `run_with_io` and `last_stats`. -/
structure PipelineApi (P : Type) where
  name : P → String
  runWithIo : P → SaciResult Unit × P
  rowsProduced : P → Int
  name_runWithIo : ∀ p, name (runWithIo p).2 = name p

/-- How one pipeline depends on another. -/
inductive DependencyKind
  /-- Run after the named pipeline completes. -/
  | order
  /-- Run after the named pipeline, and skip if it produced zero rows. -/
  | data
  deriving DecidableEq

/-- Per-pipeline scheduling configuration. -/
structure PipelineConfig (P : Type) where
  dependencies : List (String × DependencyKind) := []
  priority : Int := 0
  /-- `BackpressureSpec::Predicate`. -/
  backpressure : Option (P → Bool) := none

variable {P : Type}

structure Scheduler (P : Type) where
  pipelines : List P
  configs : List (PipelineConfig P)
  /-- The cached stage plan, once the first tick has filled it. -/
  stagePlan : Option (SaciResult (List (List Nat)))

namespace Scheduler

def new : Scheduler P := ⟨[], [], none⟩

def addPipelineWithConfig (s : Scheduler P) (p : P) (config : PipelineConfig P) : Scheduler P :=
  { s with pipelines := s.pipelines ++ [p], configs := s.configs ++ [config] }

def addPipeline (s : Scheduler P) (p : P) : Scheduler P := s.addPipelineWithConfig p {}

end Scheduler

/-! ## The stage plan -/

/-- `name_to_idx`: of pipelines with one name the last is found. -/
def nameToIdx (names : List String) (name : String) : Option Nat :=
  (names.zipIdx.reverse.find? fun entry => entry.1 = name).map (·.2)

/-- The edges one pipeline's dependencies add, each from the dependency to the pipeline. -/
def dependencyEdges (names : List String) (name : String) (idx : Nat)
    (dependencies : List (String × DependencyKind)) : SaciResult (List (Nat × Nat)) :=
  dependencies.mapM fun (depName, _) =>
    match nameToIdx names depName with
    | none => .error <| .configuration <|
        s!"pipeline '{name}' declares dependency on unknown pipeline '{depName}'"
    | some depIdx => .ok (depIdx, idx)

/-- `build_stages`, on the names of the pipelines. -/
def buildStages (names : List String) (configs : List (PipelineConfig P)) :
    SaciResult (List (List Nat)) := do
  let n := names.length
  if n = 0 then .ok []
  else
    let edges ← (names.zip configs).zipIdx.mapM fun ((name, config), idx) =>
      dependencyEdges names name idx config.dependencies
    let stages := Kahn.layers n (Kahn.adjacencyOf edges.flatten) (Kahn.inDegreeOf edges.flatten)
    let visited := (stages.map List.length).sum
    if visited ≠ n then .error (.scheduler "pipeline dependency graph contains a cycle")
    else .ok stages

/-! ## Ticks -/

/-- What became of a pipeline at its turn. -/
inductive Outcome
  | skippedData
  | skippedBackpressure
  | ran (rows : Int)
  deriving DecidableEq

/-- The flag `produced_zero` that the turn leaves. -/
def Outcome.producedZero : Outcome → Bool
  | .skippedData | .skippedBackpressure => true
  | .ran rows => rows = 0

/-- A tick under way; `log` records the turns taken. -/
structure TickState (P : Type) where
  pipelines : List P
  producedZero : List Bool
  log : List (Nat × Outcome)

/-- The turn of `idx` is over. -/
def TickState.record (t : TickState P) (idx : Nat) (outcome : Outcome) : TickState P :=
  { t with
    producedZero := t.producedZero.set idx outcome.producedZero
    log := t.log ++ [(idx, outcome)] }

section
variable (R : PipelineApi P) (configs : List (PipelineConfig P))

def dependenciesOf (idx : Nat) : List (String × DependencyKind) :=
  ((configs[idx]?).map (·.dependencies)).getD []

def priorityOf (idx : Nat) : Int := ((configs[idx]?).map (·.priority)).getD 0

/-- `is_backpressured`. -/
def isBackpressured (idx : Nat) (p : P) : Bool :=
  (((configs[idx]?).bind (·.backpressure)).map (· p)).getD false

def shouldSkipDataDep (t : TickState P) (idx : Nat) : Bool :=
  (dependenciesOf configs idx).any fun (depName, kind) =>
    kind = .data ∧
      ((t.pipelines.findIdx? fun p => R.name p = depName).bind (t.producedZero[·]?)) = some true

/-- One turn of the inner loop. An index without a pipeline would be a panic. -/
def tickPipeline (t : TickState P) (idx : Nat) : SaciResult Unit × TickState P :=
  if shouldSkipDataDep R configs t idx then (.ok (), t.record idx .skippedData)
  else
    match t.pipelines[idx]? with
    | none => (.error (.generic "index out of bounds"), t)
    | some p =>
      if isBackpressured configs idx p then (.ok (), t.record idx .skippedBackpressure)
      else
        match R.runWithIo p with
        | (.error e, p') => (.error e, { t with pipelines := t.pipelines.set idx p' })
        | (.ok (), p') =>
          (.ok (), { t with pipelines := t.pipelines.set idx p' }.record idx
            (.ran (R.rowsProduced p')))

/-- The turns of the stages, up to the first error. -/
def tickPipelines (t : TickState P) : List Nat → SaciResult Unit × TickState P
  | [] => (.ok (), t)
  | idx :: rest =>
    match tickPipeline R configs t idx with
    | (.error e, t') => (.error e, t')
    | (.ok (), t') => tickPipelines t' rest

/-- A stage by priority, lower first, ties in registration order. -/
def orderedStage (stage : List Nat) : List Nat :=
  stage.insertionSort fun i j => priorityOf configs i ≤ priorityOf configs j

end

/-- `tick`, with the turns it took. -/
def Scheduler.tick (R : PipelineApi P) (s : Scheduler P) :
    SaciResult Unit × Scheduler P × List (Nat × Outcome) :=
  let plan := s.stagePlan.getD (buildStages (s.pipelines.map R.name) s.configs)
  let s := { s with stagePlan := some plan }
  match plan with
  | .error e => (.error (.scheduler e.display), s, [])
  | .ok stages =>
    let start : TickState P := ⟨s.pipelines, s.pipelines.map fun _ => false, []⟩
    let (result, t) :=
      tickPipelines R s.configs start (stages.flatMap (orderedStage s.configs))
    (result, { s with pipelines := t.pipelines }, t.log)

end Saci
