import Saci.Core.Dag
import Saci.Core.Execution

/-!
# Pipelines

A dataset, its systems and their plan (`saci-core/src/pipeline.rs`, `pipeline/registration.rs` and the entry
points of `pipeline/execution.rs` without sources and sinks). The plan is in three cells that are filled once,
by whoever asks for it first, and emptied when a system is added. Names and durations are left out.
-/

namespace Saci

variable {T V : Type}

/-- `RunStats`. -/
structure RunStats where
  rowsProduced : Int := 0
  systemsRun : Nat := 0
  retriesThisBatch : Nat := 0
  deriving DecidableEq

/-- `Pipeline`. A cell that has not been filled is `none`. -/
structure Pipeline (T V : Type) where
  data : Dataset (ResourceMap T V)
  systems : List (SystemEntry T V)
  stages : Option (SaciResult (List (List Nat)))
  expandedMetas : Option (SaciResult (List (ExpandedMeta T)))
  configs : Option (List SystemConfig)
  lastStats : RunStats

/-- What the three cells hold once a plan is made. -/
structure Plan (T : Type) where
  expandedMetas : List (ExpandedMeta T)
  stages : List (List Nat)
  configs : List SystemConfig

/-- The plan from scratch. -/
def computePlan [DecidableEq T] (systems : List (SystemEntry T V)) (schemas : SchemaRegistry) :
    SaciResult (Plan T) := do
  let expandedMetas ← expandMetas schemas systems
  let (stages, configs) := buildStagesInner systems expandedMetas
  .ok { expandedMetas, stages, configs }

/-- The part of `run` and `run_on_with_stats` that follows the unwrapping of a plan. -/
def Plan.execute [DecidableEq T] (M : Machine) (plan : Plan T) (systems : List (SystemEntry T V))
    (data : Dataset (ResourceMap T V)) : Dataset (ResourceMap T V) × SaciResult RunStats :=
  if plan.stages.isEmpty then (data, .ok {})
  else
    match runStages M systems plan.configs plan.stages data with
    | (data', .error e) => (data', .error e)
    | (data', .ok (systemsRun, retriesThisBatch)) =>
      (data', .ok { rowsProduced := data'.liveCount - data.liveCount, systemsRun, retriesThisBatch })

namespace Pipeline

/-- `build` of a builder. -/
def build (data : Dataset (ResourceMap T V)) (systems : List (SystemEntry T V)) : Pipeline T V where
  data
  systems
  stages := none
  expandedMetas := none
  configs := none
  lastStats := {}

/-- `invalidate_cache`. -/
def invalidateCache (p : Pipeline T V) : Pipeline T V :=
  { p with stages := none, expandedMetas := none, configs := none }

/-- `add_system` and its three siblings. -/
def addSystem (p : Pipeline T V) (entry : SystemEntry T V) : Pipeline T V :=
  { p.invalidateCache with systems := p.systems ++ [entry] }

variable [DecidableEq T]

/-- `ensure_plan`. -/
def ensurePlan (p : Pipeline T V) (schemas : SchemaRegistry) : Pipeline T V × SaciResult Unit :=
  let metasResult := p.expandedMetas.getD (expandMetas schemas p.systems)
  let p := { p with expandedMetas := some metasResult }
  match metasResult with
  | .error e => (p, .error e)
  | .ok metas =>
    match p.stages with
    | some (.error e) => (p, .error e)
    | some (.ok _) => (p, .ok ())
    | none =>
      let (stages, configs) := buildStagesInner p.systems metas
      ({ p with stages := some (.ok stages), configs := some (p.configs.getD configs) }, .ok ())

/-- `validate`. -/
def validate (p : Pipeline T V) : Pipeline T V × SaciResult Unit := p.ensurePlan p.data.schemas

/-- What a run unwraps from the cells. Where one is empty or holds an error, it would panic. -/
def plan (p : Pipeline T V) : Option (Plan T) :=
  match p.expandedMetas, p.stages, p.configs with
  | some (.ok expandedMetas), some (.ok stages), some configs => some { expandedMetas, stages, configs }
  | _, _, _ => none

/-- The stages of the plan over a dataset. -/
def runPlan (M : Machine) (p : Pipeline T V) (data : Dataset (ResourceMap T V)) :
    Dataset (ResourceMap T V) × SaciResult RunStats :=
  match p.plan with
  | none => (data, .error (.generic "called `Option::unwrap()` on a `None` value"))
  | some plan => plan.execute M p.systems data

/-- `run`. -/
def run (M : Machine) (p : Pipeline T V) : Pipeline T V × SaciResult Unit :=
  match p.ensurePlan p.data.schemas with
  | (p, .error e) => (p, .error e)
  | (p, .ok ()) =>
    match p.runPlan M p.data with
    | (data, .error e) => ({ p with data }, .error e)
    | (data, .ok lastStats) => ({ p with data, lastStats }, .ok ())

/-- `run_on_with_stats`: the pipeline and the dataset it leaves. -/
def runOnWithStats (M : Machine) (p : Pipeline T V) (data : Dataset (ResourceMap T V)) :
    Pipeline T V × Dataset (ResourceMap T V) × SaciResult RunStats :=
  match p.ensurePlan data.schemas with
  | (p, .error e) => (p, data, .error e)
  | (p, .ok ()) =>
    match p.runPlan M data with
    | (data, .error e) => (p, data, .error e)
    | (data, .ok lastStats) => ({ p with lastStats }, data, .ok lastStats)

end Pipeline
end Saci
