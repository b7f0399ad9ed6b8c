import Mathlib.Algebra.Group.Nat.Defs
import Mathlib.Algebra.Group.Prod
import Saci.Library.Effects
import Saci.Core.Write

/-!
# Running stages

`saci-core/src/pipeline/execution.rs`. A stage of parallel systems only is dispatched as a whole
above a row count, a parallel system may be run in slices, and everything else is run by one
system after the other. Row counts are cut to 32 bits where the source casts them, and the row
ranges are computed in wrapping 32-bit arithmetic, as a release build does. A panic of a task is
left out.
-/

namespace Saci

def SLICE_PARALLEL_THRESHOLD : Nat := 100000

def STAGE_INLINE_THRESHOLD : Nat := 100000

def MIN_ROWS_PER_CHUNK : Nat := 4096

/-- The number of values of a `u32`. -/
def U32_SIZE : Nat := 4294967296

/-- `as u32`. -/
def asU32 (n : Nat) : Nat := n % U32_SIZE

/-- What slicing looks up of the machine: `cpu_count` and `chunks_per_cpu`. -/
structure Machine where
  cpuCount : Nat
  chunksPerCpu : Nat
  cpuCount_pos : 0 < cpuCount
  cpuCount_lt : cpuCount < U32_SIZE
  chunksPerCpu_pos : 0 < chunksPerCpu
  chunksPerCpu_lt : chunksPerCpu < U32_SIZE

/-- How many chunks there are for a number of rows: the clamp of `compute_row_ranges`. -/
def Machine.numChunks (M : Machine) (totalRows : Nat) : Nat :=
  max M.cpuCount
    (min (totalRows / MIN_ROWS_PER_CHUNK) (min (M.cpuCount * M.chunksPerCpu) (U32_SIZE - 1)))

/-- `div_ceil` of the rows by the chunks. -/
def Machine.chunkSize (M : Machine) (totalRows : Nat) : Nat :=
  (totalRows + (M.numChunks totalRows - 1)) / M.numChunks totalRows

/-- `compute_row_ranges`. -/
def computeRowRanges (M : Machine) (totalRows : Nat) : List RowRange :=
  ((List.range (M.numChunks totalRows)).map fun i =>
    { start := asU32 (i * M.chunkSize totalRows)
      stop := min (asU32 ((i + 1) * M.chunkSize totalRows)) totalRows }).filter
    fun r : RowRange => r.start < r.stop

variable {T V : Type}

/-- One slice of a system. -/
def sliceOf (sys : ParallelSystem T V) (missing : String) (data : Dataset (ResourceMap T V))
    (range : RowRange) : SaciResult SliceWriteSet :=
  (sys.runSlice data range).getD (.error (.generic missing))

/-- The slices of a system, merged: the common part of `run_parallel_system_sliced` and of the
tasks of a stage, which differ in a message. -/
def runSliced (M : Machine) (sys : ParallelSystem T V) (missing : String)
    (data : Dataset (ResourceMap T V)) : SaciResult (WriteSet T V) := do
  let slices ← (computeRowRanges M (asU32 data.rows)).mapM (sliceOf sys missing data)
  sys.mergeSlices slices

/-- Whether a system is run in slices. -/
def useSlices (sys : ParallelSystem T V) (data : Dataset (ResourceMap T V)) : Bool :=
  SLICE_PARALLEL_THRESHOLD ≤ asU32 data.rows ∧ (sys.runSlice data ⟨0, 0⟩).isSome

/-- One attempt of a parallel system, which leaves the dataset as it is. -/
def ParallelSystem.attempt (M : Machine) (sys : ParallelSystem T V) (missing : String)
    (data : Dataset (ResourceMap T V)) : SaciResult (WriteSet T V) :=
  if useSlices sys data then runSliced M sys missing data else sys.run data

/-- `run_arrow_system_with_retries`. -/
def runArrowSystemWithRetries (sys : System T V) (config : SystemConfig)
    (data : Dataset (ResourceMap T V)) : Dataset (ResourceMap T V) × SaciResult Nat :=
  match runWithRetries config sys.attempt data with
  | (data', .error e) => (data', .error e)
  | (data', .ok (_, retries)) => (data', .ok retries)

/-- A parallel system with its retries. -/
def retryParallel (M : Machine) (sys : ParallelSystem T V) (missing : String)
    (config : SystemConfig) (data : Dataset (ResourceMap T V)) : SaciResult (WriteSet T V × Nat) :=
  (runWithRetries config (fun data => (data, sys.attempt M missing data)) data).2

/-- The message of a slice that is not there, in the sequential loop and in a dispatched stage. -/
def loopSliceNone : String := "ParallelSystem::run_slice returned None during slice execution"

def stageSliceNone : String := "run_slice returned None during parallel stage slice"

/-- `run_parallel_system_with_retries`. -/
def runParallelSystemWithRetries (M : Machine) (sys : ParallelSystem T V) :=
  retryParallel M sys loopSliceNone

variable [DecidableEq T]

/-- One system of the sequential loop, counted as run. An index without a system would be a
panic. -/
def runSystem (M : Machine) (systems : List (SystemEntry T V)) (configs : List SystemConfig)
    (idx : Nat) (data : Dataset (ResourceMap T V)) :
    Dataset (ResourceMap T V) × SaciResult (Nat × Nat) :=
  match systems[idx]?, configs[idx]? with
  | some (.sequential sys), some config =>
    match runArrowSystemWithRetries sys config data with
    | (data', .error e) => (data', .error e)
    | (data', .ok retries) => (data', .ok (1, retries))
  | some (.parallel sys), some config =>
    match runParallelSystemWithRetries M sys config data with
    | .error e => (data, .error e)
    | .ok (ws, retries) =>
      match data.applyWriteSet ws with
      | (data', .error e) => (data', .error e)
      | (data', .ok ()) => (data', .ok (1, retries))
  | _, _ => (data, .error (.generic "index out of bounds"))

/-- The sequential loop of `run_stage`: the systems run and their retries. -/
def runLoop (M : Machine) (systems : List (SystemEntry T V)) (configs : List SystemConfig)
    (stage : List Nat) (data : Dataset (ResourceMap T V)) :
    Dataset (ResourceMap T V) × SaciResult (Nat × Nat) :=
  Effects.runAll (stage.map (runSystem M systems configs)) data

/-- The parallel systems of a stage, with their configurations. -/
def stageTasks (systems : List (SystemEntry T V)) (configs : List SystemConfig)
    (stage : List Nat) : List (ParallelSystem T V × SystemConfig) :=
  stage.filterMap fun idx =>
    match systems[idx]?, configs[idx]? with
    | some (SystemEntry.parallel sys), some config => some (sys, config)
    | _, _ => none

/-- The write sets of a stage in one: a later column replaces an earlier one, and the resource
updates follow one another. -/
def mergeWriteSets (writeSets : List (WriteSet T V)) : WriteSet T V :=
  writeSets.foldl (fun merged ws =>
    { fields := ws.fields.entries.foldl (fun fields entry => fields.insert entry.1 entry.2)
        merged.fields
      resourceUpdates := merged.resourceUpdates ++ ws.resourceUpdates }) .new

/-- `run_parallel_stage`: the retries of a stage that is dispatched as a whole. -/
def runParallelStage (M : Machine) (systems : List (SystemEntry T V))
    (configs : List SystemConfig) (stage : List Nat) (data : Dataset (ResourceMap T V)) :
    Dataset (ResourceMap T V) × SaciResult Nat :=
  match (stageTasks systems configs stage).mapM fun (sys, config) =>
      retryParallel M sys stageSliceNone config data with
  | .error e => (data, .error e)
  | .ok results =>
    match data.applyWriteSet (mergeWriteSets (results.map (·.1))) with
    | (data', .error e) => (data', .error e)
    | (data', .ok ()) => (data', .ok (results.map (·.2)).sum)

/-- `run_stage`. -/
def runStage (M : Machine) (systems : List (SystemEntry T V)) (configs : List SystemConfig)
    (stage : List Nat) (data : Dataset (ResourceMap T V)) :
    Dataset (ResourceMap T V) × SaciResult (Nat × Nat) :=
  let allParallel := stage.all fun idx => (systems[idx]?).any SystemEntry.isParallel
  if allParallel ∧ 1 < stage.length ∧ STAGE_INLINE_THRESHOLD ≤ asU32 data.rows then
    match runParallelStage M systems configs stage data with
    | (data', .error e) => (data', .error e)
    | (data', .ok retries) => (data', .ok (stage.length, retries))
  else
    -- a stage of one parallel system has a branch of its own, with the body of the loop
    runLoop M systems configs stage data

/-- `run_stages`. -/
def runStages (M : Machine) (systems : List (SystemEntry T V)) (configs : List SystemConfig)
    (stages : List (List Nat)) (data : Dataset (ResourceMap T V)) :
    Dataset (ResourceMap T V) × SaciResult (Nat × Nat) :=
  Effects.runAll (stages.map (runStage M systems configs)) data

end Saci
