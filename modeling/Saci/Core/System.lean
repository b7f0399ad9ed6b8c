import Mathlib.Data.List.AList
import Saci.Core.Dataset

/-!
# Systems

What a pipeline runs (`saci-core/src/system.rs`, `system/*.rs`) and the retries around it
(`retry.rs`). A system declares the fields, components and resources it reads and writes. A
sequential one changes the dataset in place; a parallel one looks at it and answers a write set,
over all rows or over a range of them. Delays between attempts are left out: only their number
bears on what a system leaves.
-/

namespace Saci

/-- `FieldAccess`: a field of a component. -/
structure FieldAccess where
  component : String
  field : String
  deriving DecidableEq, Repr

/-- What a system declares. `T` are the type ids of resources. -/
structure SystemMeta (T : Type) where
  name : String
  reads : List FieldAccess
  writes : List FieldAccess
  readsComponents : List String
  writesComponents : List String
  readsResources : List T
  writesResources : List T

/-! ## Retries -/

inductive RetryMode
  | none
  | fixed (retries : Nat)
  | exponentialBackoff (maxRetries : Nat)
  deriving DecidableEq

/-- The initial attempt and the retries. -/
def RetryMode.maxAttempts : RetryMode → Nat
  | .none => 1
  | .fixed retries => retries + 1
  | .exponentialBackoff maxRetries => maxRetries + 1

structure SystemConfig where
  retryMode : RetryMode := .exponentialBackoff 3
  deriving DecidableEq

/-- The loop of `run_with_retries`, with the attempts that are left and those that failed. -/
def retryLoop {S α : Type} (f : S → S × SaciResult α) :
    Nat → Nat → S → S × SaciResult (α × Nat)
  | left, attempt, s =>
    match f s with
    | (s', .ok value) => (s', .ok (value, attempt))
    | (s', .error e) =>
      match left with
      | 0 => (s', .error (.retryExhausted e (attempt + 1)))
      | left + 1 => retryLoop f left (attempt + 1) s'

/-- `run_with_retries`: the first value an attempt answers, and the retries before it. Each
attempt starts from what the one before it left. -/
def runWithRetries {S α : Type} (config : SystemConfig) (f : S → S × SaciResult α) :
    S → S × SaciResult (α × Nat) :=
  retryLoop f (config.retryMode.maxAttempts - 1) 0

/-! ## Write sets -/

/-- New columns by field. The order of the entries is the map's own. -/
abbrev FieldMap := AList fun _ : FieldAccess => ArrayRef

/-- The resources of a dataset, by type id. -/
abbrev ResourceMap (T V : Type) := T → Option V

/-- `ResourceUpdate`: insert or replace a resource. -/
structure ResourceUpdate (T V : Type) where
  resource : T
  value : V

variable {T V : Type}

def ResourceUpdate.apply [DecidableEq T] (update : ResourceUpdate T V)
    (data : Dataset (ResourceMap T V)) : Dataset (ResourceMap T V) :=
  data.insertResource fun resources =>
    Function.update resources update.resource (some update.value)

structure WriteSet (T V : Type) where
  fields : FieldMap
  resourceUpdates : List (ResourceUpdate T V)

/-- `WriteSet::new`. -/
def WriteSet.new : WriteSet T V := ⟨∅, []⟩

/-- `put`. -/
def WriteSet.put (ws : WriteSet T V) (key : FieldAccess) (array : ArrayRef) : WriteSet T V :=
  { ws with fields := ws.fields.insert key array }

/-- A range of rows, its end excluded. -/
structure RowRange where
  start : Nat
  stop : Nat
  deriving DecidableEq, Repr

structure SliceWriteSet where
  fields : FieldMap
  sliceRows : RowRange

/-- `concat` of Arrow. It refuses arrays of different types. -/
def concatArrays : List ArrayRef → Except String ArrayRef
  | [] => .error "Invalid argument error: concat requires input of at least one array"
  | array :: arrays =>
    if arrays.all fun other => other.dataType = array.dataType then
      .ok ⟨array.dataType, array.cells ++ arrays.flatMap ArrayRef.cells⟩
    else
      .error <| "Invalid argument error: It is not possible to concatenate arrays of different " ++
        "data types."

/-- `merge_slices` as the trait has it: the fields of the first slice, each with its segments in
the order of the slices. -/
def mergeSlicesDefault (slices : List SliceWriteSet) : SaciResult (WriteSet T V) :=
  match slices with
  | [] => .ok .new
  | first :: _ =>
    first.fields.keys.foldlM (fun ws key =>
      let arrays := slices.filterMap fun slice => slice.fields.lookup key
      if arrays.isEmpty then .ok ws
      else
        match concatArrays arrays with
        | .error e => .error (.generic s!"merge_slices concat error: {e}")
        | .ok merged => .ok (ws.put key merged)) .new

/-! ## The two kinds of systems -/

/-- `System`. Both ways to run change the dataset also when they fail; `runSync` may leave the
work to `run`. -/
structure System (T V : Type) where
  meta_ : SystemMeta T
  config : SystemConfig
  run : Dataset (ResourceMap T V) → Dataset (ResourceMap T V) × SaciResult Unit
  runSync : Dataset (ResourceMap T V) → Dataset (ResourceMap T V) × Option (SaciResult Unit) :=
    fun data => (data, none)

/-- One attempt. -/
def System.attempt (sys : System T V) (data : Dataset (ResourceMap T V)) :
    Dataset (ResourceMap T V) × SaciResult Unit :=
  match sys.runSync data with
  | (data', some result) => (data', result)
  | (data', none) => sys.run data'

/-- `ParallelSystem`. -/
structure ParallelSystem (T V : Type) where
  meta_ : SystemMeta T
  config : SystemConfig
  run : Dataset (ResourceMap T V) → SaciResult (WriteSet T V)
  runSlice : Dataset (ResourceMap T V) → RowRange → Option (SaciResult SliceWriteSet) :=
    fun _ _ => none
  mergeSlices : List SliceWriteSet → SaciResult (WriteSet T V) := mergeSlicesDefault

inductive SystemEntry (T V : Type)
  | sequential (sys : System T V)
  | parallel (sys : ParallelSystem T V)

namespace SystemEntry

def meta_ : SystemEntry T V → SystemMeta T
  | .sequential sys => sys.meta_
  | .parallel sys => sys.meta_

def config : SystemEntry T V → SystemConfig
  | .sequential sys => sys.config
  | .parallel sys => sys.config

def isParallel : SystemEntry T V → Bool
  | .sequential _ => false
  | .parallel _ => true

end SystemEntry
end Saci
