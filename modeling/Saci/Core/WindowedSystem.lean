import Saci.Core.Windows
import Saci.Core.Dataset
import Mathlib.Data.List.SplitBy
import Mathlib.Data.Finset.Basic

/-!
# Windowed systems

`WindowedSystem::run` (`saci-core/src/windows/`: `system.rs`, `aggregate.rs`, `session.rs`, `sliding.rs`,
`hash.rs`, `accumulator.rs`, and `window_spec.rs`), as a run of a release build of the distributed
engine. The batch and the arrays that run beside it are one list of rows, each with its timestamp, its
window and its key. What Arrow computes is taken as given: the cast of a key column to text, the order of
a lexicographic sort, and the aggregate of a float column. A size of zero, which panics, is refused where
a host loads its configuration.
-/

namespace Saci

/-! ## Window geometry -/

inductive WindowSpec
  | tumbling (sizeMs offsetMs : Int)
  | session (gapMs : Int)
  | sliding (sizeMs slideMs offsetMs : Int)
  deriving DecidableEq

namespace WindowSpec

/-- Floor division of what lies past the offset. -/
def assignTumbling (ts sizeMs offsetMs : Int) : Int :=
  let ts := wrapI64 (ts - offsetMs)
  let q := ts.tdiv sizeMs
  let r := ts.tmod sizeMs
  if r < 0 then wrapI64 (q - 1) else q

/-- `k`: how many sliding windows hold a timestamp. -/
def slides (sizeMs slideMs : Int) : Int := (wrapI64 (sizeMs + slideMs - 1)).tdiv slideMs

/-- The windows that hold a timestamp. -/
def assignSliding (ts sizeMs slideMs offsetMs : Int) : List Int :=
  (List.range (slides sizeMs slideMs).toNat).map fun j =>
    assignTumbling (wrapI64 (ts - wrapI64 (j * slideMs))) slideMs offsetMs

def isSession : WindowSpec → Bool
  | .session _ => true
  | _ => false

/-- The size that the bounds of a window are computed from. -/
def sizeMs : WindowSpec → Int
  | .tumbling sizeMs _ => sizeMs
  | .sliding sizeMs _ _ => sizeMs
  | .session _ => 0

end WindowSpec

/-! ## Window functions -/

inductive ReduceAggregate
  | sum | min | max | count | mean
  deriving DecidableEq

structure WindowContext where
  windowId : Int
  windowStart : Int
  windowEnd : Int
  isLateFiring : Bool
  watermark : Int

inductive WindowFunction
  | reduce (inputField : String) (aggregate : ReduceAggregate)
  | process (process : WindowContext → RecordBatch → SaciResult RecordBatch)

/-- What the system takes from Arrow. -/
structure WindowArrow where
  /-- The cast of a key column to text, a `none` for each null. -/
  castUtf8 : ArrayRef → Except String (List (Option String))
  /-- `lexsort_to_indices` of two integer columns. -/
  lexsort : List (Int × Int) → List Nat
  /-- The aggregate of a float column, as a bit pattern. -/
  reduce : ReduceAggregate → List Cell → UInt64

/-- What every sort of Arrow's answers with: the positions in an order that sorts them. -/
structure WindowArrow.Sorts (arrow : WindowArrow) : Prop where
  perm : ∀ keys, (arrow.lexsort keys).Perm (List.range keys.length)
  sorted : ∀ keys, ((arrow.lexsort keys).filterMap (keys[·]?)).Pairwise fun a b =>
    a.1 < b.1 ∨ a.1 = b.1 ∧ a.2 ≤ b.2

/-- The resources that the system looks at or inserts. -/
structure KeyPartition where
  instanceOrdinal : Nat
  numInstances : Nat
  deriving DecidableEq

structure WindowResults where
  schema : Schema
  batches : List RecordBatch
  lateBatches : List RecordBatch
  /-- The batches of `SideOutput<DroppedLate>`. -/
  sideOutput : List RecordBatch
  deriving DecidableEq

structure WindowResources where
  keyPartition : Option KeyPartition
  results : Option WindowResults
  droppedLate : Option (List RecordBatch)
  deriving DecidableEq

structure WindowedSystem where
  sourceComponent : String
  timeField : String
  keyFields : List String
  spec : WindowSpec
  function : WindowFunction

/-- What a system keeps between runs. -/
structure WindowState where
  watermark : Option WatermarkState
  /-- The pairs of a window and a key that were emitted at least once. -/
  emitted : Finset (Int × Int)
  deriving DecidableEq

/-- A system as it is built, with or without a lateness budget. -/
def WindowState.new (allowedLatenessMs : Option Int) : WindowState :=
  ⟨allowedLatenessMs.map WatermarkState.new, ∅⟩

/-- A row with a timestamp. -/
structure WindowRow where
  cells : List Cell
  timeMs : Int
  deriving DecidableEq

/-- A row in a window. -/
structure PlacedRow where
  row : WindowRow
  windowId : Int
  keyHash : Int
  deriving DecidableEq

def PlacedRow.group (placed : PlacedRow) : Int × Int := (placed.windowId, placed.keyHash)

/-- A group handed to the window function. -/
structure WindowCall where
  windowId : Int
  keyHash : Int
  rows : List WindowRow
  isLateFiring : Bool
  deriving DecidableEq

def WindowCall.group (call : WindowCall) : Int × Int := (call.windowId, call.keyHash)

/-! ## Keys and sessions -/

/-- One byte of 64-bit FNV-1a. -/
def fnv64Step (hash : UInt64) (byte : UInt8) : UInt64 := (hash ^^^ byte.toUInt64) * 1099511628211

/-- `fnv1a`, as an `i64`. -/
def fnv1a (data : Bytes) : Int := wrapI64 (data.foldl fnv64Step 14695981039346656037).toNat

/-- The bytes hashed for one row: its key values, apart by a zero byte, nulls marked. -/
def keyBytes (values : List (Option String)) : Bytes :=
  ((values.map fun value =>
    match value with
    | none => [1]
    | some text => 2 :: text.toUTF8.toList).intersperse [0]).flatten

/-- `compute_key_hash`, of one column at least. -/
def computeKeyHash (arrow : WindowArrow) (cols : List ArrayRef) : SaciResult (List Int) := do
  let texts ← cols.mapM fun col =>
    (arrow.castUtf8 col).mapError fun e => SaciError.generic s!"failed to cast key column to Utf8: {e}"
  return (List.range ((cols.head?.map fun col => col.cells.length).getD 0)).map fun i =>
    fnv1a (keyBytes (texts.map fun text => (text[i]?).join))

/-- The sessions of rows in the order of their keys and timestamps. -/
def sessionIds (gapMs : Int) : Int → List (Int × Int) → List Int
  | _, [] => []
  | id, [_] => [id]
  | id, (key, ts) :: (key', ts') :: rest =>
    id :: sessionIds gapMs (if key' ≠ key ∨ gapMs < wrapI64 (ts' - ts) then id + 1 else id)
      ((key', ts') :: rest)

/-- `assign_sessions`, over the hashes of the keys. -/
def assignSessions (arrow : WindowArrow) (keysAndTimes : List (Int × Int)) (gapMs : Int) : List Int :=
  let sorted := arrow.lexsort keysAndTimes
  let ids := sessionIds gapMs 0 (sorted.filterMap (keysAndTimes[·]?))
  (List.range keysAndTimes.length).map fun i => (ids[sorted.idxOf i]?).getD 0

namespace WindowedSystem
variable (sys : WindowedSystem) (arrow : WindowArrow)

/-! ## Reading the rows -/

/-- The source batch and its timestamps. -/
def source (data : Dataset WindowResources) : SaciResult RecordBatch :=
  match data.batchFor sys.sourceComponent with
  | none => .error (.generic s!"WindowedSystem: component '{sys.sourceComponent}' not registered")
  | some batch => .ok batch

def times (batch : RecordBatch) : SaciResult (List (Option Int)) :=
  match batch.schema.indexOf sys.timeField with
  | none =>
    .error <| .generic <|
      s!"WindowedSystem: time field '{sys.timeField}' not found in component '{sys.sourceComponent}'"
  | some idx =>
    toMsArray ⟨((batch.schema.fields[idx]?).map Field.dataType).getD .int64, batch.column idx⟩

/-- Rows without a timestamp are skipped. -/
def timed : List (List Cell) → List (Option Int) → List WindowRow
  | cells :: rows, some ts :: times => ⟨cells, ts⟩ :: timed rows times
  | _ :: rows, none :: times => timed rows times
  | _, _ => []

/-- `apply_watermark_filter`: the rows kept and dropped against the watermark before the batch, and the
watermark after it. -/
def applyWatermarkFilter (state : WindowState) (rows : List WindowRow) :
    WindowState × List WindowRow × List WindowRow :=
  match state.watermark with
  | none => (state, rows, [])
  | some wm =>
    ({ state with watermark := some (wm.advanceAll (rows.map WindowRow.timeMs)) },
      rows.filter (fun row => !wm.isBeyondLateness row.timeMs),
      rows.filter fun row => wm.isBeyondLateness row.timeMs)

/-! ## Placing the rows -/

def keyColumns (schema : Schema) (rows : List WindowRow) : SaciResult (List ArrayRef) :=
  sys.keyFields.mapM fun field =>
    match schema.indexOf field with
    | none =>
      .error <| .generic
        s!"WindowedSystem: key field '{field}' not found in component '{sys.sourceComponent}'"
    | some idx =>
      .ok ⟨((schema.fields[idx]?).map Field.dataType).getD .int64,
        rows.map fun row => row.cells.getD idx .null⟩

def keyHashes (schema : Schema) (rows : List WindowRow) : SaciResult (List Int) :=
  if sys.keyFields.isEmpty then .ok (rows.map fun _ => 0)
  else do computeKeyHash arrow (← sys.keyColumns schema rows)

def SLIDING_MAX_EXPANDED_ROWS : Nat := 100000000

/-- The rows under their windows and keys, the row of a sliding window once for each. -/
def place (schema : Schema) (rows : List WindowRow) : SaciResult (List PlacedRow) :=
  match sys.spec with
  | .tumbling sizeMs offsetMs => do
    let hashes ← sys.keyHashes arrow schema rows
    return List.zipWith (fun row hash =>
      ⟨row, WindowSpec.assignTumbling row.timeMs sizeMs offsetMs, hash⟩) rows hashes
  | .session gapMs => do
    let hashes ← sys.keyHashes arrow schema rows
    let ids := assignSessions arrow (hashes.zip (rows.map WindowRow.timeMs)) gapMs
    return List.zipWith (fun (row, id) hash => ⟨row, id, hash⟩) (rows.zip ids) hashes
  | .sliding sizeMs slideMs offsetMs =>
    let k := WindowSpec.slides sizeMs slideMs
    if SLIDING_MAX_EXPANDED_ROWS < (k % 2 ^ 64).toNat * rows.length % 2 ^ 64 then
      .error <| .generic <|
        s!"sliding window amplification too high: k={k} × n_rows={rows.length} exceeds the " ++
        s!"{SLIDING_MAX_EXPANDED_ROWS} row limit; reduce size_ms/slide_ms ratio or use fewer input rows"
    else do
      let expanded := rows.flatMap fun row =>
        (WindowSpec.assignSliding row.timeMs sizeMs slideMs offsetMs).map fun id => (row, id)
      let hashes ← sys.keyHashes arrow schema (expanded.map Prod.fst)
      return List.zipWith (fun (row, id) hash => ⟨row, id, hash⟩) expanded hashes

/-- The rows of an instance's share of the keys. -/
def inPartition (partition : Option KeyPartition) (placed : PlacedRow) : Bool :=
  partition.all fun kp =>
    !decide (1 < kp.numInstances) || placed.keyHash % kp.numInstances = kp.instanceOrdinal

/-- The rows in the order of their windows and keys, group by group. -/
def groups (placed : List PlacedRow) : List (List PlacedRow) :=
  ((arrow.lexsort (placed.map PlacedRow.group)).filterMap (placed[·]?)).splitBy fun a b =>
    a.group = b.group

/-! ## Aggregating the groups -/

def sessionFields : List Field :=
  [⟨"session_start_ts", .int64, false⟩, ⟨"session_end_ts", .int64, false⟩]

def resultSchema (valueField : Field) : Schema :=
  ⟨[⟨"window_id", .int64, false⟩, ⟨"key_hash", .int64, false⟩, valueField] ++
    if sys.spec.isSession then sessionFields else []⟩

/-- The schema returned when there are no rows to aggregate. -/
def emptyResultSchema : Schema := sys.resultSchema ⟨"sum_value", .float64, true⟩

/-- `aggregate_output_name`. -/
def aggregateOutputName : ReduceAggregate → String → String
  | .sum, field => s!"sum_{field}"
  | .min, field => s!"min_{field}"
  | .max, field => s!"max_{field}"
  | .count, field => s!"count_{field}"
  | .mean, field => s!"mean_{field}"

/-- `prepare_aggregate_inputs`: the schema of the results, and the column that a built-in aggregate
reads. -/
def prepareAggregateInputs (schema : Schema) : SaciResult (Schema × Nat × DataType) :=
  match sys.function with
  | .reduce inputField aggregate =>
    match schema.indexOf inputField with
    | none =>
      .error <| .generic <|
        s!"WindowedSystem: input field '{inputField}' not found in component '{sys.sourceComponent}'"
    | some idx =>
      let dataType := ((schema.fields[idx]?).map Field.dataType).getD .int64
      .ok (sys.resultSchema ⟨aggregateOutputName aggregate inputField, dataType, true⟩, idx, dataType)
  | .process _ => .ok (⟨[]⟩, 0, .int64)

/-- `aggregate_slice`: the output batch of one group. -/
def aggregateSlice (schema result : Schema) (idx : Nat) (dataType : DataType) (watermark : Int)
    (isLateFiring : Bool) (windowId keyHash : Int) (rows : List WindowRow) : SaciResult RecordBatch :=
  let size := sys.spec.sizeMs
  let windowStart := wrapI64 (windowId * size)
  match sys.function with
  | .reduce _ aggregate =>
    if dataType ≠ .float64 then
      .error <| .generic <|
        s!"WindowedSystem: aggregate requires Float64 column, got {repr dataType}; cast the field to " ++
        "Float64 first"
    else
      let value := arrow.reduce aggregate (rows.map fun row => row.cells.getD idx .null)
      let bounds :=
        if sys.spec.isSession then
          [Cell.int ((rows.map WindowRow.timeMs).min?.getD 0), .int ((rows.map WindowRow.timeMs).max?.getD 0)]
        else []
      .ok ⟨result, [[.int windowId, .int keyHash, .float value] ++ bounds]⟩
  | .process process =>
    process ⟨windowId, windowStart, wrapI64 (windowStart + size), isLateFiring, watermark⟩
      ⟨schema, rows.map WindowRow.cells⟩

/-- What the groups have come to: the pairs emitted, the results on time and late, and the groups handed
to the window function. -/
structure Fired where
  emitted : Finset (Int × Int)
  onTime : List RecordBatch
  late : List RecordBatch
  calls : List WindowCall

/-- `aggregate_groups`: group by group, up to the first that fails. -/
def aggregateGroups (schema result : Schema) (idx : Nat) (dataType : DataType) (watermark : Int) :
    Fired → List (List PlacedRow) → Fired × SaciResult Unit
  | fired, [] => (fired, .ok ())
  | fired, [] :: groups => aggregateGroups schema result idx dataType watermark fired groups
  | fired, (head :: tail) :: groups =>
    let rows := (head :: tail).map PlacedRow.row
    let isLateFiring := decide (head.group ∈ fired.emitted)
    let called := { fired with
      calls := fired.calls ++ [⟨head.windowId, head.keyHash, rows, isLateFiring⟩] }
    match sys.aggregateSlice arrow schema result idx dataType watermark isLateFiring head.windowId
        head.keyHash rows with
    | .error e => (called, .error e)
    | .ok batch =>
      aggregateGroups schema result idx dataType watermark
        { called with
          emitted := insert head.group fired.emitted
          onTime := if isLateFiring then fired.onTime else fired.onTime ++ [batch]
          late := if isLateFiring then fired.late ++ [batch] else fired.late }
        groups

/-! ## The accumulator -/

/-- `WindowAccumulator`. -/
structure Accumulator where
  version : Option UInt32
  sourceComponent : String
  windowId : Int
  keyHash : Int
  count : Int
  sumF64 : Option UInt64
  minF64 : Option UInt64
  maxF64 : Option UInt64
  sessionStartTs : Option Int
  sessionEndTs : Option Int
  finalizedAtWatermark : Option Int
  deriving DecidableEq

def CURRENT_ACCUMULATOR_VERSION : UInt32 := 1

/-- `WindowAccumulator::name`. -/
def ACCUMULATOR : String := "WindowAccumulator"

/-- `WindowAccumulator::schema`. -/
def accumulatorSchema : Schema :=
  ⟨[⟨"version", .uInt32, true⟩, ⟨"source_component", .utf8, false⟩, ⟨"window_id", .int64, false⟩,
    ⟨"key_hash", .int64, false⟩, ⟨"count", .int64, false⟩, ⟨"sum_f64", .float64, true⟩,
    ⟨"min_f64", .float64, true⟩, ⟨"max_f64", .float64, true⟩, ⟨"session_start_ts", .int64, true⟩,
    ⟨"session_end_ts", .int64, true⟩, ⟨"finalized_at_watermark", .int64, true⟩]⟩

namespace Accumulator

def intCell (value : Option Int) : Cell := (value.map Cell.int).getD .null

def floatCell (value : Option UInt64) : Cell := (value.map Cell.float).getD .null

def toRow (acc : Accumulator) : List Cell :=
  [intCell (acc.version.map fun version => version.toNat), .text acc.sourceComponent, .int acc.windowId,
    .int acc.keyHash, .int acc.count, floatCell acc.sumF64, floatCell acc.minF64, floatCell acc.maxF64,
    intCell acc.sessionStartTs, intCell acc.sessionEndTs, intCell acc.finalizedAtWatermark]

end Accumulator

/-- A column of 64-bit integers, where the batch has one of that name. -/
def intColumn (batch : RecordBatch) (name : String) : Option (List Int) :=
  (batch.schema.indexOf name).bind fun idx =>
    if ((batch.schema.fields[idx]?).map Field.dataType) = some .int64 then
      some ((batch.column idx).map fun cell => cell.toInt?.getD 0)
    else none

def textColumn (batch : RecordBatch) (name : String) : Option (List String) :=
  (batch.schema.indexOf name).bind fun idx =>
    if ((batch.schema.fields[idx]?).map Field.dataType) = some .utf8 then
      some ((batch.column idx).map fun
        | .text value => value
        | _ => "")
    else none

/-- The pairs of a window and a key in the rows of a batch. -/
def batchGroups (batch : RecordBatch) : List (Int × Int) :=
  match intColumn batch "window_id", intColumn batch "key_hash" with
  | some windowIds, some keyHashes => windowIds.zip keyHashes
  | _, _ => []

/-- The value at the head of a column of integers, where it is not null. -/
def headInt (batch : RecordBatch) (name : String) : Option Int :=
  (batch.schema.indexOf name).bind fun idx =>
    if ((batch.schema.fields[idx]?).map Field.dataType) = some .int64 then
      ((batch.column idx).head?).bind Cell.toInt?
    else none

/-- The loop over the columns of a result: its count, and the value of its last float column. -/
def countAndSum : List (Field × Option Cell) → Int × Option UInt64 → Int × Option UInt64
  | [], acc => acc
  | (field, cell) :: columns, (count, sum) =>
    if field.name = "window_id" ∨ field.name = "key_hash" ∨ field.name = "session_start_ts" ∨
        field.name = "session_end_ts" then countAndSum columns (count, sum)
    else
      match field.dataType, cell with
      | .float64, some (.float bits) => countAndSum columns (1, some bits)
      | .float64, _ => countAndSum columns (1, sum)
      | .int64, some (.int value) => countAndSum columns (value, sum)
      | _, _ => countAndSum columns (count, sum)

/-- The accumulator row of a result batch. -/
def accumulatorOf (batch : RecordBatch) : Option Accumulator := do
  let row ← batch.rows.head?
  let windowId ← (← intColumn batch "window_id").head?
  let keyHash ← (← intColumn batch "key_hash").head?
  let (count, sum) := countAndSum (batch.schema.fields.zipIdx.map fun (field, i) => (field, row[i]?)) (0, none)
  return ⟨some CURRENT_ACCUMULATOR_VERSION, sys.sourceComponent, windowId, keyHash, count, sum, none, none,
    headInt batch "session_start_ts", headInt batch "session_end_ts", none⟩

/-- The rows of the dataset at which the accumulator holds a group that is about to be written. -/
def superseded (acc : RecordBatch) (newGroups : List (Int × Int)) (rowCount : Nat) : List Nat :=
  match textColumn acc "source_component", intColumn acc "window_id", intColumn acc "key_hash" with
  | some sources, some windowIds, some keyHashes =>
    (List.range (min rowCount acc.numRows)).filter fun i =>
      sources[i]? = some sys.sourceComponent && newGroups.any fun group =>
        windowIds[i]? = some group.1 && keyHashes[i]? = some group.2
  | _, _, _ => []

/-- `flush_accumulator`: the dataset it leaves, also when it fails. -/
def flushAccumulator (data : Dataset WindowResources) (results : List RecordBatch) :
    Dataset WindowResources × SaciResult Unit :=
  if results.isEmpty then (data, .ok ())
  else
    let dead :=
      match data.batchFor ACCUMULATOR with
      | some acc => sys.superseded acc (results.flatMap batchGroups) data.rowCount
      | none => []
    let data := dead.foldl Dataset.markDead data
    let rows := results.filterMap sys.accumulatorOf
    let appended :=
      if rows.isEmpty then .ok data
      else
        (data.append (fun rows => .ok ⟨accumulatorSchema, rows.map Accumulator.toRow⟩) ACCUMULATOR rows).map
          Prod.fst
    match appended with
    | .error e => (data, .error (.generic s!"WindowedSystem: accumulator append error: {e}"))
    | .ok data =>
      match data.compact with
      | (data, .error e) => (data, .error (.generic s!"WindowedSystem: compact error: {e}"))
      | (data, .ok ()) => (data, .ok ())

/-! ## A run -/

/-- What a run leaves, how many rows it says that it skipped for a null timestamp, and the groups that it
handed to the window function. -/
structure Outcome where
  state : WindowState
  data : Dataset WindowResources
  result : SaciResult Unit
  skipped : Nat
  calls : List WindowCall

def insertResults (data : Dataset WindowResources) (results : WindowResults) : Dataset WindowResources :=
  data.insertResource fun r => { r with results := some results }

/-- A run over the rows of an instance's share. -/
def runGroups (data : Dataset WindowResources) (state : WindowState) (schema : Schema) (skipped : Nat)
    (sideOutput : List RecordBatch) (placed : List PlacedRow) : Outcome :=
  match sys.prepareAggregateInputs schema with
  | .error e => ⟨state, data, .error e, skipped, []⟩
  | .ok (result, idx, dataType) =>
    let watermark := (state.watermark.map WatermarkState.currentWatermark).getD I64_MIN
    match sys.aggregateGroups arrow schema result idx dataType watermark ⟨state.emitted, [], [], []⟩
        (groups arrow placed) with
    | (fired, .error e) =>
      ⟨{ state with emitted := fired.emitted }, data, .error e, skipped, fired.calls⟩
    | (fired, .ok ()) =>
      let state := { state with emitted := fired.emitted }
      let results : WindowResults := ⟨result, fired.onTime, fired.late, sideOutput⟩
      if (data.batchFor ACCUMULATOR).isSome then
        match sys.flushAccumulator data fired.onTime with
        | (data, .error e) => ⟨state, data, .error e, skipped, fired.calls⟩
        | (data, .ok ()) => ⟨state, insertResults data results, .ok (), skipped, fired.calls⟩
      else ⟨state, insertResults data results, .ok (), skipped, fired.calls⟩

/-- A run over the rows that have a timestamp. -/
def runTimed (data : Dataset WindowResources) (state : WindowState) (schema : Schema) (skipped : Nat)
    (rows : List WindowRow) : Outcome :=
  let (state, kept, dropped) := applyWatermarkFilter state rows
  let sideOutput := if dropped.isEmpty then [] else [⟨schema, dropped.map WindowRow.cells⟩]
  if kept.isEmpty then
    ⟨state, insertResults data ⟨sys.emptyResultSchema, [], [], sideOutput⟩, .ok (), skipped, []⟩
  else
    match sys.place arrow schema kept with
    | .error e => ⟨state, data, .error e, skipped, []⟩
    | .ok placed =>
      let mine := placed.filter (inPartition data.resources.keyPartition)
      if (data.resources.keyPartition.any fun kp => 1 < kp.numInstances) && mine.isEmpty then
        ⟨state, (insertResults data ⟨sys.emptyResultSchema, [], [], []⟩).insertResource fun r =>
          { r with droppedLate := some [] }, .ok (), skipped, []⟩
      else sys.runGroups arrow data state schema skipped sideOutput mine

/-- `WindowedSystem::run`. -/
def run (data : Dataset WindowResources) (state : WindowState) : Outcome :=
  match sys.source data with
  | .error e => ⟨state, data, .error e, 0, []⟩
  | .ok batch =>
    let empty (skipped : Nat) : Outcome :=
      ⟨state, insertResults data ⟨sys.emptyResultSchema, [], [], []⟩, .ok (), skipped, []⟩
    if batch.numRows = 0 then empty 0
    else
      match sys.times batch with
      | .error e => ⟨state, data, .error e, 0, []⟩
      | .ok times =>
        let skipped := times.countP Option.isNone
        match timed batch.rows times with
        | [] => empty skipped
        | row :: rows => sys.runTimed arrow data state batch.schema skipped (row :: rows)

end WindowedSystem
end Saci
