import Saci.Library.BigEndian
import Saci.Core.Error

/-!
# Record batches

What the engine sees of Arrow's columnar data. A batch is kept as its rows, each a cell per field
of the schema: slicing, filtering and concatenating are then list operations on the rows, and a
column is read across them. Schema metadata is kept only where it is looked at, in the IPC
segments.
-/

namespace Saci

inductive TimeUnit
  | second | millisecond | microsecond | nanosecond
  deriving DecidableEq, Repr

/-- The Arrow data types that are not nested. -/
inductive DataType
  | boolean
  | int8 | int16 | int32 | int64
  | uInt8 | uInt16 | uInt32 | uInt64
  | float32 | float64
  | utf8 | binary
  | date32
  | timestamp (unit : TimeUnit) (timezone : Option String)
  | decimal128 (precision scale : Nat)
  deriving DecidableEq, Repr

structure Field where
  name : String
  dataType : DataType
  nullable : Bool
  deriving DecidableEq, Repr

/-- A schema, through its fields. -/
structure Schema where
  fields : List Field
  deriving DecidableEq, Repr

namespace Schema

/-- The position of the first field of that name. -/
def indexOf (schema : Schema) (name : String) : Option Nat :=
  schema.fields.findIdx? fun field => field.name = name

/-- The `Debug` text the error messages print. -/
instance : ToString Schema := ⟨fun schema => toString (repr schema)⟩

end Schema

/-- One value of a column. A float is its bit pattern. -/
inductive Cell
  | null
  | bool (value : Bool)
  | int (value : Int)
  | float (bits : UInt64)
  | text (value : String)
  | bytes (value : Bytes)
  deriving DecidableEq

/-- A column of its own: an `ArrayRef`. -/
structure ArrayRef where
  dataType : DataType
  cells : List Cell
  deriving DecidableEq

structure RecordBatch where
  schema : Schema
  rows : List (List Cell)
  deriving DecidableEq

namespace RecordBatch

def numRows (batch : RecordBatch) : Nat := batch.rows.length

/-- `RecordBatch::new_empty`. -/
def newEmpty (schema : Schema) : RecordBatch := ⟨schema, []⟩

/-- The column at a position. -/
def column (batch : RecordBatch) (idx : Nat) : List Cell :=
  batch.rows.map fun row => row.getD idx .null

/-- `RecordBatch::slice`. -/
def slice (batch : RecordBatch) (offset length : Nat) : RecordBatch :=
  { batch with rows := (batch.rows.drop offset).take length }

/-- `concat_batches`. -/
def concat (schema : Schema) (batches : List RecordBatch) : RecordBatch :=
  ⟨schema, batches.flatMap rows⟩

/-- The rows of a list whose bit in the mask is set. -/
def maskFilter {α : Type} : List Bool → List α → List α
  | true :: mask, row :: rows => row :: maskFilter mask rows
  | false :: mask, _ :: rows => maskFilter mask rows
  | _, _ => []

/-- `filter_record_batch`. A mask longer than the batch is refused. -/
def filter (batch : RecordBatch) (mask : List Bool) : Except String RecordBatch :=
  if batch.numRows < mask.length then
    .error (s!"Invalid argument error: Filter predicate of length {mask.length} is larger than " ++
      s!"target array of length {batch.numRows}")
  else .ok { batch with rows := maskFilter mask batch.rows }

@[simp] theorem numRows_newEmpty (schema : Schema) : (newEmpty schema).numRows = 0 := rfl

@[simp] theorem rows_slice (batch : RecordBatch) (offset length : Nat) :
    (batch.slice offset length).rows = (batch.rows.drop offset).take length := rfl

@[simp] theorem schema_slice (batch : RecordBatch) (offset length : Nat) :
    (batch.slice offset length).schema = batch.schema := rfl

theorem numRows_slice (batch : RecordBatch) (offset length : Nat) :
    (batch.slice offset length).numRows = min length (batch.numRows - offset) := by
  simp [numRows]

@[simp] theorem rows_concat (schema : Schema) (batches : List RecordBatch) :
    (concat schema batches).rows = batches.flatMap rows := rfl

theorem numRows_concat (schema : Schema) (batches : List RecordBatch) :
    (concat schema batches).numRows = (batches.map numRows).sum :=
  List.length_flatMap

end RecordBatch
end Saci
