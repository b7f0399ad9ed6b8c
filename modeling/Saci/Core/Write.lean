import Saci.Core.System

/-!
# Applying a write set

`Dataset::apply_write_set` (`saci-core/src/dataset/write.rs`): the new columns are grouped by
component, and every component they touch gets its one batch rebuilt.
-/

namespace Saci
namespace RecordBatch

/-- The columns of a batch, in the order of the fields. -/
def columns (batch : RecordBatch) : List ArrayRef :=
  batch.schema.fields.zipIdx.map fun (field, idx) => ⟨field.dataType, batch.column idx⟩

/-- `RecordBatch::try_new`. -/
def tryNew (schema : Schema) (columns : List ArrayRef) : Except String RecordBatch :=
  if columns.length ≠ schema.fields.length then
    .error <| s!"Invalid argument error: number of columns({columns.length}) must match number " ++
      s!"of fields({schema.fields.length}) in schema"
  else
    match columns.head? with
    | none =>
      .error "Invalid argument error: must either specify a row count or at least one column"
    | some first =>
      let pairs := columns.zip schema.fields
      match pairs.find? fun (array, field) => ¬ field.nullable ∧ .null ∈ array.cells with
      | some (_, field) =>
        .error <| s!"Invalid argument error: Column '{field.name}' is declared as non-nullable " ++
          "but contains null values"
      | none =>
        if columns.any fun array => array.cells.length ≠ first.cells.length then
          .error "Invalid argument error: all columns in a record batch must have the same length"
        else
          match pairs.findIdx? fun (array, field) => array.dataType ≠ field.dataType with
          | some idx =>
            .error <| s!"Invalid argument error: column types must match schema types at " ++
              s!"column index {idx}"
          | none =>
            .ok ⟨schema, (List.range first.cells.length).map fun row =>
              columns.map fun array => array.cells.getD row .null⟩

end RecordBatch

namespace Dataset

/-- The new columns of each component, the components in the order they come up. -/
abbrev Updates := List (String × List (String × ArrayRef))

/-- A new column joins those of its component. -/
def addUpdate (groups : Updates) (key : FieldAccess) (array : ArrayRef) : Updates :=
  if groups.any fun group => group.1 = key.component then
    groups.map fun group =>
      if group.1 = key.component then (group.1, group.2 ++ [(key.field, array)]) else group
  else groups ++ [(key.component, [(key.field, array)])]

/-- The loop that checks lengths and groups by component. -/
def byComponent (rowCount : Nat) :
    List (Sigma fun _ : FieldAccess => ArrayRef) → Updates → SaciResult Updates
  | [], groups => .ok groups
  | ⟨key, array⟩ :: entries, groups =>
    if array.cells.length ≠ rowCount then
      .error <| .generic <|
        s!"Dataset::apply_write_set: field '{key.component}.{key.field}' has " ++
        s!"{array.cells.length} values, expected {rowCount} (dataset row_count)"
    else byComponent rowCount entries (addUpdate groups key array)

/-- Put the new columns of a component into its columns. -/
def setColumns (component : String) (schema : Schema) :
    List (String × ArrayRef) → List ArrayRef → SaciResult (List ArrayRef)
  | [], columns => .ok columns
  | (field, array) :: updates, columns =>
    match schema.indexOf field with
    | none =>
      .error <| .generic <|
        s!"Dataset::apply_write_set: field '{field}' not found in component '{component}'"
    | some idx => setColumns component schema updates (columns.set idx array)

/-- The batch of a component with its new columns. -/
def rebuild (component : String) (existing : RecordBatch) (updates : List (String × ArrayRef)) :
    SaciResult RecordBatch := do
  let columns ← setColumns component existing.schema updates existing.columns
  match RecordBatch.tryNew existing.schema columns with
  | .error e => .error (.generic s!"apply_write_set rebuild error: {e}")
  | .ok batch => .ok batch

variable {R : Type}

/-- `flush_all_pending`. -/
def flushAllPending (data : Dataset R) : Dataset R :=
  { data with components := data.components.map Registered.compactChunks }

/-- The loop over the components. It keeps what it has rebuilt when a later one fails. A component
without a chunk would be a panic. -/
def applyUpdates : Updates → Dataset R → Dataset R × SaciResult Unit
  | [], data => (data, .ok ())
  | (component, updates) :: groups, data =>
    match data.find component with
    | none =>
      (data, .error <| .generic
        s!"Dataset::apply_write_set: component '{component}' is not registered")
    | some entry =>
      match entry.chunks.head? with
      | none => (data, .error (.generic "component vec empty after flush"))
      | some existing =>
        match rebuild component existing updates with
        | .error e => (data, .error e)
        | .ok batch =>
          applyUpdates groups (data.modify component fun entry => { entry with chunks := [batch] })

variable {T V : Type} [DecidableEq T]

/-- `apply_write_set`. -/
def applyWriteSet (data : Dataset (ResourceMap T V)) (ws : WriteSet T V) :
    Dataset (ResourceMap T V) × SaciResult Unit :=
  let flushed := data.flushAllPending
  match byComponent flushed.rowCount ws.fields.entries [] with
  | .error e => (flushed, .error e)
  | .ok groups =>
    match applyUpdates groups flushed with
    | (written, .error e) => (written, .error e)
    | (written, .ok ()) =>
      (ws.resourceUpdates.foldl (fun data update => update.apply data) written, .ok ())

end Dataset
end Saci
