import Saci.Core.RecordBatch

/-!
# Datasets

The columnar container every processor works on (`saci-core/src/dataset.rs` and its submodules):
one list of record batch chunks per registered component, a liveness bit per row, and resources.
The maps from component names to schema entries, chunks and empty templates are one list here,
with a `Registered` entry per name. The merged-batch cache is left out: reads build the merged
batch each time.
-/

namespace Saci

/-- Chunks a component may accumulate before an append merges them. -/
def MERGE_THRESHOLD : Nat := 16

/-- What a dataset holds under one component name. -/
structure Registered where
  name : String
  version : UInt32
  schema : Schema
  chunks : List RecordBatch
  emptyTemplate : Option RecordBatch
  deriving DecidableEq

namespace Registered

/-- `compact_chunks`: merge into a single chunk; none or one stay as they are. -/
def compactChunks (entry : Registered) : Registered :=
  if entry.chunks.length ≤ 1 then entry
  else { entry with chunks := [.concat entry.schema entry.chunks] }

/-- `get_or_build_merged`. -/
def merged (entry : Registered) : RecordBatch :=
  match entry.chunks with
  | [chunk] => chunk
  | chunks => .concat entry.schema chunks

/-- Push a chunk, and merge once there are too many. -/
def pushChunk (entry : Registered) (chunk : RecordBatch) : Registered :=
  let pushed := { entry with chunks := entry.chunks ++ [chunk] }
  if MERGE_THRESHOLD ≤ pushed.chunks.length then pushed.compactChunks else pushed

/-- Rows over all chunks. -/
def numRows (entry : Registered) : Nat := (entry.chunks.map RecordBatch.numRows).sum

/-- The zero-row sentinel chunk that `clear` leaves is dropped before a raw batch is pushed. -/
def dropSentinel (entry : Registered) : Registered :=
  match entry.chunks with
  | [chunk] => if chunk.numRows = 0 then { entry with chunks := [] } else entry
  | _ => entry

end Registered

structure Dataset (R : Type) where
  components : List Registered
  rowCount : Nat
  alive : List Bool
  liveCount : Nat
  deadCount : Nat
  resources : R
  deriving DecidableEq

namespace Dataset
variable {R : Type}

/-- `Dataset::new`, over the resource map that holds nothing. -/
def new (resources : R) : Dataset R :=
  ⟨[], 0, [], 0, 0, resources⟩

def find (data : Dataset R) (name : String) : Option Registered :=
  data.components.find? fun entry => entry.name = name

/-- `schemas().contains`. -/
def contains (data : Dataset R) (name : String) : Bool := (data.find name).isSome

/-- `schemas().get_version`. -/
def getVersion (data : Dataset R) (name : String) : Option UInt32 :=
  (data.find name).map Registered.version

/-- One byte of the FNV-1a hash. -/
def fnvStep (hash : UInt32) (byte : UInt8) : UInt32 := (hash ^^^ byte.toUInt32) * 16777619

/-- What `fingerprint` hashes of one component: its name, its version as four little-endian bytes,
and its field names. -/
def fingerprintBytes (entry : Registered) : Bytes :=
  entry.name.toUTF8.toList ++ (beBytes 4 entry.version.toNat).reverse ++
    entry.schema.fields.flatMap fun field => field.name.toUTF8.toList

/-- `schemas().fingerprint`. -/
def fingerprint (data : Dataset R) : UInt32 :=
  let entries := data.components.mergeSort fun a b => a.name ≤ b.name
  (entries.flatMap fingerprintBytes).foldl fnvStep 2166136261

/-- Rewrite the entry of a name. -/
def modify (data : Dataset R) (name : String) (f : Registered → Registered) : Dataset R :=
  { data with
    components := data.components.map fun entry => if entry.name = name then f entry else entry }

def batchFor (data : Dataset R) (name : String) : Option RecordBatch :=
  (data.find name).map Registered.merged

/-- Total row count, soft-deleted rows included. -/
def rows (data : Dataset R) : Nat := data.rowCount

/-- A bit is set; out of bounds it is not. -/
def isAlive (data : Dataset R) (row : Nat) : Bool := data.alive.getD row false

def insertResource (data : Dataset R) (insert : R → R) : Dataset R :=
  { data with resources := insert data.resources }

/-! ## Registration -/

/-- An entry for a newly registered component. -/
def freshEntry (name : String) (schema : Schema) (version : UInt32) : Registered :=
  ⟨name, version, schema, [.newEmpty schema], some (.newEmpty schema)⟩

/-- `register_component`. -/
def registerComponent (data : Dataset R) (name : String) (schema : Schema) (version : UInt32) :
    SaciResult (Dataset R) :=
  if data.contains name then .ok data
  else if data.rowCount ≠ 0 then
    .error <| .configuration <|
      s!"Dataset: cannot register new component '{name}' after rows have been appended " ++
      s!"(row_count={data.rowCount}). Register all components before appending data, or call " ++
      "clear() first."
  else .ok { data with components := data.components ++ [freshEntry name schema version] }

/-! ## Appending -/

/-- The row range an append answers and the liveness bits it adds, once `n` rows have been pushed
onto a component that held `oldLen`. -/
def extendTo (data : Dataset R) (oldLen n : Nat) : Dataset R × (UInt32 × UInt32) :=
  let newLen := oldLen + n
  let last := UInt32.ofNat (oldLen + n)
  if data.rowCount < newLen then
    let extension := newLen - data.rowCount
    ({ data with
        alive := data.alive ++ List.replicate extension true
        liveCount := data.liveCount + extension
        rowCount := newLen },
      (UInt32.ofNat data.rowCount, last))
  else (data, (UInt32.ofNat oldLen, last))

/-- `append_record_batch`. -/
def appendRecordBatch (data : Dataset R) (name : String) (batch : RecordBatch) :
    SaciResult (Dataset R × (UInt32 × UInt32)) :=
  match data.find name with
  | none =>
    .error <| .generic <|
      s!"Dataset: component '{name}' is not registered; call register_raw_component() or " ++
      "register_component() first"
  | some entry =>
    if batch.numRows = 0 then
      let start := UInt32.ofNat data.rowCount
      .ok (data, (start, start))
    else if batch.schema.fields ≠ entry.schema.fields then
      .error <| .generic <|
        s!"Dataset::append_record_batch: schema mismatch for '{name}': got {batch.schema}, " ++
        s!"expected {entry.schema}"
    else
      let pushed := data.modify name fun entry => entry.dropSentinel.pushChunk batch
      .ok (pushed.extendTo entry.dropSentinel.numRows batch.numRows)

/-- `append`, over the component's own conversion of values to a batch. -/
def append {V : Type} (toRecordBatch : List V → SaciResult RecordBatch) (data : Dataset R)
    (name : String) (values : List V) : SaciResult (Dataset R × (UInt32 × UInt32)) :=
  match data.find name with
  | none =>
    .error <| .generic
      s!"Dataset: component '{name}' is not registered; call register_component::<{name}>() first"
  | some entry =>
    if values.isEmpty then
      let start := UInt32.ofNat data.rowCount
      .ok (data, (start, start))
    else do
      let batch ← toRecordBatch values
      if batch.schema.fields ≠ entry.schema.fields then
        .error <| .generic <|
          s!"Dataset: append for '{name}' produced schema mismatch: got {batch.schema}, " ++
          s!"expected {entry.schema}"
      else
        let pushed := data.modify name fun entry => entry.pushChunk batch
        .ok (pushed.extendTo entry.numRows values.length)

/-! ## Liveness -/

/-- `mark_dead`. -/
def markDead (data : Dataset R) (row : Nat) : Dataset R :=
  if data.isAlive row then
    { data with
      alive := data.alive.set row false
      deadCount := data.deadCount + 1
      liveCount := data.liveCount - 1 }
  else data

/-- The filter loop of `compact`: the entries in turn, up to the first that fails. -/
def filterEntries (mask : List Bool) : List Registered → List Registered × SaciResult Unit
  | [] => ([], .ok ())
  | entry :: entries =>
    match entry.merged.filter mask with
    | .error e => (entry :: entries, .error (.generic s!"compact filter error: {e}"))
    | .ok batch =>
      let (rest, result) := filterEntries mask entries
      ({ entry with chunks := [batch] } :: rest, result)

/-- `compact`: the dataset it leaves, also when it fails. -/
def compact (data : Dataset R) : Dataset R × SaciResult Unit :=
  if data.deadCount = 0 then (data, .ok ())
  else
    let flushed := data.components.map Registered.compactChunks
    match filterEntries data.alive flushed with
    | (components, .error e) => ({ data with components }, .error e)
    | (components, .ok ()) =>
      ({ data with
          components
          alive := List.replicate data.liveCount true
          rowCount := data.liveCount
          deadCount := 0 },
        .ok ())

/-- `clear`, which also empties the resource map. -/
def clear (data : Dataset R) (resources : R) : Dataset R where
  components := data.components.map fun entry =>
    match entry.emptyTemplate with
    | some template => { entry with chunks := [template] }
    | none =>
      match entry.chunks.head? with
      | none => entry
      | some chunk => { entry with chunks := [.newEmpty chunk.schema] }
  rowCount := 0
  alive := []
  liveCount := 0
  deadCount := 0
  resources := resources

/-! ## Forwarding -/

end Dataset

/-! ## What a dataset shows -/

/-- What a dataset is besides its rows and resources: the registered components, the row count and
the liveness. -/
structure Shape where
  components : List (String × UInt32 × Schema × Option RecordBatch)
  rowCount : Nat
  alive : List Bool
  liveCount : Nat
  deadCount : Nat

namespace Dataset
variable {R : Type} {data data' : Dataset R} {name : String}

/-- What the shape has of a component. -/
def shapeOf (entry : Registered) : String × UInt32 × Schema × Option RecordBatch :=
  (entry.name, entry.version, entry.schema, entry.emptyTemplate)

def shape (data : Dataset R) : Shape where
  components := data.components.map shapeOf
  rowCount := data.rowCount
  alive := data.alive
  liveCount := data.liveCount
  deadCount := data.deadCount

/-- The column of a component at the position of a field. -/
def columnAt (data : Dataset R) (name : String) (idx : Nat) : Option (List Cell) :=
  (data.find name).bind fun entry =>
    if idx < entry.schema.fields.length then some (entry.merged.column idx) else none

/-- The entry of the name that is rewritten, and those of the other names. -/
theorem find_modify_of {f : Registered → Registered}
    (hf : ∀ entry, entry.name = name → (f entry).name = name) (name' : String) :
    (data.modify name f).find name' =
      if name' = name then (data.find name').map f else data.find name' := by
  rw [find, find, modify]
  induction data.components with
  | nil => simp
  | cons entry entries ih =>
    rw [List.map_cons, List.find?_cons, List.find?_cons, ih]
    by_cases hentry : entry.name = name
    · rw [if_pos hentry, hf entry hentry, hentry]
      by_cases hname : name = name'
      · rw [hname, decide_eq_true rfl]
        simp
      · rw [decide_eq_false hname]
    · rw [if_neg hentry]
      by_cases hname : entry.name = name'
      · rw [hname, decide_eq_true rfl]
        simp [← hname, hentry]
      · rw [decide_eq_false hname]

theorem find_modify {f : Registered → Registered} (hf : ∀ entry, (f entry).name = entry.name)
    (name name' : String) :
    (data.modify name f).find name' =
      if name' = name then (data.find name').map f else data.find name' :=
  find_modify_of (fun entry hentry => (hf entry).trans hentry) name'

theorem shape_modify {f : Registered → Registered} (hf : ∀ entry, shapeOf (f entry) = shapeOf entry)
    (name : String) : (data.modify name f).shape = data.shape := by
  have hmap : (data.components.map fun entry => if entry.name = name then f entry else entry).map
      shapeOf = data.components.map shapeOf := by
    rw [List.map_map]
    refine List.map_congr_left fun entry _ => ?_
    rw [Function.comp_apply]
    split_ifs
    · exact hf entry
    · rfl
  rw [shape, modify]
  dsimp only
  rw [hmap]
  rfl

/-- Datasets of one shape have the same components registered. -/
theorem find_of_shape_eq (h : data'.shape = data.shape) (name : String) :
    (data'.find name).map shapeOf = (data.find name).map shapeOf := by
  have hmap : data'.components.map shapeOf = data.components.map shapeOf :=
    congrArg Shape.components h
  have hfind (components : List Registered) :
      (components.find? fun entry => entry.name = name).map shapeOf =
        (components.map shapeOf).find? fun entry => entry.1 = name := by
    rw [List.find?_map]
    rfl
  rw [find, find, hfind, hfind, hmap]

end Dataset
end Saci
