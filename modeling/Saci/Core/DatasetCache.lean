import Saci.Core.Ipc
import Saci.Core.Write

/-!
# A dataset with its merged-batch cache

`Dataset` with the cache of merged batches that its reads fill and its writes drop
(`saci-core/src/dataset/{chunks,append,lifecycle,write,ipc}.rs`), and what an operation leaves when it fails
half way. Arrow's `concat_batches` merges or refuses: when it refuses is a parameter. Maps are lists here,
so the order in which a map is gone through is that of the list.
-/

namespace Saci

abbrev MergedCache := List (String × RecordBatch)

structure CachedDataset (R : Type) where
  data : Dataset R
  mergedCache : MergedCache

/-- A component's own conversion of values to a batch, a row for each: `to_record_batch`. -/
structure Conversion (V : Type) where
  toRecordBatch : List V → SaciResult RecordBatch
  numRows_eq : ∀ values batch, toRecordBatch values = .ok batch → batch.numRows = values.length

namespace MergedCache

def get (cache : MergedCache) (name : String) : Option RecordBatch :=
  (cache.find? fun merged => merged.1 = name).map Prod.snd

def remove (cache : MergedCache) (name : String) : MergedCache := cache.filter fun merged => merged.1 ≠ name

end MergedCache

section
variable (refuses : Schema → List RecordBatch → Option String)

/-- `concat_batches`. -/
def concatBatches (schema : Schema) (chunks : List RecordBatch) : SaciResult RecordBatch :=
  match refuses schema chunks with
  | some e => .error (.generic s!"arrow concat_batches error: {e}")
  | none => .ok (.concat schema chunks)

/-- `compact_chunks`, which may be refused. -/
def Registered.mergeChunks (entry : Registered) : SaciResult Registered :=
  if entry.chunks.length ≤ 1 then .ok entry
  else do
    let merged ← concatBatches refuses entry.schema entry.chunks
    .ok { entry with chunks := [merged] }

/-- The batch that `get_or_build_merged` builds. -/
def Registered.buildMerged (entry : Registered) : SaciResult RecordBatch :=
  match entry.chunks with
  | [chunk] => .ok chunk
  | chunks => concatBatches refuses entry.schema chunks

/-- The loop of `flush_all_pending`, up to the first component that is refused. -/
def flushEntries : List Registered → MergedCache → List Registered × MergedCache × SaciResult Unit
  | [], cache => ([], cache, .ok ())
  | entry :: entries, cache =>
    if entry.chunks.length ≤ 1 then
      let (rest, cache, result) := flushEntries entries cache
      (entry :: rest, cache, result)
    else
      match concatBatches refuses entry.schema entry.chunks with
      | .error e => (entry :: entries, cache, .error e)
      | .ok merged =>
        let (rest, cache, result) := flushEntries entries (cache.remove entry.name)
        ({ entry with chunks := [merged] } :: rest, cache, result)

namespace CachedDataset
variable {R : Type}

/-- `Dataset::new`. -/
def new (resources : R) : CachedDataset R := ⟨.new resources, []⟩

/-- `flush_all_pending`. -/
def flushAllPending (ds : CachedDataset R) : CachedDataset R × SaciResult Unit :=
  let (components, mergedCache, result) := flushEntries refuses ds.data.components ds.mergedCache
  (⟨{ ds.data with components }, mergedCache⟩, result)

/-- `get_or_build_merged`. A merge that is refused is a panic, an error here. -/
def getOrBuildMerged (ds : CachedDataset R) (entry : Registered) : CachedDataset R × SaciResult RecordBatch :=
  match ds.mergedCache.get entry.name with
  | some batch => (ds, .ok batch)
  | none =>
    match entry.buildMerged refuses with
    | .error e => (ds, .error e)
    | .ok merged => ({ ds with mergedCache := (entry.name, merged) :: ds.mergedCache }, .ok merged)

/-- `batch_for`. -/
def batchFor (ds : CachedDataset R) (name : String) : CachedDataset R × SaciResult (Option RecordBatch) :=
  match ds.data.find name with
  | none => (ds, .ok none)
  | some entry =>
    match ds.getOrBuildMerged refuses entry with
    | (read, .error e) => (read, .error e)
    | (read, .ok batch) => (read, .ok (some batch))

def registerComponent (ds : CachedDataset R) (name : String) (schema : Schema) (version : UInt32) :
    CachedDataset R × SaciResult Unit :=
  match ds.data.registerComponent name schema version with
  | .error e => (ds, .error e)
  | .ok data => ({ ds with data }, .ok ())

/-- What `append` and `append_record_batch` end with: the chunk is pushed, and when there are too many of
them they are merged; then the cached merge is dropped and the rows are counted. -/
def pushBatch (ds : CachedDataset R) (entry : Registered) (batch : RecordBatch) (n : Nat) :
    CachedDataset R × SaciResult (UInt32 × UInt32) :=
  let pushed := { entry with chunks := entry.chunks ++ [batch] }
  let merged := if MERGE_THRESHOLD ≤ pushed.chunks.length then pushed.mergeChunks refuses else .ok pushed
  match merged with
  | .error e => ({ ds with data := ds.data.modify entry.name fun _ => pushed }, .error e)
  | .ok merged =>
    let (data, range) := (ds.data.modify entry.name fun _ => merged).extendTo entry.numRows n
    (⟨data, ds.mergedCache.remove entry.name⟩, .ok range)

def appendRecordBatch (ds : CachedDataset R) (name : String) (batch : RecordBatch) :
    CachedDataset R × SaciResult (UInt32 × UInt32) :=
  match ds.data.find name with
  | none =>
    (ds, .error <| .generic <|
      s!"Dataset: component '{name}' is not registered; call register_raw_component() or " ++
      "register_component() first")
  | some entry =>
    if batch.numRows = 0 then
      let start := UInt32.ofNat ds.data.rowCount
      (ds, .ok (start, start))
    else if batch.schema.fields ≠ entry.schema.fields then
      (ds, .error <| .generic <|
        s!"Dataset::append_record_batch: schema mismatch for '{name}': got {batch.schema}, " ++
        s!"expected {entry.schema}")
    else ds.pushBatch refuses entry.dropSentinel batch batch.numRows

def append {V : Type} (conversion : Conversion V) (ds : CachedDataset R) (name : String) (values : List V) :
    CachedDataset R × SaciResult (UInt32 × UInt32) :=
  match ds.data.find name with
  | none =>
    (ds, .error <| .generic
      s!"Dataset: component '{name}' is not registered; call register_component::<{name}>() first")
  | some entry =>
    if values.isEmpty then
      let start := UInt32.ofNat ds.data.rowCount
      (ds, .ok (start, start))
    else
      match conversion.toRecordBatch values with
      | .error e => (ds, .error e)
      | .ok batch =>
        if batch.schema.fields ≠ entry.schema.fields then
          (ds, .error <| .generic <|
            s!"Dataset: append for '{name}' produced schema mismatch: got {batch.schema}, " ++
            s!"expected {entry.schema}")
        else ds.pushBatch refuses entry batch values.length

def markDead (ds : CachedDataset R) (row : Nat) : CachedDataset R := { ds with data := ds.data.markDead row }

/-- `compact`: the cache is cleared only where every component could be filtered. -/
def compact (ds : CachedDataset R) : CachedDataset R × SaciResult Unit :=
  if ds.data.deadCount = 0 then (ds, .ok ())
  else
    match ds.flushAllPending refuses with
    | (flushed, .error e) => (flushed, .error e)
    | (flushed, .ok ()) =>
      match Dataset.filterEntries flushed.data.alive flushed.data.components with
      | (components, .error e) => ({ flushed with data := { flushed.data with components } }, .error e)
      | (components, .ok ()) =>
        (⟨{ flushed.data with
            components
            alive := List.replicate flushed.data.liveCount true
            rowCount := flushed.data.liveCount
            deadCount := 0 }, []⟩, .ok ())

def clear (ds : CachedDataset R) (resources : R) : CachedDataset R := ⟨ds.data.clear resources, []⟩

def replaceBatch (ds : CachedDataset R) (name : String) (batch : RecordBatch) :
    CachedDataset R × SaciResult Unit :=
  match ds.data.find name with
  | none =>
    (ds, .error (.generic s!"Dataset::replace_batch: component '{name}' is not registered"))
  | some entry =>
    if batch.schema.fields ≠ entry.schema.fields then
      (ds, .error <| .generic <|
        s!"Dataset::replace_batch: schema mismatch for '{name}': got {batch.schema}, expected {entry.schema}")
    else
      match ds.flushAllPending refuses with
      | (flushed, .error e) => (flushed, .error e)
      | (flushed, .ok ()) =>
        let existing := ((flushed.data.find name).map Registered.numRows).getD 0
        if batch.numRows ≠ existing then
          (flushed, .error <| .generic <|
            s!"Dataset::replace_batch: row count mismatch for '{name}': new batch has {batch.numRows} rows, " ++
            s!"existing has {existing} rows")
        else
          (⟨flushed.data.modify name fun entry => { entry with chunks := [batch] },
            flushed.mergedCache.remove name⟩, .ok ())

/-- The loop of `apply_write_set` over the components. -/
def applyUpdates : Dataset.Updates → CachedDataset R → CachedDataset R × SaciResult Unit
  | [], ds => (ds, .ok ())
  | (component, updates) :: groups, ds =>
    match ds.data.find component with
    | none =>
      (ds, .error <| .generic
        s!"Dataset::apply_write_set: component '{component}' is not registered")
    | some entry =>
      match entry.chunks.head? with
      | none => (ds, .error (.generic "component vec empty after flush"))
      | some existing =>
        match Dataset.rebuild component existing updates with
        | .error e => (ds, .error e)
        | .ok batch =>
          applyUpdates groups
            ⟨ds.data.modify component fun entry => { entry with chunks := [batch] },
              ds.mergedCache.remove component⟩

/-- `apply_write_set`. -/
def applyWriteSet {T V : Type} [DecidableEq T] (ds : CachedDataset (ResourceMap T V)) (ws : WriteSet T V) :
    CachedDataset (ResourceMap T V) × SaciResult Unit :=
  match ds.flushAllPending refuses with
  | (flushed, .error e) => (flushed, .error e)
  | (flushed, .ok ()) =>
    match Dataset.byComponent flushed.data.rowCount ws.fields.entries [] with
    | .error e => (flushed, .error e)
    | .ok groups =>
      match applyUpdates groups flushed with
      | (written, .error e) => (written, .error e)
      | (written, .ok ()) =>
        ({ written with
            data := ws.resourceUpdates.foldl (fun data update => update.apply data) written.data }, .ok ())

/-- `read_ipc`. Where it refuses the bytes there is no dataset, and the one before is kept. -/
def readIpc (arrow : ArrowIpc) (resources : R) (ds : CachedDataset R) (bytes : Bytes) :
    CachedDataset R × SaciResult Unit :=
  match Dataset.readIpc arrow resources bytes with
  | .error e => (ds, .error e)
  | .ok data => (⟨data, []⟩, .ok ())

end CachedDataset
end

/-! ## Runs -/

inductive DatasetOp (T V : Type) : Type 1
  | register (name : String) (schema : Schema) (version : UInt32)
  | append {W : Type} (conversion : Conversion W) (name : String) (values : List W)
  | appendRecordBatch (name : String) (batch : RecordBatch)
  | markDead (row : Nat)
  | compact
  | clear
  | replaceBatch (name : String) (batch : RecordBatch)
  | applyWriteSet (ws : WriteSet T V)
  | readIpc (bytes : Bytes)
  | batchFor (name : String)

namespace CachedDataset
variable {T V : Type} [DecidableEq T]

/-- What an operation leaves, also where it fails. -/
def apply (refuses : Schema → List RecordBatch → Option String) (arrow : ArrowIpc)
    (ds : CachedDataset (ResourceMap T V)) : DatasetOp T V → CachedDataset (ResourceMap T V)
  | .register name schema version => (ds.registerComponent name schema version).1
  | .append conversion name values => (append refuses conversion ds name values).1
  | .appendRecordBatch name batch => (ds.appendRecordBatch refuses name batch).1
  | .markDead row => ds.markDead row
  | .compact => (ds.compact refuses).1
  | .clear => ds.clear fun _ => none
  | .replaceBatch name batch => (ds.replaceBatch refuses name batch).1
  | .applyWriteSet ws => (ds.applyWriteSet refuses ws).1
  | .readIpc bytes => (readIpc arrow (fun _ => none) ds bytes).1
  | .batchFor name => (ds.batchFor refuses name).1

end CachedDataset
end Saci
