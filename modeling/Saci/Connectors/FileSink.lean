import Saci.Core.RecordBatch

/-!
# The file sink

A local file written through a transformer (`saci-connector-file/src/sink.rs`). A batch that fails is cut
out of the file again, by this call or by the next one, unless another writer has appended to the file in
the meantime. The transformer's writer is taken as what it puts in the file; the answers of the file
system, the bytes of a failed encoding and what other writers append are the script of a call.
-/

namespace Saci.File

/-! ## The file -/

/-- A byte of the file, and who put it there. -/
inductive Octet
  | own (byte : UInt8)
  | other (byte : UInt8)
  deriving DecidableEq

namespace Octet

def own? : Octet → Option UInt8
  | .own byte => some byte
  | .other _ => none

def other? : Octet → Option UInt8
  | .own _ => none
  | .other byte => some byte

end Octet

structure World where
  file : List Octet
  /-- What the others have put in the file, its content at the start included. -/
  others : Bytes
  /-- Where the batch that started last started. -/
  start : Nat
  deriving DecidableEq

namespace World

/-- Another writer appends. -/
def append (world : World) (bytes : Bytes) : World :=
  { world with file := world.file ++ bytes.map .other, others := world.others ++ bytes }

/-- The sink's writer appends. -/
def put (world : World) (bytes : Bytes) : World := { world with file := world.file ++ bytes.map .own }

/-- The sink's writer appends, and others between its writes: after so many bytes, these. -/
def weave (world : World) : List (Nat × Bytes) → Bytes → World
  | [], bytes => world.put bytes
  | (n, others) :: rest, bytes => ((world.put (bytes.take n)).append others).weave rest (bytes.drop n)

/-- `set_len`. -/
def setLen (world : World) (len : Nat) : World :=
  { world with file := world.file.take len ++ List.replicate (len - world.file.length) (.own 0) }

end World

/-! ## Transformers -/

/-- A format, as what its writer puts in the file for a batch after those that it has written. -/
structure Transformer where
  format : String
  restartable : Bool
  /-- What comes before the first batch. -/
  preamble : Bytes
  body : List RecordBatch → RecordBatch → Bytes
  /-- What is in the file once a batch is written and the writer flushed. -/
  flushed : List RecordBatch → RecordBatch → Bytes
  /-- What `finish` puts in the file. -/
  finished : List RecordBatch → Bytes

namespace Transformer

/-- A batch as it is encoded, after those that the writer has written. -/
def encoded (transformer : Transformer) (written : List RecordBatch) (batch : RecordBatch) : Bytes :=
  (if written.isEmpty then transformer.preamble else []) ++ transformer.body written batch

/-- What one writer makes of a list of batches. -/
def content (transformer : Transformer) : List RecordBatch → List RecordBatch → Bytes
  | _, [] => []
  | written, batch :: batches =>
    transformer.encoded written batch ++ transformer.content (written ++ [batch]) batches

end Transformer

/-! ## The sink -/

structure Plan where
  target : Nat
  reopen : Bool
  deriving DecidableEq

structure Pending where
  len : Nat
  written : Nat
  plan : Option Plan
  deriving DecidableEq

/-- Why a sink accepts no more batches. -/
inductive Refusal
  | appended
  | cannotResume (format : String)
  | finishFailed (error : SaciError)
  deriving DecidableEq

structure FileSink where
  /-- The batches that the writer has written. -/
  writer : Option (List RecordBatch)
  /-- The handles are there: the sink has not finished. -/
  handles : Bool
  written : Nat
  writerBase : Nat
  committed : Bool
  pending : Option Pending
  refused : Option Refusal
  /-- The path, as `Debug` prints it. -/
  path : String
  deriving DecidableEq

namespace FileSink

/-- The sink that `open_with` answers with. -/
def opened (path : String) : FileSink := ⟨some [], true, 0, 0, false, none, none, path⟩

def refusalText (sink : FileSink) : Refusal → String
  | .appended =>
    s!"another writer appended to {sink.path} while a batch was in flight, so the failed batch was left in " ++
    "place rather than cut away with their bytes; it cannot be retried and this sink takes no more batches"
  | .cannotResume format =>
    s!"the failed batch was taken back out of {sink.path}, but the {format} writer cannot resume in the " ++
    "middle of a file, so it cannot be retried and this sink takes no more batches"
  | .finishFailed error => s!"finish failed ({error}); the output is incomplete"

/-- `handle`. -/
def handle (sink : FileSink) : SaciResult Unit :=
  if sink.handles then .ok () else .error (.generic "FileSink: write_batch called after finish")

/-- `len`, where the file system answers. -/
def len (sink : FileSink) (world : World) (measured : Except String Unit) : SaciResult Nat := do
  sink.handle
  match measured with
  | .error e => .error (.generic s!"FileSink: cannot measure {sink.path}: {e}")
  | .ok () => .ok world.file.length

/-- `sync_data`. -/
def syncData (sink : FileSink) (synced : Except String Unit) : SaciResult Unit := do
  sink.handle
  synced.mapError fun e => SaciError.generic s!"FileSink: sync failed: {e}"

/-- `cut_to`: the error text. -/
def cutTo (sink : FileSink) (cut : Except String Unit) : Except String Unit :=
  if sink.handles then cut else .error "the sink has finished"

/-- `open_writer`. -/
def openWriter (sink : FileSink) (cloned : Except String Unit) (opened : SaciResult Unit) :
    FileSink × SaciResult Unit :=
  match sink.handle with
  | .error e => (sink, .error e)
  | .ok () =>
    match cloned with
    | .error e => (sink, .error (.generic s!"FileSink: cannot clone handle for {sink.path}: {e}"))
    | .ok () => ({ sink with writerBase := sink.written }, opened)

/-! ## Recovery -/

/-- What happens while a failed batch is taken back. -/
structure Recovery where
  /-- What the writer's buffer holds when the writer is dropped. -/
  buffered : Bytes
  /-- What others append before the file is measured. -/
  early : Bytes
  measured : Except String Unit
  /-- What others append between the measure and the cut. -/
  late : Bytes
  cut : Except String Unit
  cloned : Except String Unit
  opened : SaciResult Unit

/-- `plan`. -/
def plan (transformer : Transformer) (sink : FileSink) (pending : Pending) : Plan :=
  if sink.committed then ⟨pending.len, sink.writer.isSome && transformer.restartable⟩
  else ⟨pending.len, pending.written = sink.writerBase⟩

/-- The first steps of `recover`: the plan is made and kept, and then the writer dropped, so that its buffer
reaches the file. -/
def dropWriter (transformer : Transformer) (sink : FileSink) (world : World) (pending : Pending)
    (buffered : Bytes) : Plan × FileSink × World :=
  let plan := pending.plan.getD (plan transformer sink pending)
  let sink := { sink with pending := some { pending with plan := some plan } }
  match sink.writer with
  | none => (plan, sink, world)
  | some _ =>
    (plan, { sink with writer := none, written := sink.written + buffered.length }, world.put buffered)

/-- The rest of `recover`, once the file is as long as the sink's own writes say. -/
def takeBack (transformer : Transformer) (sink : FileSink) (world : World) (plan : Plan)
    (recovery : Recovery) : FileSink × World × SaciResult Unit :=
  let world := world.append recovery.late
  match sink.cutTo recovery.cut with
  | .error e =>
    (sink, world, .error (.generic s!"FileSink: cannot take the failed batch back out of {sink.path}: {e}"))
  | .ok () =>
    let world := world.setLen plan.target
    if plan.reopen then
      match sink.openWriter recovery.cloned recovery.opened with
      | (sink, .error e) => (sink, world, .error e)
      | (sink, .ok ()) => ({ sink with writer := some [], pending := none }, world, .ok ())
    else
      ({ sink with refused := some (.cannotResume transformer.format), pending := none }, world, .ok ())

/-- `recover`. -/
def recover (transformer : Transformer) (sink : FileSink) (world : World) (recovery : Recovery) :
    FileSink × World × SaciResult Unit :=
  match sink.pending with
  | none => (sink, world, .ok ())
  | some pending =>
    let (plan, sink, world) := dropWriter transformer sink world pending recovery.buffered
    let world := world.append recovery.early
    let expected := pending.len + (sink.written - pending.written)
    match sink.len world recovery.measured with
    | .error e => (sink, world, .error e)
    | .ok len =>
      if len ≠ expected then
        ({ sink with refused := some .appended, pending := none }, world, .ok ())
      else takeBack transformer sink world plan recovery

/-- `begin`. -/
def begin (transformer : Transformer) (sink : FileSink) (world : World) (recovery : Recovery) :
    FileSink × World × SaciResult Unit :=
  match sink.handle with
  | .error e => (sink, world, .error e)
  | .ok () =>
    match recover transformer sink world recovery with
    | (sink, world, .error e) => (sink, world, .error e)
    | (sink, world, .ok ()) =>
      match sink.refused with
      | some why => (sink, world, .error (.generic s!"FileSink: {sink.refusalText why}"))
      | none => (sink, world, .ok ())

/-! ## The calls -/

/-- What happens while a batch is encoded. -/
structure Attempt where
  /-- What others append before the start is measured. -/
  early : Bytes
  measured : Except String Unit
  /-- The encoding or the flush fails once these bytes are in the file. -/
  fault : Option (Bytes × SaciError)
  /-- What others append while the batch is written. -/
  others : List (Nat × Bytes)
  synced : Except String Unit

/-- `encode`. -/
def encode (transformer : Transformer) (sink : FileSink) (world : World) (batch : RecordBatch)
    (attempt : Attempt) : FileSink × World × SaciResult Unit :=
  let world := world.append attempt.early
  match sink.len world attempt.measured with
  | .error e => (sink, world, .error e)
  | .ok len =>
    let sink := { sink with pending := some ⟨len, sink.written, none⟩ }
    let world := { world with start := len }
    match sink.writer with
    | none => (sink, world, .error (.generic "FileSink: no writer"))
    | some written =>
      let bytes := (attempt.fault.map Prod.fst).getD (transformer.flushed written batch)
      let sink := { sink with writer := some (written ++ [batch]), written := sink.written + bytes.length }
      let world := world.weave attempt.others bytes
      match attempt.fault with
      | some (_, e) => (sink, world, .error e)
      | none => (sink, world, sink.syncData attempt.synced)

/-- `write_batch`. -/
def writeBatch (transformer : Transformer) (sink : FileSink) (world : World) (batch : RecordBatch)
    (before : Recovery) (attempt : Attempt) (after : Recovery) : FileSink × World × SaciResult Unit :=
  match begin transformer sink world before with
  | (sink, world, .error e) => (sink, world, .error e)
  | (sink, world, .ok ()) =>
    match encode transformer sink world batch attempt with
    | (sink, world, .ok ()) => ({ sink with pending := none, committed := true }, world, .ok ())
    | (sink, world, .error error) =>
      match recover transformer sink world after with
      | (sink, world, .error cut) =>
        (sink, world, .error (.generic s!"{error}; and the rollback failed: {cut}"))
      | (sink, world, .ok ()) => (sink, world, .error error)

/-- What happens while a writer finishes. -/
structure Finish where
  fault : Option (Bytes × SaciError)
  others : List (Nat × Bytes)
  synced : Except String Unit

/-- `finish`. -/
def finish (transformer : Transformer) (sink : FileSink) (world : World) (before : Recovery)
    (script : Finish) : FileSink × World × SaciResult Unit :=
  if !sink.handles then (sink, world, .ok ())
  else
    match begin transformer sink world before with
    | (sink, world, .error e) => (sink, world, .error e)
    | (sink, world, .ok ()) =>
      match sink.writer with
      | none => (sink, world, .ok ())
      | some written =>
        let bytes := (script.fault.map Prod.fst).getD (transformer.finished written)
        let sink := { sink with writer := none, written := sink.written + bytes.length }
        let world := world.weave script.others bytes
        let finished : SaciResult Unit :=
          match script.fault with
          | some (_, e) => .error e
          | none => sink.syncData script.synced
        match finished with
        | .error e => ({ sink with refused := some (.finishFailed e) }, world, .error e)
        | .ok () => ({ sink with handles := false }, world, .ok ())

/-! ## Runs -/

/-- What happens to a sink. -/
inductive Event
  | append (bytes : Bytes)
  | write (batch : RecordBatch) (before : Recovery) (attempt : Attempt) (after : Recovery)
  /-- A `write_batch` call dropped once its bytes landed. -/
  | dropped (batch : RecordBatch) (before : Recovery) (attempt : Attempt)
  | finish (before : Recovery) (script : Finish)

structure State where
  sink : FileSink
  world : World
  /-- The batches whose calls returned `Ok`. -/
  accepted : List RecordBatch
  /-- The errors that calls of `finish` returned. -/
  failedFinishes : List SaciError
  deriving DecidableEq

/-- A sink over a file with this content. -/
def State.opened (path : String) (initial : Bytes) : State :=
  ⟨.opened path, ⟨initial.map .other, initial, 0⟩, [], []⟩

def step (transformer : Transformer) (state : State) : Event → State
  | .append bytes => { state with world := state.world.append bytes }
  | .write batch before attempt after =>
    match writeBatch transformer state.sink state.world batch before attempt after with
    | (sink, world, .ok ()) => { state with sink, world, accepted := state.accepted ++ [batch] }
    | (sink, world, .error _) => { state with sink, world }
  | .dropped batch before attempt =>
    match begin transformer state.sink state.world before with
    | (sink, world, .error _) => { state with sink, world }
    | (sink, world, .ok ()) =>
      let (sink, world, _) := encode transformer sink world batch attempt
      { state with sink, world }
  | .finish before script =>
    match finish transformer state.sink state.world before script with
    | (sink, world, .ok ()) => { state with sink, world }
    | (sink, world, .error e) => { state with sink, world, failedFinishes := state.failedFinishes ++ [e] }

def run (transformer : Transformer) : State → List Event → State
  | state, [] => state
  | state, event :: events => run transformer (step transformer state event) events

end FileSink
end Saci.File
