import Saci.Core.RecordBatch
import Mathlib.Logic.Function.Basic

/-!
# The S3 sink

Batches gathered in memory and uploaded as one object when a threshold fires
(`saci-connector-s3/src/sink.rs` and `key.rs`). The lock over the state is held across an upload, so a call,
or a tick of the age timer, is one step, also where it is dropped at the upload. What the encoder and the
store answer, and the time, are the script of a step; the time format, the joining of paths and the encoding
of batches are taken as given.
-/

namespace Saci.S3

/-! ## Keys -/

/-- What the sink takes from elsewhere. -/
structure Library where
  /-- `%Y%m%dT%H%M%S%.3fZ`, of a time in milliseconds. -/
  timestamp : Int → String
  /-- `Path::from(prefix).join(stem)`. -/
  join : String → String → String
  /-- The object that the format's writer makes of a list of batches. -/
  object : List RecordBatch → Bytes
  /-- How many bytes of them have reached the buffer before the writer finishes. -/
  buffered : List RecordBatch → Nat

/-- `{seq:06}`. -/
def sixDigits (seq : Nat) : String :=
  String.ofList (List.replicate (6 - seq.repr.length) '0') ++ seq.repr

structure Flush where
  maxRows : Nat
  maxBytes : Nat
  maxAgeMs : Nat

structure SinkShared where
  library : Library
  keyPrefix : String
  suffix : String
  flush : Flush

/-- `object_key`. -/
def SinkShared.objectKey (shared : SinkShared) (openedAt : Int) (seq : Nat) : String :=
  shared.library.join shared.keyPrefix
    s!"{shared.library.timestamp openedAt}-{sixDigits seq}{shared.suffix}"

/-! ## The open object -/

structure Pending where
  batches : List RecordBatch
  rows : Nat
  /-- The batches that the encoder holds. -/
  encoder : Option (List RecordBatch)
  openedAt : Int
  startedAt : Int
  attempted : Bool
  deriving DecidableEq

namespace Pending

def new (now : Int) : Pending := ⟨[], 0, none, now, now, false⟩

def push (pending : Pending) (batch : RecordBatch) (now : Int) : Pending :=
  let pending :=
    if pending.batches.isEmpty then
      { pending with startedAt := now, openedAt := if pending.attempted then pending.openedAt else now }
    else pending
  { pending with rows := pending.rows + batch.numRows, batches := pending.batches ++ [batch] }

end Pending

structure SinkState where
  openObject : Option Pending
  seq : Nat
  ownRows : Nat
  finished : Bool
  deriving DecidableEq

namespace SinkState

def new : SinkState := ⟨none, 0, 0, false⟩

/-- `take_back`. -/
def takeBack (state : SinkState) : SinkState :=
  if state.ownRows = 0 then state
  else
    match state.openObject with
    | none => { state with ownRows := 0 }
    | some pending =>
      let pending := { pending with
        batches := pending.batches.dropLast
        rows := pending.rows - state.ownRows
        encoder := none }
      { state with
        openObject := if pending.batches.isEmpty && !pending.attempted then none else some pending
        ownRows := 0 }

/-- `accept`, where the encoder answers so. -/
def accept (state : SinkState) (batch : RecordBatch) (now : Int) (encoded : SaciResult Unit) :
    SinkState × SaciResult Unit :=
  let pending := (state.openObject.getD (.new now)).push batch now
  let state := { state with ownRows := batch.numRows }
  match encoded with
  | .error e => ({ state with openObject := some pending }.takeBack, .error e)
  | .ok () =>
    let encoder :=
      match pending.encoder with
      | some written => written ++ [batch]
      | none => pending.batches
    ({ state with openObject := some { pending with encoder := some encoder } }, .ok ())

end SinkState

/-! ## Uploads -/

/-- What becomes of a put: one that fails, or is dropped, may have landed. -/
inductive Put
  | ok
  | failed (landed : Bool) (error : String)
  | dropped (landed : Bool)

structure Upload where
  /-- What the encoder answers when it finishes. -/
  encoded : SaciResult Unit
  put : Put

/-- The objects of the bucket, by key. -/
abbrev Store := String → Option Bytes

/-- A put replaces the object whole. -/
def Store.put (store : Store) (key : String) (bytes : Bytes) : Store :=
  Function.update store key (some bytes)

/-- `flush_locked`; a call dropped at the put answers nothing. -/
def flushLocked (shared : SinkShared) (state : SinkState) (store : Store) (upload : Upload) :
    SinkState × Store × Option (SaciResult Unit) :=
  match state.openObject with
  | none => (state, store, some (.ok ()))
  | some pending =>
    if pending.rows = 0 then (state, store, some (.ok ()))
    else
      let batches := pending.encoder.getD pending.batches
      let pending := { pending with encoder := none }
      match upload.encoded with
      | .error e => ({ state with openObject := some pending }, store, some (.error e))
      | .ok () =>
        let key := shared.objectKey pending.openedAt state.seq
        let landed := store.put key (shared.library.object batches)
        let tried := { state with openObject := some { pending with attempted := true } }
        match upload.put with
        | .ok => ({ state with openObject := none, seq := state.seq + 1 }, landed, some (.ok ()))
        | .failed didLand e =>
          (tried, if didLand then landed else store, some (.error (.generic s!"S3Sink: put {key}: {e}")))
        | .dropped didLand => (tried, if didLand then landed else store, none)

/-! ## The calls -/

/-- A flush threshold fires. -/
def SinkShared.due (shared : SinkShared) (state : SinkState) : Bool :=
  state.openObject.any fun pending =>
    (0 < shared.flush.maxRows && shared.flush.maxRows ≤ pending.rows) ||
      (0 < shared.flush.maxBytes &&
        pending.encoder.any fun written => shared.flush.maxBytes ≤ shared.library.buffered written)

/-- `write_batch`. -/
def writeBatch (shared : SinkShared) (state : SinkState) (store : Store) (batch : RecordBatch) (now : Int)
    (encoded : SaciResult Unit) (upload : Upload) : SinkState × Store × Option (SaciResult Unit) :=
  if state.finished then
    (state, store, some (.error (.generic "S3Sink: write_batch called after finish")))
  else
    let state := state.takeBack
    if batch.numRows = 0 then (state, store, some (.ok ()))
    else
      match state.accept batch now encoded with
      | (state, .error e) => (state, store, some (.error e))
      | (state, .ok ()) =>
        if shared.due state then
          match flushLocked shared state store upload with
          | (state, store, none) => (state, store, none)
          | (state, store, some (.error e)) => (state.takeBack, store, some (.error e))
          | (state, store, some (.ok ())) => ({ state with ownRows := 0 }, store, some (.ok ()))
        else ({ state with ownRows := 0 }, store, some (.ok ()))

/-- A tick of the age timer. -/
def tick (shared : SinkShared) (state : SinkState) (store : Store) (now : Int) (upload : Upload) :
    SinkState × Store :=
  if state.finished then (state, store)
  else
    let state := state.takeBack
    let due := state.openObject.any fun pending =>
      0 < pending.rows && (shared.flush.maxAgeMs : Int) ≤ now - pending.startedAt
    if due then
      let (state, store, _) := flushLocked shared state store upload
      (state, store)
    else (state, store)

/-- `finish`. -/
def finish (shared : SinkShared) (state : SinkState) (store : Store) (upload : Upload) :
    SinkState × Store × Option (SaciResult Unit) :=
  match flushLocked shared state.takeBack store upload with
  | (state, store, some (.ok ())) => ({ state with finished := true }, store, some (.ok ()))
  | answer => answer

/-! ## Runs -/

inductive Event
  | write (batch : RecordBatch) (now : Int) (encoded : SaciResult Unit) (upload : Upload)
  | tick (now : Int) (upload : Upload)
  | finish (upload : Upload)

structure World where
  state : SinkState
  store : Store
  /-- The batches whose `write_batch` returned `Ok`. -/
  accepted : List RecordBatch
  /-- The batch of a `write_batch` that failed or was dropped, until it is accepted. -/
  outstanding : Option RecordBatch

/-- A new sink, and none of its objects. -/
def World.new : World := ⟨.new, fun _ => none, [], none⟩

def step (shared : SinkShared) (world : World) : Event → World
  | .write batch now encoded upload =>
    match writeBatch shared world.state world.store batch now encoded upload with
    | (state, store, some (.ok ())) => ⟨state, store, world.accepted ++ [batch], none⟩
    | (state, store, _) => ⟨state, store, world.accepted, some batch⟩
  | .tick now upload =>
    let (state, store) := tick shared world.state world.store now upload
    { world with state, store }
  | .finish upload =>
    let (state, store, _) := finish shared world.state world.store upload
    { world with state, store }

def run (shared : SinkShared) : World → List Event → World
  | world, [] => world
  | world, event :: events => run shared (step shared world event) events

end Saci.S3
