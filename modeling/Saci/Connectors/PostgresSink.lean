import Saci.Core.RecordBatch
import Saci.Library.Run

/-!
# The PostgreSQL sink

`PostgresSink` (`saci-connector-postgresql/src/sink.rs`): the buffer, the flush in one transaction,
and what a failed or a dropped call leaves behind. One step goes from one wait of a call to the next,
so a call can fail or be dropped at every statement of its flush. Whether a transaction whose `COMMIT`
was not acknowledged committed is for the server to say. The SQL texts and the value encoding are
left out.
-/

namespace Saci.Postgres

inductive WriteMode
  | append
  | upsert
  | ignoreConflicts
  deriving DecidableEq

/-- How one declared column is written: straight in, or through a cast of its text. -/
structure ColumnPlan where
  copyType : String
  stageType : String
  cast : Option String
  deriving DecidableEq

structure SinkConfig where
  table : String
  schema : Schema
  writeMode : WriteMode
  chunkRows : Nat
  flushRows : Nat
  truncateBeforeFirstWrite : Bool

/-- The calls that flush. -/
inductive Call
  | write (batch : RecordBatch)
  | finish
  deriving DecidableEq

/-- What `flush_in_transaction` does in turn. -/
inductive Statement
  | begin
  | truncate
  | createStage
  /-- `resolve_columns` of the next batch, which waits for nothing. -/
  | resolveColumns
  | copyIn
  | writeRow
  | finishCopy
  | merge
  | commit
  deriving DecidableEq

/-- Where a call waits. -/
inductive Phase
  | idle
  | connecting (call : Call)
  | resolving (call : Call)
  /-- In the transaction, at the first of the statements that are left. -/
  | writing (call : Call) (batches : List RecordBatch) (truncate : Bool) (rest : List Statement)

structure State where
  buffer : List RecordBatch
  bufferedRows : Nat
  /-- Rows of the batch the running `write_batch` pushed, set only while its flush runs. -/
  ownRows : Nat
  /-- Set once a flush committed. -/
  firstWriteDone : Bool
  connected : Bool
  plans : List ColumnPlan
  phase : Phase

/-- A server error: a cardinality violation of the merge, or another. -/
structure PgError where
  cardinality : Bool
  detail : String

/-- How a statement ends. Only an error of the `COMMIT` leaves open whether it committed. -/
inductive Answer
  | ok
  | failed (error : PgError) (committed : Bool)
  /-- The encoder refuses a batch or a row. -/
  | refused (error : SaciError)

/-- What a step is given. -/
inductive Input
  /-- `write_batch` and `finish`, and whether the connection is still open. -/
  | write (batch : RecordBatch) (alive : Bool)
  | finish (alive : Bool)
  | connected (result : SaciResult Unit)
  | resolved (result : SaciResult (List ColumnPlan))
  | answered (answer : Answer)
  /-- The call is dropped; at the `COMMIT`, whether that committed. -/
  | dropped (committed : Bool)

/-- How the transaction of a flush ends. -/
inductive Ending
  /-- The `COMMIT` was acknowledged. -/
  | acknowledged
  | failed (committed : Bool)
  | dropped (committed : Bool)
  deriving DecidableEq

inductive Event
  | called (call : Call)
  /-- A flush opened a transaction for these batches, with a `TRUNCATE` or without. -/
  | flushed (batches : List RecordBatch) (truncate : Bool) (ending : Ending)
  | returned (call : Call) (result : SaciResult Unit)
  | dropped (call : Call)

section
variable (cfg : SinkConfig)

/-- `check_schema`. -/
def checkSchema (batch : RecordBatch) : SaciResult Unit :=
  if cfg.schema.fields.length ≠ batch.schema.fields.length then
    .error <| .generic <|
      s!"PostgresSink: batch has {batch.schema.fields.length} column(s) but '{cfg.table}' declares " ++
      s!"{cfg.schema.fields.length}"
  else
    (cfg.schema.fields.zip batch.schema.fields).forM fun (want, got) =>
      if want.name ≠ got.name then
        .error <| .generic <|
          s!"PostgresSink: batch column '{got.name}' does not match the declared column " ++
          s!"'{want.name}'; schema_fields order is the batch order"
      else if want.dataType ≠ got.dataType then
        .error <| .generic <|
          s!"PostgresSink: batch column '{got.name}' is {repr got.dataType} but '{cfg.table}' " ++
          s!"declares {repr want.dataType}"
      else .ok ()

/-! ## The statements of a flush -/

/-- `needs_stage`. -/
def needsStage (plans : List ColumnPlan) : Bool :=
  cfg.writeMode ≠ .append || plans.any fun plan => plan.cast.isSome

/-- The loop over the rows of a batch, where a copy is open and holds so many rows: its statements,
and what it leaves open. -/
def copyRows (chunkRows : Nat) : Nat → Bool → Nat → List Statement × Bool × Nat
  | 0, isOpen, rowsInCopy => ([], isOpen, rowsInCopy)
  | rows + 1, isOpen, rowsInCopy =>
    let row := (if isOpen then [] else [.copyIn]) ++ [.writeRow]
    if chunkRows ≤ rowsInCopy + 1 then
      let (statements, left) := copyRows chunkRows rows false 0
      (row ++ .finishCopy :: statements, left)
    else
      let (statements, left) := copyRows chunkRows rows true (rowsInCopy + 1)
      (row ++ statements, left)

/-- The loop over the batches. -/
def copyBatches (chunkRows : Nat) : List RecordBatch → Bool → Nat → List Statement
  | [], isOpen, _ => if isOpen then [.finishCopy] else []
  | batch :: batches, isOpen, rowsInCopy =>
    let (statements, isOpen, rowsInCopy) := copyRows chunkRows batch.numRows isOpen rowsInCopy
    .resolveColumns :: (statements ++ copyBatches chunkRows batches isOpen rowsInCopy)

/-- `flush_in_transaction`. -/
def flushInTransaction (batches : List RecordBatch) (staged truncate : Bool) : List Statement :=
  .begin :: ((if truncate then [.truncate] else []) ++ (if staged then [.createStage] else []) ++
    copyBatches cfg.chunkRows batches false 0 ++ (if staged then [.merge] else []) ++ [.commit])

/-- The error of a statement, in the words of its `map_err`. -/
def statementError (statement : Statement) (e : PgError) : SaciError :=
  match statement with
  | .begin => .generic s!"PostgresSink: cannot open a transaction for '{cfg.table}': {e.detail}"
  | .truncate => .generic s!"PostgresSink: cannot truncate '{cfg.table}': {e.detail}"
  | .createStage =>
    .generic s!"PostgresSink: cannot create the staging table for '{cfg.table}': {e.detail}"
  | .merge =>
    if e.cardinality then
      .generic <|
        s!"PostgresSink: one batch repeats a conflict key for '{cfg.table}', so ON CONFLICT DO " ++
        s!"UPDATE cannot resolve it; set dedupe_order_column to pick the winning row ({e.detail})"
    else .generic s!"PostgresSink: cannot merge staged rows into '{cfg.table}': {e.detail}"
  | .commit => .generic s!"PostgresSink: cannot commit the write to '{cfg.table}': {e.detail}"
  | _ => .generic s!"PostgresSink: COPY into '{cfg.table}' failed: {e.detail}"

/-! ## Calls -/

/-- `recover`. -/
def recover (s : State) : State :=
  if 0 < s.ownRows then
    { s with
      buffer := s.buffer.dropLast
      bufferedRows := s.bufferedRows - s.ownRows
      ownRows := 0 }
  else s

/-- What a call does with the result of its flush. A `write_batch` that failed takes its own batch back
out. -/
def endCall (s : State) (call : Call) (result : SaciResult Unit) : State × List Event :=
  let s := { s with phase := .idle }
  match call, result with
  | .write batch, .error _ =>
    ({ s with
        buffer := s.buffer.dropLast
        bufferedRows := s.bufferedRows - batch.numRows
        ownRows := 0 },
      [.returned call result])
  | .write _, .ok () => ({ s with ownRows := 0 }, [.returned call result])
  | .finish, _ => (s, [.returned call result])

/-- The transaction of a flush begins. -/
def openTransaction (s : State) (call : Call) : State :=
  let truncate := cfg.truncateBeforeFirstWrite && !s.firstWriteDone
  { s with
    phase := .writing call s.buffer truncate
      (flushInTransaction cfg s.buffer (needsStage cfg s.plans) truncate) }

/-- `flush` up to its first wait. -/
def flush (s : State) (call : Call) (alive : Bool) : State × List Event :=
  if s.buffer.isEmpty then endCall s call (.ok ())
  else if s.connected && alive then
    if s.plans.isEmpty then ({ s with phase := .resolving call }, [])
    else (openTransaction cfg s call, [])
  else
    ({ s with
        plans := if s.connected then [] else s.plans
        phase := .connecting call },
      [])

/-- `write_batch` up to its first wait. -/
def writeBatch (s : State) (batch : RecordBatch) (alive : Bool) : State × List Event :=
  let s := recover s
  match checkSchema cfg batch with
  | .error e => (s, [.returned (.write batch) (.error e)])
  | .ok () =>
    if batch.numRows = 0 then (s, [.returned (.write batch) (.ok ())])
    else
      let s := { s with
        buffer := s.buffer ++ [batch]
        bufferedRows := s.bufferedRows + batch.numRows }
      if cfg.flushRows = 0 || cfg.flushRows ≤ s.bufferedRows then
        flush cfg { s with ownRows := batch.numRows } (.write batch) alive
      else (s, [.returned (.write batch) (.ok ())])

/-- The answer to the statement that is waited for. -/
def answered (s : State) (call : Call) (batches : List RecordBatch) (truncate : Bool)
    (statement : Statement) (rest : List Statement) (answer : Answer) :
    Except Unit (State × List Event) :=
  match answer with
  | .ok =>
    if rest.isEmpty then
      let (s, events) := endCall { s with buffer := [], bufferedRows := 0, firstWriteDone := true } call
        (.ok ())
      .ok (s, .flushed batches truncate .acknowledged :: events)
    else .ok ({ s with phase := .writing call batches truncate rest }, [])
  | .failed e committed =>
    if statement = .resolveColumns then .error ()
    else
      let (s, events) := endCall s call (.error (statementError cfg statement e))
      .ok (s, .flushed batches truncate (.failed (committed && statement = .commit)) :: events)
  | .refused e =>
    if statement = .resolveColumns ∨ statement = .writeRow then
      let (s, events) := endCall s call (.error e)
      .ok (s, .flushed batches truncate (.failed false) :: events)
    else .error ()

/-- `PostgresSink`, from one wait to the next. -/
def step (s : State) (input : Input) : Except Unit (State × List Event) :=
  match s.phase, input with
  | .idle, .write batch alive =>
    let (s, events) := writeBatch cfg s batch alive
    .ok (s, .called (.write batch) :: events)
  | .idle, .finish alive =>
    let (s, events) := flush cfg (recover s) .finish alive
    .ok (s, .called .finish :: events)
  | .connecting call, .connected (.error e) => .ok (endCall s call (.error e))
  | .connecting call, .connected (.ok ()) =>
    if s.plans.isEmpty then .ok ({ s with connected := true, phase := .resolving call }, [])
    else .ok (openTransaction cfg { s with connected := true } call, [])
  | .resolving call, .resolved (.error e) => .ok (endCall s call (.error e))
  | .resolving call, .resolved (.ok plans) => .ok (openTransaction cfg { s with plans } call, [])
  | .writing call batches truncate (statement :: rest), .answered answer =>
    answered cfg s call batches truncate statement rest answer
  | .connecting call, .dropped _ => .ok ({ s with phase := .idle }, [.dropped call])
  | .resolving call, .dropped _ => .ok ({ s with phase := .idle }, [.dropped call])
  | .writing call batches truncate (statement :: _), .dropped committed =>
    if statement = .resolveColumns then .error ()
    else
      .ok ({ s with phase := .idle },
        [.flushed batches truncate (.dropped (committed && statement = .commit)), .dropped call])
  | _, _ => .error ()

def start : State where
  buffer := []
  bufferedRows := 0
  ownRows := 0
  firstWriteDone := false
  connected := false
  plans := []
  phase := .idle

end
end Saci.Postgres
