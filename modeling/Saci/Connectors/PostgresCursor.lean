import Saci.Core.RecordBatch
import Saci.Library.Run
import Mathlib.Data.List.Sort
import Mathlib.Order.Basic

/-!
# The cursor reader

`CursorReader` (`saci-connector-postgresql/src/source/cursor.rs`) over an append-only table, with its
offset row (`offsets.rs`). A call of `next_batch` is split where it waits for the server, so that
writers commit between any two of its statements. A cursor value stands for the text that the server
renders it as and parses again; preparing a statement, metrics and the SQL texts are left out.
-/

namespace Saci.Postgres.Cursor

/-- A row of the table: its cursor and tiebreak columns, neither of which is NULL, and the others. -/
structure TableRow (C T V : Type) where
  cursor : C
  tiebreak : T
  value : V
  deriving DecidableEq

/-- A committed cursor position. -/
structure Offset (C T : Type) where
  cursor : C
  tiebreak : Option T
  deriving DecidableEq

/-- `initial`. -/
inductive Initial (C : Type)
  | beginning
  | now
  | literal (cursor : C)

/-- What happens to outbox rows the source has acknowledged. -/
inductive Retention
  | keep
  | deleteAcked
  deriving DecidableEq

structure Config (C T V : Type) where
  table : String
  offsetTable : String
  /-- Whether `tiebreak_column` is set. -/
  tiebreakColumn : Bool
  /-- The rows for which `where_clause` is true. -/
  whereClause : Option (TableRow C T V → Bool)
  initial : Initial C
  retention : Retention
  batchRows : Nat
  maxBatchesPerCycle : Nat
  /-- The channel of `notify`. -/
  notify : Option String
  /-- The column builders of `build_batch`. -/
  build : List (TableRow C T V) → SaciResult RecordBatch

/-- Which cursor predicate a statement carries. -/
inductive Shape
  | all
  | cursor
  | pair
  deriving DecidableEq

section
variable {C T V : Type} [LinearOrder C] [LinearOrder T] (cfg : Config C T V)

/-! ## The statements -/

/-- `shape`. -/
def shape : Option (Offset C T) → Shape
  | none => .all
  | some offset => if cfg.tiebreakColumn ∧ offset.tiebreak.isSome then .pair else .cursor

/-- The predicate of `where_clause`. -/
def reads (row : TableRow C T V) : Bool :=
  match cfg.whereClause with
  | none => true
  | some predicate => predicate row

/-- The cursor predicate of `select_sql`. -/
def beyond (offset : Option (Offset C T)) (row : TableRow C T V) : Bool :=
  match shape cfg offset, offset with
  | .pair, some ⟨cursor, some tiebreak⟩ =>
    cursor < row.cursor ∨ row.cursor = cursor ∧ tiebreak < row.tiebreak
  | .cursor, some ⟨cursor, _⟩ => cursor < row.cursor
  | _, _ => true

/-- `ORDER BY` of the read. -/
def ordered (a b : TableRow C T V) : Bool :=
  if cfg.tiebreakColumn then a.cursor < b.cursor ∨ a.cursor = b.cursor ∧ a.tiebreak ≤ b.tiebreak
  else a.cursor ≤ b.cursor

/-- The rows that a read selects, in its order. -/
def rowsAfter (offset : Option (Offset C T)) (table : List (TableRow C T V)) : List (TableRow C T V) :=
  (table.filter fun row => beyond cfg offset row && reads cfg row).insertionSort
    fun a b => ordered cfg a b = true

/-- `select_sql` over the rows the table holds. -/
def select (offset : Option (Offset C T)) (limit : Nat) (table : List (TableRow C T V)) :
    List (TableRow C T V) :=
  (rowsAfter cfg offset table).take limit

/-- The offset at a row, as its two `::text` columns give it. -/
def offsetOf (row : TableRow C T V) : Offset C T :=
  ⟨row.cursor, if cfg.tiebreakColumn then some row.tiebreak else none⟩

/-- The last row of the table, which `initial = "now"` resolves to. -/
def maximum (table : List (TableRow C T V)) : Option (Offset C T) :=
  ((table.filter (reads cfg)).insertionSort fun a b => ordered cfg b a = true).head?.map (offsetOf cfg)

/-- The predicate of `delete_statement`. -/
def atOrBefore (offset : Offset C T) (row : TableRow C T V) : Bool :=
  match cfg.tiebreakColumn, offset.tiebreak with
  | true, some tiebreak =>
    row.cursor < offset.cursor ∨ row.cursor = offset.cursor ∧ row.tiebreak ≤ tiebreak
  | _, _ => row.cursor ≤ offset.cursor

/-! ## The reader -/

/-- What a call of `next_batch` waits for. -/
inductive Phase
  /-- No call is under way. -/
  | idle
  | connecting
  /-- `OffsetStore::ensure`. -/
  | creating
  /-- `OffsetStore::load`. -/
  | loading
  /-- The query of `resolve_initial`. -/
  | resolving
  /-- `OffsetStore::store`. -/
  | storing
  | deleting
  | querying
  /-- `wait_for_notification`. -/
  | waiting
  deriving DecidableEq

structure Reader (C T : Type) where
  /-- Whether there is a connection, and whether it is open. -/
  connection : Option Bool
  batchRows : Nat
  /-- Advances within a cycle as batches are emitted. -/
  offset : Option (Offset C T)
  /-- The position that may be persisted. -/
  committed : Option (Offset C T)
  loaded : Bool
  cycleStart : Bool
  batchesThisCycle : Nat
  phase : Phase
  deriving DecidableEq

/-- What a call tells, and what it resolves `initial` to. -/
inductive Event (C T V : Type)
  | resolved (offset : Option (Offset C T))
  | returned (rows : List (TableRow C T V)) (batch : RecordBatch)
  /-- `Ok(None)`: the end of a drain cycle. -/
  | ended
  | failed (error : SaciError)

/-- `CursorReader::new`. -/
def Reader.new (batchRows : Nat) : Reader C T := ⟨none, batchRows, none, none, false, false, 0, .idle⟩

namespace Reader
variable (reader : Reader C T)

/-- The end of a drain cycle. -/
def finish : Reader C T × List (Event C T V) := ({ reader with cycleStart := true, phase := .idle }, [.ended])

/-- The cap, before the first query of a call. -/
def checkCap : Reader C T × List (Event C T V) :=
  if 0 < cfg.maxBatchesPerCycle ∧ cfg.maxBatchesPerCycle ≤ reader.batchesThisCycle then reader.finish
  else ({ reader with phase := .querying }, [])

/-- The call once `commit` has returned. -/
def beginCycle : Reader C T × List (Event C T V) :=
  checkCap cfg { reader with cycleStart := false, batchesThisCycle := 0 }

/-- The call once it has a session. -/
def resume : Reader C T × List (Event C T V) :=
  if reader.cycleStart then
    match reader.committed with
    | none => reader.beginCycle cfg
    | some _ => ({ reader with phase := .storing }, [])
  else reader.checkCap cfg

/-- `next_batch`, up to its first wait. -/
def call : Reader C T × List (Event C T V) :=
  match reader.connection with
  | some true => reader.resume cfg
  | some false => ({ reader with loaded := false, phase := .connecting }, [])
  | none => ({ reader with phase := .connecting }, [])

/-- The session once it has its offset. -/
def loadedAt (offset : Option (Offset C T)) : Reader C T × List (Event C T V) :=
  resume cfg { reader with offset, committed := offset, loaded := true }

/-- `resolve_initial`, up to its query. -/
def resolveInitial : Reader C T × List (Event C T V) :=
  match cfg.initial with
  | .beginning =>
    let (reader, events) := reader.loadedAt cfg none
    (reader, .resolved none :: events)
  | .literal cursor =>
    let (reader, events) := reader.loadedAt cfg (some ⟨cursor, none⟩)
    (reader, .resolved (some ⟨cursor, none⟩) :: events)
  | .now => ({ reader with offset := none, phase := .resolving }, [])

/-- `build_batch`, of rows that are not empty. -/
def emit (rows : List (TableRow C T V)) (last : TableRow C T V) : Reader C T × List (Event C T V) :=
  match cfg.build rows with
  | .error e => ({ reader with phase := .idle }, [.failed e])
  | .ok batch =>
    ({ reader with
      offset := some (offsetOf cfg last)
      committed := some (offsetOf cfg last)
      batchesThisCycle := reader.batchesThisCycle + 1
      phase := .idle }, [.returned rows batch])

/-- The call goes on once the server has done what it waits for: over the offset the server stores, and
the rows its table holds. -/
def proceed (stored : Option (Offset C T)) (table : List (TableRow C T V)) :
    Reader C T × List (Event C T V) :=
  match reader.phase with
  | .idle => (reader, [])
  | .connecting => ({ reader with connection := some true, phase := .creating }, [])
  | .creating => if reader.loaded then reader.resume cfg else ({ reader with phase := .loading }, [])
  | .loading =>
    match stored with
    | some offset => reader.loadedAt cfg (some offset)
    | none => reader.resolveInitial cfg
  | .resolving =>
    let (reader, events) := reader.loadedAt cfg (maximum cfg table)
    (reader, .resolved (maximum cfg table) :: events)
  | .storing =>
    if cfg.retention = .deleteAcked then ({ reader with phase := .deleting }, [])
    else reader.beginCycle cfg
  | .deleting => reader.beginCycle cfg
  | .querying =>
    let rows := select cfg reader.offset reader.batchRows table
    match rows.getLast? with
    | some last => reader.emit cfg rows last
    | none => if cfg.notify.isSome then ({ reader with phase := .waiting }, []) else reader.finish
  | .waiting => ({ reader with phase := .querying }, [])

/-- The error of a statement, from the server's detail. -/
def failure (detail : String) : SaciError :=
  .generic <|
    match reader.phase with
    | .idle => detail
    | .connecting => detail
    | .creating => s!"PostgresSource: cannot create offset table '{cfg.offsetTable}': {detail}"
    | .loading => s!"PostgresSource: cannot read offset table '{cfg.offsetTable}': {detail}"
    | .resolving =>
      s!"PostgresSource: cannot read the current cursor maximum of '{cfg.table}': {detail}"
    | .storing => s!"PostgresSource: cannot write offset table '{cfg.offsetTable}': {detail}"
    | .deleting => s!"PostgresSource: cannot prune acknowledged rows from '{cfg.table}': {detail}"
    | .querying => s!"PostgresSource: cannot read '{cfg.table}': {detail}"
    | .waiting =>
      let channel := cfg.notify.getD ""
      s!"PostgresSource: cannot LISTEN on '{channel}': {detail}"

end Reader

/-! ## The reader, its table and its offset row -/

/-- The reader and the database, with what happened so far. -/
structure System (C T V : Type) where
  reader : Reader C T
  /-- The committed rows that the table holds. -/
  table : List (TableRow C T V)
  /-- The row of the offset table. -/
  stored : Option (Offset C T)
  /-- Every row committed so far. -/
  log : List (TableRow C T V)
  /-- The position that `initial` first resolved to. -/
  first : Option (Option (Offset C T))
  /-- The rows of the batches returned so far. -/
  returned : List (TableRow C T V)
  /-- The rows that `delete_acked` deleted so far. -/
  deleted : List (TableRow C T V)

inductive Input (C T V : Type)
  /-- A transaction of a writer commits. -/
  | insert (rows : List (TableRow C T V))
  /-- `set_batch_rows`. -/
  | setBatchRows (rows : Nat)
  /-- `next_batch` is called. -/
  | call
  /-- The server does what the call waits for. -/
  | answer
  /-- No notification arrived in time, or the connection ended. -/
  | timeout
  /-- The statement fails; whether it took effect. -/
  | fail (detail : String) (executed : Bool)
  /-- No connection, or the statement cannot be prepared. -/
  | refuse (error : SaciError)
  /-- The call is dropped; whether its statement took effect. -/
  | drop (executed : Bool)
  /-- The connection closes. -/
  | lose
  /-- The process starts again. -/
  | restart

/-- What the statement that the call waits for does to the database. -/
def execute (s : System C T V) : System C T V :=
  match s.reader.phase, s.reader.committed with
  | .storing, some offset => { s with stored := some offset }
  | .deleting, some offset =>
    { s with
      table := s.table.filter fun row => !atOrBefore cfg offset row
      deleted := s.deleted ++ s.table.filter (atOrBefore cfg offset) }
  | _, _ => s

/-- What an event adds to what happened. -/
def System.note (s : System C T V) : Event C T V → System C T V
  | .resolved offset => { s with first := s.first.or (some offset) }
  | .returned rows _ => { s with returned := s.returned ++ rows }
  | _ => s

/-- The system once its reader has gone on. -/
def System.after (s : System C T V) (result : Reader C T × List (Event C T V)) :
    System C T V × List (Event C T V) :=
  (result.2.foldl System.note { s with reader := result.1 }, result.2)

/-- The call ends with an error. -/
def System.fail (s : System C T V) (error : SaciError) : System C T V × List (Event C T V) :=
  ({ s with reader := { s.reader with phase := .idle } }, [.failed error])

def step (s : System C T V) : Input C T V → Except Empty (System C T V × List (Event C T V))
  | .insert rows => .ok ({ s with table := s.table ++ rows, log := s.log ++ rows }, [])
  | .setBatchRows rows => .ok ({ s with reader := { s.reader with batchRows := max rows 1 } }, [])
  | .call => if s.reader.phase = .idle then .ok (s.after (s.reader.call cfg)) else .ok (s, [])
  | .answer =>
    let s := execute cfg s
    .ok (s.after (s.reader.proceed cfg s.stored s.table))
  | .timeout => if s.reader.phase = .waiting then .ok (s.after s.reader.finish) else .ok (s, [])
  | .fail detail executed =>
    if s.reader.phase = .idle then .ok (s, [])
    else .ok ((if executed then execute cfg s else s).fail (s.reader.failure cfg detail))
  | .refuse error => if s.reader.phase = .idle then .ok (s, []) else .ok (s.fail error)
  | .drop executed =>
    let s := if executed then execute cfg s else s
    .ok ({ s with reader := { s.reader with phase := .idle } }, [])
  | .lose =>
    .ok ({ s with reader := { s.reader with connection := s.reader.connection.map fun _ => false } }, [])
  | .restart => .ok ({ s with reader := .new cfg.batchRows }, [])

/-- A reader that was never started, over a table that holds these rows. -/
def System.start (table : List (TableRow C T V)) : System C T V :=
  ⟨.new cfg.batchRows, table, none, table, none, [], []⟩

end
end Saci.Postgres.Cursor
