import Saci.Connectors.Pgoutput
import Saci.Connectors.PostgresTypes
import Saci.Library.Run

/-!
# The logical replication reader

`LogicalReader` (`saci-connector-postgresql/src/source/logical.rs`) over a replication slot: one peek
per drain cycle is cut into batches on a queue, and the slot moves at the start of the next cycle, up
to the newest transaction that the batches handed out complete. What the column builders do with one
value is a parameter; metrics and the SQL texts are left out.
-/

namespace Saci.Postgres.Logical

open Pgoutput

/-- The column builders and the type table of the value layer. -/
structure Values where
  /-- `resolve_wire`. -/
  resolveWire : FieldSpec → ColumnType → Except String Unit
  /-- `ColumnBuilder::new`. -/
  newBuilder : FieldSpec → Nat → SaciResult Unit
  pushStr : FieldSpec → String → SaciResult Cell
  pushI64 : FieldSpec → Int → SaciResult Cell
  pushText : FieldSpec → Nat → Bytes → SaciResult Cell
  push : FieldSpec → Nat → Bytes → SaciResult Cell

structure Config where
  slot : String
  publication : String
  /-- `schema.table`, as the relation messages report it. -/
  table : String
  slotAutocreate : Bool
  maxBatchesPerCycle : Nat
  fields : List FieldSpec
  schema : Schema
  /-- The host and database of the connection. -/
  target : String

/-- A row of a peek. -/
structure SlotRow where
  lsn : Option String
  xid : Option String
  data : Bytes

/-- A row of a batch. -/
abbrev Row := List Cell

/-! ## Log sequence numbers -/

/-- `format_lsn`. -/
def formatLsn (lsn : Nat) : String :=
  upper (lsn / 2 ^ 32) ++ "/" ++
    (let low := upper (lsn % 2 ^ 32); String.ofList (List.replicate (8 - low.length) '0') ++ low)
where
  upper (n : Nat) : String := String.ofList ((Nat.toDigits 16 n).map Char.toUpper)

/-- The value of a digit in a radix up to 16. -/
def digitValue (c : Char) : Option Nat :=
  if '0' ≤ c ∧ c ≤ '9' then some (c.toNat - 48)
  else if 'a' ≤ c ∧ c ≤ 'f' then some (c.toNat - 87)
  else if 'A' ≤ c ∧ c ≤ 'F' then some (c.toNat - 55)
  else none

/-- `u32::from_str_radix`: a leading plus sign is let through. -/
def parseU32 (radix : Nat) (text : List Char) : Option Nat :=
  let digits := match text with
    | '+' :: digits => digits
    | digits => digits
  if digits.isEmpty then none
  else digits.foldlM (fun n c =>
    (digitValue c).bind fun d =>
      if d < radix ∧ n * radix + d < 2 ^ 32 then some (n * radix + d) else none) 0

/-- `parse_lsn`. -/
def parseLsn (text : String) : SaciResult Nat :=
  let malformed := SaciError.generic <|
    s!"PostgresSource: '{text}' is not a PostgreSQL LSN of the form XXXXXXXX/XXXXXXXX"
  let high := text.toList.takeWhile (· ≠ '/')
  match text.toList.drop high.length with
  | [] => .error malformed
  | _ :: low =>
    if '/' ∈ low then .error malformed
    else
      match parseU32 16 high, parseU32 16 low with
      | some high, some low => .ok (high * 2 ^ 32 + low)
      | _, _ => .error malformed

/-- `lsn_of_commit`: the wire's signed number read as unsigned. -/
def lsnOfCommit (endLsn : Int) : Nat := (endLsn % 2 ^ 64).toNat

/-! ## The plan of a relation -/

/-- The metadata columns the connector fills from the change stream. -/
inductive Reserved
  | op
  | lsn
  | xid
  | commitTs
  | table
  deriving DecidableEq

def reservedKind (name : String) : Option Reserved :=
  match name with
  | "__op" => some .op
  | "__lsn" => some .lsn
  | "__xid" => some .xid
  | "__commit_ts" => some .commitTs
  | "__table" => some .table
  | _ => none

/-- `TIMESTAMP_EPOCH_OFFSET_MICROS`. -/
def timestampEpochOffsetMicros : Int := 946684800000000

structure RelationPlan where
  columnIndex : List (Option Nat)
  oids : List Nat
  deriving DecidableEq

section
variable (values : Values) (cfg : Config)

/-- What is wrong with a declared field that the relation publishes at a position. -/
def columnProblems (relation : Relation) (spec : FieldSpec) (typeOid : Nat) :
    Option ColumnType → List String
  | none =>
    [s!"column '{spec.name}' is published by '{relation.qualified}' but the table's catalog entry " ++
      "has no such column"]
  | some column =>
    (if typeOid ≠ column.attributeOid then
      [s!"column '{spec.name}' of '{relation.qualified}' is published as oid {typeOid} but the " ++
        s!"catalog says {column.display} (oid {column.attributeOid}); the column's type changed " ++
        "after this session started, so reconnect to pick it up"]
    else []) ++
    match values.resolveWire spec column with
    | .error reason => [s!"column '{spec.name}' of '{relation.qualified}': {reason}"]
    | .ok () => []

/-- The position and the type of one declared field, and what is wrong with it. -/
def planField (relation : Relation) (columns : List ColumnType) (spec : FieldSpec) :
    Option Nat × Nat × List String :=
  if (reservedKind spec.name).isSome then (none, 0, [])
  else
    match relation.columns.findIdx? (·.name = spec.name) with
    | none =>
      let published := ", ".intercalate (relation.columns.map (·.name))
      (none, 0,
        [s!"column '{spec.name}' is declared but '{relation.qualified}' does not publish it " ++
          s!"(published columns: {published})"])
    | some index =>
      let column := columns.find? (·.name = spec.name)
      let typeOid := ((relation.columns[index]?).map (·.typeOid)).getD 0
      (some index, (column.map (·.oid)).getD 0, columnProblems values relation spec typeOid column)

/-- `RelationPlan::build`. -/
def RelationPlan.build (relation : Relation) (columns : List ColumnType) : SaciResult RelationPlan :=
  let planned := cfg.fields.map (planField values relation columns)
  let problems := planned.flatMap (·.2.2)
  if problems.isEmpty then .ok ⟨planned.map (·.1), planned.map (·.2.1)⟩
  else
    .error <| .configuration <|
      "PostgresSource: declared schema does not match the published relation: " ++
        "; ".intercalate problems

/-- `RelationPlan::builders`. -/
def RelationPlan.builders (plan : RelationPlan) : SaciResult Unit :=
  (cfg.fields.zip plan.oids).forM fun (spec, oid) => values.newBuilder spec oid

/-- The cell of one declared field. -/
def pushCell (tuple : List TupleValue) (operation : Operation) (lsn : Nat) (xid commitTs : Option Int)
    (spec : FieldSpec) (index : Option Nat) (oid : Nat) : SaciResult Cell :=
  match reservedKind spec.name with
  | some .op => values.pushStr spec operation.asStr
  | some .lsn => values.pushI64 spec ((lsn : Int).bmod (2 ^ 64))
  | some .xid =>
    match xid with
    | some xid => values.pushI64 spec xid
    | none => .ok .null
  | some .commitTs =>
    match commitTs with
    | some ts =>
      if ts + timestampEpochOffsetMicros < 2 ^ 63 then
        values.pushI64 spec (ts + timestampEpochOffsetMicros)
      else
        .error <| .generic <|
          s!"PostgresSource: commit timestamp {ts} overflows an i64 after rebasing to the " ++
          "1970-01-01 epoch"
    | none => .ok .null
  | some .table => values.pushStr spec cfg.table
  | none =>
    match tuple[index.getD 0]? with
    | none =>
      .error <| .generic <|
        s!"PostgresSource: tuple for '{cfg.table}' has {tuple.length} column(s), but column " ++
        s!"'{spec.name}' sits at index {index.getD 0}"
    | some .null => .ok .null
    | some .unchanged => .ok .null
    | some (.text bytes) => values.pushText spec oid bytes
    | some (.binary bytes) => values.push spec oid bytes

/-- `RelationPlan::push_row`. -/
def RelationPlan.pushRow (plan : RelationPlan) (tuple : List TupleValue) (operation : Operation)
    (lsn : Nat) (xid commitTs : Option Int) : SaciResult Row :=
  (cfg.fields.zip (plan.columnIndex.zip plan.oids)).mapM fun (spec, index, oid) =>
    pushCell values cfg tuple operation lsn xid commitTs spec index oid

/-- `finish_chunk`. The arrays are of the schema's types and of one length. -/
def finishChunk (rows : List Row) : SaciResult RecordBatch :=
  match cfg.schema.fields.zipIdx.find? fun (field, idx) =>
      ¬field.nullable ∧ rows.any fun row => row.getD idx .null = .null with
  | some (field, _) =>
    .error <| .generic <|
      s!"PostgresSource: cannot assemble a batch of '{cfg.table}' changes: Invalid argument error: " ++
      s!"Column '{field.name}' is declared as non-nullable but contains null values"
  | none => .ok ⟨cfg.schema, rows⟩

/-! ## Decoding a peek -/

/-- The locals of `decode_rows`. -/
structure Decoding where
  decoder : Decoder
  plan : Option RelationPlan
  /-- The open builders, through the rows they hold. -/
  builders : Option (List Row)
  rowsInChunk : Nat
  commitTs : Option Int
  rowsDecoded : Nat
  /-- The rows decoded when a transaction committed, and its end. -/
  commitPoints : List (Nat × Nat)
  /-- The finished batches, with the rows decoded at their end. -/
  produced : List (RecordBatch × Nat)

def Decoding.start : Decoding := ⟨.empty, none, none, 0, none, 0, [], []⟩

/-- The lsn and the xid of a slot row. -/
def rowPosition (row : SlotRow) : SaciResult (Nat × Option Int) := do
  let lsn ← match row.lsn with
    | some text => parseLsn text
    | none => .error (.generic "PostgresSource: a slot row carries a NULL lsn")
  match row.xid with
  | none => return (lsn, none)
  | some text =>
    match parseU32 10 text.toList with
    | some xid => return (lsn, some (xid : Int))
    | none =>
      .error <| .generic <|
        s!"PostgresSource: slot row at {formatLsn lsn} carries an unparseable xid '{text}'"

/-- A `Relation` message of the table. -/
def takeRelation (columns : List ColumnType) (d : Decoding) (relation : Relation) :
    SaciResult Decoding := do
  let plan ← RelationPlan.build values cfg relation columns
  match d.builders with
  | some rows =>
    if 0 < d.rowsInChunk then
      let batch ← finishChunk cfg rows
      return { d with
        plan := some plan
        builders := none
        rowsInChunk := 0
        produced := d.produced ++ [(batch, d.rowsDecoded)] }
    else return { d with plan := some plan, builders := none }
  | none => return { d with plan := some plan }

/-- The plan that reads a change. -/
def currentPlan (d : Decoding) : SaciResult RelationPlan :=
  match d.plan with
  | some plan => .ok plan
  | none =>
    .error <| .generic <|
      s!"PostgresSource: a change for '{cfg.table}' arrived before its Relation message"

/-- The builders that are open, or new ones. -/
def openBuilders (plan : RelationPlan) (d : Decoding) : SaciResult (List Row) :=
  match d.builders with
  | some rows => .ok rows
  | none => do
    RelationPlan.builders values cfg plan
    return []

/-- A change of the table. -/
def takeChange (batchRows : Nat) (d : Decoding) (lsn : Nat) (xid : Option Int) (operation : Operation)
    (tuple : List TupleValue) : SaciResult Decoding := do
  let plan ← currentPlan cfg d
  let rows ← openBuilders values cfg plan d
  let row ← RelationPlan.pushRow values cfg plan tuple operation lsn xid d.commitTs
  if batchRows ≤ d.rowsInChunk + 1 then
    let batch ← finishChunk cfg (rows ++ [row])
    return { d with
      builders := none
      rowsInChunk := 0
      rowsDecoded := d.rowsDecoded + 1
      produced := d.produced ++ [(batch, d.rowsDecoded + 1)] }
  else
    return { d with
      builders := some (rows ++ [row])
      rowsInChunk := d.rowsInChunk + 1
      rowsDecoded := d.rowsDecoded + 1 }

/-- What the loop does with a message. -/
def takeMessage (columns : List ColumnType) (batchRows : Nat) (d : Decoding) (lsn : Nat)
    (xid : Option Int) : Message → SaciResult Decoding
  | .begin ts => .ok { d with commitTs := some ts }
  | .commit endLsn =>
    .ok { d with commitPoints := d.commitPoints ++ [(d.rowsDecoded, lsnOfCommit endLsn)] }
  | .metadata => .ok d
  | .truncate _ => .ok d
  | .relation relId =>
    match d.decoder.relation relId with
    | none => .error (.generic "the decoder just stored it")
    | some relation =>
      if relation.qualified = cfg.table then takeRelation values cfg columns d relation else .ok d
  | .change relId operation tuple =>
    match d.decoder.relation relId with
    | none =>
      .error <| .generic <|
        s!"PostgresSource: slot row at {formatLsn lsn} names relation id {relId}, which no " ++
        "Relation message declared"
    | some relation =>
      if relation.qualified = cfg.table then
        takeChange values cfg batchRows d lsn xid operation tuple
      else .ok d

/-- One turn of the loop of `decode_rows`. -/
def decodeRow (columns : List ColumnType) (batchRows : Nat) (d : Decoding) (row : SlotRow) :
    SaciResult Decoding := do
  let (lsn, xid) ← rowPosition row
  let (message, decoder) ← d.decoder.decode row.data
  takeMessage values cfg columns batchRows { d with decoder } lsn xid message

/-- The newest transaction that the rows up to a count complete. -/
def ackLsn (commitPoints : List (Nat × Nat)) (endRow : Nat) : Option Nat :=
  (commitPoints.reverse.find? (·.1 ≤ endRow)).map (·.2)

/-- The finished batches, and what is open after the loop. -/
def allProduced (d : Decoding) : SaciResult (List (RecordBatch × Nat)) :=
  match d.builders with
  | some rows =>
    if 0 < d.rowsInChunk then do
      let batch ← finishChunk cfg rows
      return d.produced ++ [(batch, d.rowsDecoded)]
    else .ok d.produced
  | none => .ok d.produced

/-- `decode_rows`: the batches it puts on the queue. -/
def decodeRows (columns : List ColumnType) (batchRows : Nat) (rows : List SlotRow) :
    SaciResult (List (RecordBatch × Option Nat)) := do
  let d ← rows.foldlM (decodeRow values cfg columns batchRows) .start
  let produced ← allProduced cfg d
  return produced.map fun (batch, endRow) => (batch, ackLsn d.commitPoints endRow)

/-! ## The reader -/

structure State where
  /-- Whether there is a connection; it may have closed since. -/
  connection : Bool
  slotReady : Bool
  batchRows : Nat
  columns : List ColumnType
  /-- The batches not handed out yet, with the newest transaction each completes. -/
  queue : List (RecordBatch × Option Nat)
  /-- The highest LSN that is safe to acknowledge. -/
  pendingLsn : Option Nat
  peekedThisCycle : Bool
  cycleStart : Bool
  batchesThisCycle : Nat

/-- How the creation of the slot ends. -/
inductive SlotAnswer
  | created
  | duplicate
  /-- The text of the error, and `slot_error_hint`. -/
  | failed (detail hint : String)

/-- What the server answers in the course of one call. -/
structure Answers where
  /-- The connection held is still open. -/
  alive : Bool
  connect : SaciResult Unit
  createSlot : SlotAnswer
  columnTypes : SaciResult (List ColumnType)
  /-- The position `pg_replication_slot_advance` reports; where it fails, whether the slot moved. -/
  advance : Except (String × Bool) String
  /-- The rows of the peek, or its error and `slot_error_hint`. -/
  peek : Except (String × String) (List SlotRow)

inductive Event
  /-- A connection that had closed was replaced. -/
  | reconnected
  /-- The slot was asked to move to a position, and whether it did. -/
  | advanced (lsn : Nat) (moved : Bool)
  /-- The rows of a peek that decoded, and `batch_rows` at the time. -/
  | peeked (rows : List SlotRow) (batchRows : Nat)
  | returned (batch : RecordBatch)
  /-- `Ok(None)`: the end of a drain cycle. -/
  | ended
  | failed (error : SaciError)

/-- `create_slot`. -/
def createSlot (a : Answers) : SaciResult Unit :=
  if cfg.slotAutocreate then
    match a.createSlot with
    | .created => .ok ()
    | .duplicate => .ok ()
    | .failed detail hint =>
      .error <| .generic <|
        s!"PostgresSource: cannot create replication slot '{cfg.slot}' on {cfg.target}: " ++
        s!"{detail}{hint}"
  else .ok ()

/-- The slot and the columns of a new session. -/
def prepareSession (s : State) (a : Answers) : State × SaciResult Unit :=
  match if s.slotReady then .ok () else createSlot cfg a with
  | .error e => (s, .error e)
  | .ok () =>
    let s := { s with slotReady := true }
    if s.columns.isEmpty then
      match a.columnTypes with
      | .error e => (s, .error e)
      | .ok columns => ({ s with columns }, .ok ())
    else (s, .ok ())

/-- A new connection, and what it needs. -/
def newSession (s : State) (a : Answers) : State × SaciResult Unit :=
  match a.connect with
  | .error e => (s, .error e)
  | .ok () => prepareSession cfg { s with connection := true } a

/-- `ensure_session`. -/
def ensureSession (s : State) (a : Answers) : State × List Event × SaciResult Unit :=
  if s.connection && a.alive then (s, [], .ok ())
  else if s.connection then
    let (s, result) := newSession cfg { s with slotReady := false, queue := [], columns := [] } a
    (s, [.reconnected], result)
  else
    let (s, result) := newSession cfg s a
    (s, [], result)

/-- `advance`. -/
def advance (s : State) (a : Answers) : State × List Event × SaciResult Unit :=
  match s.pendingLsn with
  | none => (s, [], .ok ())
  | some pending =>
    match a.advance with
    | .error (detail, moved) =>
      (s, [.advanced pending moved],
        .error <| .generic <|
          s!"PostgresSource: cannot advance replication slot '{cfg.slot}' to {formatLsn pending}: " ++
          detail)
    | .ok confirmed =>
      match parseLsn confirmed with
      | .error e => (s, [.advanced pending true], .error e)
      | .ok _ => ({ s with pendingLsn := none }, [.advanced pending true], .ok ())

/-- `take_queued`. -/
def takeQueued (s : State) : Option (State × RecordBatch) :=
  match s.queue with
  | [] => none
  | (batch, ack) :: queue =>
    some ({ s with
      queue
      pendingLsn :=
        match ack with
        | none => s.pendingLsn
        | some lsn => some ((s.pendingLsn.map (max lsn)).getD lsn)
      batchesThisCycle := s.batchesThisCycle + 1 }, batch)

/-- `next_batch` once the cycle has begun. -/
def drain (s : State) (a : Answers) : State × List Event :=
  if 0 < cfg.maxBatchesPerCycle ∧ cfg.maxBatchesPerCycle ≤ s.batchesThisCycle then
    ({ s with queue := [], cycleStart := true }, [.ended])
  else
    match takeQueued s with
    | some (s, batch) => (s, [.returned batch])
    | none =>
      if s.peekedThisCycle then ({ s with cycleStart := true }, [.ended])
      else
        match a.peek with
        | .error (detail, hint) =>
          (s, [.failed <| .generic <|
            s!"PostgresSource: cannot read replication slot '{cfg.slot}' with publication " ++
            s!"'{cfg.publication}': {detail}{hint}"])
        | .ok rows =>
          let s := { s with peekedThisCycle := true }
          match decodeRows values cfg s.columns s.batchRows rows with
          | .error e => (s, [.failed e])
          | .ok produced =>
            let s := { s with queue := s.queue ++ produced }
            match takeQueued s with
            | some (s', batch) => (s', [.peeked rows s.batchRows, .returned batch])
            | none => ({ s with cycleStart := true }, [.peeked rows s.batchRows, .ended])

/-- `next_batch`. -/
def nextBatch (s : State) (a : Answers) : State × List Event :=
  match ensureSession cfg s a with
  | (s, told, .error e) => (s, told ++ [.failed e])
  | (s, told, .ok ()) =>
    if s.cycleStart then
      match advance cfg s a with
      | (s, moved, .error e) => (s, told ++ moved ++ [.failed e])
      | (s, moved, .ok ()) =>
        let (s, events) := drain values cfg
          { s with cycleStart := false, batchesThisCycle := 0, peekedThisCycle := false } a
        (s, told ++ moved ++ events)
    else
      let (s, events) := drain values cfg s a
      (s, told ++ events)

/-- `LogicalReader::new`, with a batch size of its own. -/
def State.new (batchRows : Nat) : State := ⟨false, false, batchRows, [], [], none, false, false, 0⟩

end

/-! ## The slot -/

/-- A change as the server publishes it. -/
structure Change where
  /-- `schema.table`. -/
  table : String
  operation : Operation
  tuple : List TupleValue

/-- A committed transaction. -/
structure Transaction where
  endLsn : Nat
  changes : List Change

/-- The reader, the transactions committed since the slot was made, and the slot's position. -/
structure System where
  reader : State
  log : List Transaction
  confirmed : Nat

inductive Input
  | commit (transaction : Transaction)
  /-- `set_batch_rows`. -/
  | setBatchRows (rows : Nat)
  | call (answers : Answers)

/-- The position of the slot after what a call did. -/
def moveSlot (confirmed : Nat) (events : List Event) : Nat :=
  events.foldl
    (fun position event =>
      match event with
      | .advanced lsn true => lsn
      | _ => position)
    confirmed

def step (values : Values) (cfg : Config) (s : System) : Input → Except Unit (System × List Event)
  | .commit transaction => .ok ({ s with log := s.log ++ [transaction] }, [])
  | .setBatchRows rows => .ok ({ s with reader := { s.reader with batchRows := max rows 1 } }, [])
  | .call answers =>
    let (reader, events) := nextBatch values cfg s.reader answers
    .ok ({ s with reader, confirmed := moveSlot s.confirmed events }, events)

/-- A reader that has not connected yet, and a slot nothing was published to yet. -/
def System.start (batchRows confirmed : Nat) : System := ⟨.new batchRows, [], confirmed⟩

end Saci.Postgres.Logical
