import Saci.Connectors.MariadbEncode
import Mathlib.Data.Nat.Log
import Mathlib.Data.List.Lex

/-!
# The MariaDB sink

One flush of `MariadbSink` (`saci-connector-mariadb/src/sink.rs`): the plan of its rows, the chunks they are
cut into, and the statements of its transaction. What the catalog and the server answer is given. A prepared
statement stands for its text, and the metrics and the retry of a connection are left out.
-/

namespace Saci.Mariadb.Sink

def what : String := "MariadbSink"

def placeholderLimit : Nat := 65535

def deleteKeysPerStatement : Nat := 1000

/-- Bytes a statement may spare beyond its parameters. -/
def packetSlack : Nat := 1024

def defaultMaxAllowedPacket : Nat := 16 * 1024 * 1024

/-! ## Configuration -/

inductive WriteMode
  | append
  | upsert
  | ignoreConflicts
  | applyChanges
  deriving DecidableEq

/-- `as_str`. -/
def WriteMode.asStr : WriteMode → String
  | append => "append"
  | upsert => "upsert"
  | ignoreConflicts => "ignore_conflicts"
  | applyChanges => "apply_changes"

structure MariadbSinkConfig where
  fields : List FieldSpec
  writeMode : WriteMode
  conflictColumns : List String
  updateColumns : List String
  dedupeOrderColumn : Option String
  chunkRows : Nat

/-- The error of a check of the configuration. -/
def refused {α : Type} (detail : String) : SaciResult α := .error (.configuration s!"{what}: {detail}")

/-- `validate_fields`, from the names on. -/
def validateFields (fields : List FieldSpec) : SaciResult Unit :=
  if fields.isEmpty then refused "schema_fields must declare at least one field"
  else
    fields.zipIdx.forM fun (field, i) =>
      if field.name.isEmpty then refused s!"schema_fields[{i}] has an empty 'name'"
      else if (fields.take i).any fun f => f.name = field.name then
        refused s!"schema_fields declares '{field.name}' more than once"
      else .ok ()

namespace MariadbSinkConfig

/-- `check_column`. -/
def checkColumn (cfg : MariadbSinkConfig) (key column : String) : SaciResult Unit :=
  if cfg.fields.any fun f => f.name = column then .ok ()
  else refused s!"{key} '{column}' does not name a declared schema_fields entry"

/-- The checks of `apply_changes`. -/
def validateChanges (cfg : MariadbSinkConfig) : SaciResult Unit :=
  if cfg.writeMode ≠ .applyChanges then .ok ()
  else
    match cfg.fields.find? fun f => f.name = "__op" with
    | none =>
      refused
        "write_mode \"apply_changes\" needs a declared '__op' field of type \"utf8\" naming each row's change"
    | some op =>
      if op.ty ≠ .utf8 then
        refused s!"reserved column '__op' must be declared type \"utf8\", not \"{op.ty.asStr}\""
      else
        [("conflict_columns", cfg.conflictColumns), ("update_columns", cfg.updateColumns)].forM
          fun (key, columns) =>
            match columns.find? fun c => c.startsWith "__" with
            | some column =>
              refused <|
                s!"{key} '{column}' is a reserved __ column, which write_mode \"apply_changes\" " ++
                "reads and never writes"
            | none => .ok ()

/-- The check of `append`, which takes no other key. -/
def validateAppend (cfg : MariadbSinkConfig) : SaciResult Unit :=
  [("conflict_columns", !cfg.conflictColumns.isEmpty), ("update_columns", !cfg.updateColumns.isEmpty),
    ("dedupe_order_column", cfg.dedupeOrderColumn.isSome)].forM fun (key, present) =>
      if present then
        refused <|
          s!"{key} applies to write_mode \"upsert\", \"ignore_conflicts\" or \"apply_changes\", " ++
          "not \"append\""
      else .ok ()

/-- The checks of the conflict columns. -/
def validateConflicts (cfg : MariadbSinkConfig) : SaciResult Unit :=
  if cfg.conflictColumns.isEmpty then
    refused s!"write_mode \"{cfg.writeMode.asStr}\" requires a non-empty conflict_columns"
  else do
    cfg.conflictColumns.forM (cfg.checkColumn "conflict_columns")
    cfg.conflictColumns.zipIdx.forM fun (column, i) =>
      if column ∈ cfg.conflictColumns.take i then refused s!"conflict_columns names '{column}' twice"
      else .ok ()

/-- The checks of the update columns. -/
def validateUpdates (cfg : MariadbSinkConfig) : SaciResult Unit :=
  if cfg.writeMode = .ignoreConflicts ∧ ¬cfg.updateColumns.isEmpty then
    refused "update_columns applies to write_mode \"upsert\" or \"apply_changes\", not \"ignore_conflicts\""
  else
    cfg.updateColumns.forM fun column => do
      cfg.checkColumn "update_columns" column
      if column ∈ cfg.conflictColumns then
        refused <|
          s!"update_columns '{column}' is also a conflict column; a conflict key cannot be rewritten " ++
          "by its own upsert"
      else .ok ()

/-- The checks of the order column. -/
def validateDedupe (cfg : MariadbSinkConfig) : SaciResult Unit :=
  match cfg.dedupeOrderColumn with
  | none => .ok ()
  | some column =>
    if cfg.writeMode = .applyChanges then
      refused <|
        "dedupe_order_column cannot be set with write_mode \"apply_changes\"; the rows apply in the " ++
        "order they arrive"
    else cfg.checkColumn "dedupe_order_column" column

/-- `validate`, from the fields on. -/
def validate (cfg : MariadbSinkConfig) : SaciResult Unit := do
  validateFields cfg.fields
  if cfg.chunkRows = 0 then refused "chunk_rows must be at least 1"
  else if cfg.writeMode = .append then cfg.validateAppend
  else do
    cfg.validateConflicts
    cfg.validateUpdates
    cfg.validateDedupe
    cfg.validateChanges

/-- `written_fields`. -/
def writtenFields (cfg : MariadbSinkConfig) : List FieldSpec :=
  cfg.fields.filter fun f => !(cfg.writeMode = .applyChanges && f.isReserved)

/-- `effective_update_columns`. -/
def effectiveUpdateColumns (cfg : MariadbSinkConfig) : List String :=
  if !cfg.updateColumns.isEmpty then cfg.updateColumns
  else (cfg.writtenFields.map FieldSpec.name).filter fun name => name ∉ cfg.conflictColumns

end MariadbSinkConfig

structure MariadbSink where
  /-- `schema` and `name` of the target. -/
  table : String × String
  written : List FieldSpec
  fields : List FieldSpec
  writeMode : WriteMode
  conflictColumns : List String
  updateColumns : List String
  dedupeOrderColumn : Option String
  chunkRows : Nat

/-- The target, unquoted. -/
def MariadbSink.shown (sink : MariadbSink) : String := s!"{sink.table.1}.{sink.table.2}"

/-- `new`. -/
def MariadbSink.new (table : String × String) (cfg : MariadbSinkConfig) : SaciResult MariadbSink := do
  cfg.validate
  return ⟨table, cfg.writtenFields, cfg.fields, cfg.writeMode, cfg.conflictColumns, cfg.effectiveUpdateColumns,
    cfg.dedupeOrderColumn, cfg.chunkRows⟩

/-! ## Errors -/

structure Failure where
  error : SaciError
  kind : String
  fatal : Bool

/-- `Failure::encode`. -/
def Failure.encode (error : SaciError) : Failure := ⟨error, "encode", false⟩

/-- An error of the driver. -/
structure MysqlError where
  detail : String
  isFatal : Bool

/-- `Failure::server`. -/
def Failure.server (kind context : String) (e : MysqlError) : Failure :=
  ⟨.generic s!"{what}: {context}: {e.detail}", kind, e.isFatal⟩

/-- `map_err(Failure::encode)`. -/
def encoding {α : Type} (result : SaciResult α) : Except Failure α := result.mapError Failure.encode

/-! ## Positions -/

/-- A row by its batch and its place there. -/
abbrev Position := Nat × Nat

/-- `as u32`. -/
def asU32 (n : Nat) : Nat := n % 2 ^ 32

inductive RunKind
  | upsert
  | delete
  deriving DecidableEq

/-- Consecutive rows that take the same action. -/
structure Run where
  kind : RunKind
  rows : List Position
  deriving DecidableEq

/-! ## Keys and orders -/

/-- `v + 0.0`, of a finite value's bits. -/
def plusZero (signBit bits : Nat) : Nat := if bits = signBit then 0 else bits

/-- The bytes of one part of a key. -/
def encodePart : Value → Bytes
  | .null => []
  | .int v => 1 :: leBytes 8 v.toUInt64.toNat
  | .uint v => 2 :: leBytes 8 v.toNat
  | .float v => 3 :: leBytes 4 (plusZero (2 ^ 31) v.toNat)
  | .double v => 4 :: leBytes 8 (plusZero (2 ^ 63) v.toNat)
  | .bytes v => 5 :: (leBytes 8 v.val.length ++ v.val)
  | .date y mo d h mi s us => 6 :: (leBytes 2 y.toNat ++ [mo, d, h, mi, s] ++ leBytes 4 us.toNat)
  | .time neg days h mi s us =>
    7 :: (if neg then 1 else 0) :: (leBytes 4 days.toNat ++ [h, mi, s] ++ leBytes 4 us.toNat)

/-- `encode_key`; none where a part is `NULL`. -/
def encodeKey (values : List Value) : Option Bytes :=
  if .null ∈ values then none else some (values.flatMap encodePart)

/-- A comparable value of the order column. -/
inductive Order
  | null
  | int (v : Int)
  | float (bits : Nat)
  | bytes (v : Bytes)

/-- The place of a float in `total_cmp`. -/
def totalPlace (bits : Nat) : Int := if bits < 2 ^ 63 then bits else 2 ^ 63 - 1 - bits

/-- `f64::from`, of an `f32`. -/
def widen (v : UInt32) : Nat :=
  let sign := v.toNat / 2 ^ 31 * 2 ^ 63
  let exponent := v.toNat / 2 ^ 23 % 2 ^ 8
  let mantissa := v.toNat % 2 ^ 23
  if exponent = 2 ^ 8 - 1 then
    sign + (2 ^ 11 - 1) * 2 ^ 52 + if mantissa = 0 then 0 else (mantissa * 2 ^ 29) ||| 2 ^ 51
  else if exponent ≠ 0 then sign + (exponent + 896) * 2 ^ 52 + mantissa * 2 ^ 29
  else if mantissa = 0 then sign
  else
    let top := mantissa.log2
    sign + (top + 874) * 2 ^ 52 + (mantissa - 2 ^ top) * 2 ^ (52 - top)

/-- `compare`. -/
def Order.compare : Order → Order → Ordering
  | .null, .null => .eq
  | .null, _ => .lt
  | _, .null => .gt
  | .int a, .int b => cmp a b
  | .float a, .float b => cmp (totalPlace a) (totalPlace b)
  | .bytes a, .bytes b => cmp a b
  | _, _ => .eq

/-- A value in the order, lowest where it is null. -/
def orderOf {α : Type} (values : List (Option α)) (row : Nat) (order : α → Order) : Order :=
  match values.getD row none with
  | none => .null
  | some v => order v

/-- `order_value`. -/
def orderValue (array : Column) (row : Nat) : Order :=
  match array with
  | .boolean values => orderOf values row fun v => .int (if v then 1 else 0)
  | .signed _ values => orderOf values row fun v => .int v.toInt
  | .unsigned _ values => orderOf values row fun v => .int v.toNat
  | .date32 values => orderOf values row fun v => .int v.toInt
  | .time64Micros values => orderOf values row fun v => .int v.toInt
  | .timestampMicros _ values => orderOf values row fun v => .int v.toInt
  | .decimal128 _ _ values => orderOf values row fun v => .int v.val
  | .float32 values => orderOf values row fun v => .float (widen v)
  | .float64 values => orderOf values row fun v => .float v.toNat
  | .utf8 values => orderOf values row fun v => .bytes v.asBytes.val
  | .binary values => orderOf values row fun v => .bytes v.val
  | .other _ => .null

/-! ## The plan -/

/-- `key_fields`. -/
def keyFields (fields : List FieldSpec) (conflictColumns : List String) : List FieldSpec :=
  conflictColumns.filterMap fun name => fields.find? fun f => f.name = name

/-- `unknown_op`. -/
def unknownOp (row : Nat) (op : Option String) : Failure :=
  let shown := match op with
    | none => "NULL"
    | some op => s!"'{op}'"
  .encode (.generic s!"{what}: row {row} has __op {shown}; apply_changes understands I, U, R and D")

/-- Every row, in the order of arrival. -/
def everything (batches : List Batch) : List Position :=
  batches.zipIdx.flatMap fun (batch, b) => (List.range batch.numRows).map fun r => (asU32 b, asU32 r)

/-- What `dedupe` knows: which rows stay, and the winner of each key. -/
structure Race where
  keep : List Bool
  winners : Bytes → Option (Nat × Order)

/-- A turn of the loop over the rows. -/
def Race.turn (race : Race) (i : Nat) (key : Option Bytes) (value : Order) : Race :=
  match key with
  | none => race
  | some key =>
    match race.winners key with
    | some (held, heldValue) =>
      if value.compare heldValue = .lt then { race with keep := race.keep.set i false }
      else ⟨race.keep.set held false, Function.update race.winners key (some (i, value))⟩
    | none => { race with winners := Function.update race.winners key (some (i, value)) }

namespace MariadbSink

/-- The key readers and the order column of each batch. -/
def dedupeReaders (sink : MariadbSink) (batches : List Batch) (order : String) :
    Except Failure (List (List ColumnReader × Column)) :=
  batches.mapM fun batch => do
    let readers ← encoding (resolveColumns what batch (keyFields sink.fields sink.conflictColumns))
    match batch.columnByName order with
    | none =>
      .error (.encode (.generic s!"{what}: batch has no column '{order}' named by dedupe_order_column"))
    | some array => return (readers, array)

/-- The loop of `dedupe`. -/
def dedupeLoop (readers : List (List ColumnReader × Column)) : List Position → Nat → Race → Except Failure Race
  | [], _, race => .ok race
  | (b, r) :: rows, i, race => do
    let reader := readers.getD b ([], .other "")
    let values ← encoding (rowValues reader.1 r)
    dedupeLoop readers rows (i + 1) (race.turn i (encodeKey values) (orderValue reader.2 r))

/-- `dedupe`. -/
def dedupe (sink : MariadbSink) (batches : List Batch) (rows : List Position) (order : String) :
    Except Failure (List Position) := do
  let readers ← sink.dedupeReaders batches order
  let race ← dedupeLoop readers rows 0 ⟨List.replicate rows.length true, fun _ => none⟩
  return ((rows.zip race.keep).filter Prod.snd).map Prod.fst

/-- What a row's `__op` asks for. -/
def kindOf (ops : List (Option Text)) (row : Nat) : Except Failure RunKind :=
  match ops.getD row none with
  | none => .error (unknownOp row none)
  | some op =>
    if op.val = "I" ∨ op.val = "U" ∨ op.val = "R" then .ok .upsert
    else if op.val = "D" then .ok .delete
    else .error (unknownOp row (some op.val))

/-- The row joins the last run where it takes the same action, or opens one. -/
def pushRow (runs : List Run) (kind : RunKind) (position : Position) : List Run :=
  match runs.getLast? with
  | some run =>
    if run.kind = kind then runs.dropLast ++ [{ run with rows := run.rows ++ [position] }]
    else runs ++ [⟨kind, [position]⟩]
  | none => runs ++ [⟨kind, [position]⟩]

/-- The loop of `split_changes` over the rows of a batch. -/
def splitRows (b : Nat) (ops : List (Option Text)) (keyReaders : List ColumnReader) :
    List Nat → List Run → Except Failure (List Run)
  | [], runs => .ok runs
  | row :: rows, runs => do
    let kind ← kindOf ops row
    if kind = .delete then
      let values ← encoding (rowValues keyReaders row)
      if .null ∈ values then
        .error <| .encode <| .generic <|
          s!"{what}: row {row} has __op 'D' with a NULL conflict key, which matches no row"
    splitRows b ops keyReaders rows (pushRow runs kind (asU32 b, asU32 row))

/-- The loop of `split_changes` over the batches. -/
def splitBatches (sink : MariadbSink) : List (Batch × Nat) → List Run → Except Failure (List Run)
  | [], runs => .ok runs
  | (batch, b) :: batches, runs =>
    match batch.columnByName "__op" with
    | some (.utf8 ops) => do
      let keyReaders ← encoding (resolveColumns what batch (keyFields sink.fields sink.conflictColumns))
      sink.splitBatches batches (← splitRows b ops keyReaders (List.range batch.numRows) runs)
    | _ => .error (.encode (.generic s!"{what}: apply_changes needs a utf8 '__op' column in the batch"))

/-- `split_changes`. -/
def splitChanges (sink : MariadbSink) (batches : List Batch) : Except Failure (List Run) :=
  sink.splitBatches batches.zipIdx []

/-- The rows of a mode that only inserts. -/
def planRows (sink : MariadbSink) (batches : List Batch) : Except Failure (List Position) :=
  match sink.dedupeOrderColumn with
  | some order => sink.dedupe batches (everything batches) order
  | none => .ok (everything batches)

/-- `plan_runs`. -/
def planRuns (sink : MariadbSink) (batches : List Batch) : Except Failure (List Run) :=
  match sink.writeMode with
  | .append | .upsert | .ignoreConflicts => do
    let rows ← sink.planRows batches
    return [⟨.upsert, rows⟩]
  | .applyChanges => sink.splitChanges batches

end MariadbSink

/-! ## The session -/

/-- `rows_per_insert`. -/
def rowsPerInsert (chunkRows writtenColumns : Nat) : Nat :=
  max (min chunkRows (placeholderLimit / max writtenColumns 1)) 1

/-- `keys_per_delete`. -/
def keysPerDelete (rowsPerInsert keyColumns : Nat) : Nat :=
  max (min (min rowsPerInsert deleteKeysPerStatement) (placeholderLimit / max keyColumns 1)) 1

inductive Flavor
  | mariadb
  | mysql
  deriving DecidableEq

/-- `quote_ident`. -/
def quoteIdent (identifier : String) : String := "`" ++ identifier.replace "`" "``" ++ "`"

/-- `quote_columns`. -/
def quoteColumns (columns : List String) : String := ", ".intercalate (columns.map quoteIdent)

/-- `ignore_tail`. -/
def ignoreTail (keyColumn : String) : String :=
  s!" ON DUPLICATE KEY UPDATE {quoteIdent keyColumn} = {quoteIdent keyColumn}"

/-- `upsert_tail`. -/
def upsertTail (flavor : Flavor) (updateColumns : List String) (keyColumn : String) : String :=
  if updateColumns.isEmpty then ignoreTail keyColumn
  else
    let assignments := ", ".intercalate <| updateColumns.map fun column =>
      let quoted := quoteIdent column
      match flavor with
      | .mariadb => s!"{quoted} = VALUES({quoted})"
      | .mysql => s!"{quoted} = __saci_new.{quoted}"
    match flavor with
    | .mariadb => s!" ON DUPLICATE KEY UPDATE {assignments}"
    | .mysql => s!" AS __saci_new ON DUPLICATE KEY UPDATE {assignments}"

/-- `tail_for`. -/
def tailFor (mode : WriteMode) (flavor : Flavor) (update : List String) (key : String) : String :=
  match mode with
  | .append => ""
  | .ignoreConflicts => ignoreTail key
  | .upsert | .applyChanges => upsertTail flavor update key

/-- `key_matches`. -/
def keyMatches (conflict : List String) (keys : List (List String)) : Bool :=
  keys.any fun key =>
    key.length = conflict.length && conflict.all fun c => key.any fun k => k.toLower = c.toLower

/-- What one session needs to write. -/
structure Prepared where
  table : String
  insertPrefix : String
  tail : String
  rowsPerInsert : Nat
  keysPerDelete : Nat
  packetBudget : Nat
  /-- Of a temporal column with fewer than six fraction digits, its place and the modulus. -/
  fractionGuards : List (Nat × Nat)

/-- What the catalog and the session answer. -/
structure Catalog where
  flavor : Flavor
  /-- The guards of the columns that `validate_columns` resolves. -/
  fractionGuards : SaciResult (List (Nat × Nat))
  uniqueKeys : SaciResult (List (List String))
  maxAllowedPacket : SaciResult (Option Nat)

namespace MariadbSink

/-- The check of the conflict key against the catalog. -/
def checkKey (sink : MariadbSink) (catalog : Catalog) : SaciResult Unit :=
  if sink.writeMode = .append then .ok ()
  else do
    let keys ← catalog.uniqueKeys
    let columns := ", ".intercalate sink.conflictColumns
    if keyMatches sink.conflictColumns keys then .ok ()
    else
      .error <| .configuration <|
        s!"{what}: conflict_columns ({columns}) match no PRIMARY KEY or UNIQUE index of " ++
        s!"'{sink.shown}'; ON DUPLICATE KEY UPDATE would resolve on a different key"

/-- `resolve`. -/
def resolve (sink : MariadbSink) (catalog : Catalog) : SaciResult Prepared := do
  let fractionGuards ← catalog.fractionGuards
  sink.checkKey catalog
  let packet ← catalog.maxAllowedPacket
  let table := s!"{quoteIdent sink.table.1}.{quoteIdent sink.table.2}"
  let rows := Sink.rowsPerInsert sink.chunkRows sink.written.length
  return {
    table
    insertPrefix := s!"INSERT INTO {table} ({quoteColumns (sink.written.map FieldSpec.name)}) VALUES "
    tail := tailFor sink.writeMode catalog.flavor sink.updateColumns (sink.conflictColumns.headD "")
    rowsPerInsert := rows
    keysPerDelete := Sink.keysPerDelete rows sink.conflictColumns.length
    packetBudget := packet.getD defaultMaxAllowedPacket - packetSlack
    fractionGuards }

end MariadbSink

/-! ## Chunks -/

/-- `value_bytes`. -/
def valueBytes : Value → Nat
  | .null => 0
  | .bytes v => v.val.length + 9
  | .int _ | .uint _ | .double _ => 8
  | .float _ => 4
  | .date .. => 12
  | .time .. => 13

/-- The bytes of a row's values. -/
def rowBytes (values : List Value) : Nat := (values.map valueBytes).sum

structure Limits where
  maxRows : Nat
  budget : Nat
  base : Nat
  perRow : Nat

/-- What is left of a run: the row that did not fit the last chunk, and the rows after it. -/
structure Chunker where
  rows : List Position
  carry : Option (List Value)

/-- A chunk: the parameters of a statement, and its rows. -/
structure Chunk where
  params : List Value
  rows : Nat

/-- The loop of `next_chunk`. -/
def takeRows (limits : Limits) (fill : Position → Except Failure (List Value)) :
    List Position → Chunk → Nat → Except Failure (Chunk × Chunker)
  | [], chunk, _ => .ok (chunk, ⟨[], none⟩)
  | position :: rows, chunk, bytes =>
    if chunk.rows < limits.maxRows then do
      let values ← fill position
      if 0 < chunk.rows ∧ limits.budget < bytes + (limits.perRow + rowBytes values) then
        .ok (chunk, ⟨rows, some values⟩)
      else
        takeRows limits fill rows ⟨chunk.params ++ values, chunk.rows + 1⟩
          (bytes + (limits.perRow + rowBytes values))
    else .ok (chunk, ⟨position :: rows, none⟩)

/-- `next_chunk`; a chunk of no rows is the end. -/
def Chunker.nextChunk (chunker : Chunker) (limits : Limits) (fill : Position → Except Failure (List Value)) :
    Except Failure (Chunk × Chunker) :=
  match chunker.carry with
  | some carried => takeRows limits fill chunker.rows ⟨carried, 1⟩ (limits.base + (limits.perRow + rowBytes carried))
  | none => takeRows limits fill chunker.rows ⟨[], 0⟩ limits.base

/-! ## The transaction -/

inductive Sql
  /-- `DELETE FROM`, of every row. -/
  | clear
  | insert (rows : Nat)
  | delete (keys : Nat)
  deriving DecidableEq

structure Statement where
  sql : Sql
  params : List Value
  deriving DecidableEq

/-- What the transaction has executed, and what the server answers to the commands that follow. -/
structure Transaction where
  executed : List Statement
  answers : List (Option MysqlError)

namespace Transaction

/-- A command, where the server answers nothing else it succeeds. -/
def command (tx : Transaction) : Except MysqlError Transaction :=
  match tx.answers with
  | [] => .ok tx
  | none :: answers => .ok { tx with answers }
  | some e :: _ => .error e

/-- `exec_drop`. -/
def exec (tx : Transaction) (sql : Sql) (params : List Value) : Except MysqlError Transaction := do
  let tx ← tx.command
  return { tx with executed := tx.executed ++ [⟨sql, params⟩] }

/-- `run_statement`. -/
def runStatement (tx : Transaction) (slot : Option Sql) (full : Bool) (sql : Sql) (params : List Value) :
    Except MysqlError (Transaction × Option Sql) :=
  if full then
    match slot with
    | some stmt => do return (← tx.exec stmt params, some stmt)
    | none => do return (← (← tx.command).exec sql params, some sql)
  else do return (← (← tx.command).exec sql params, slot)

end Transaction

theorem takeRows_left {limits : Limits} {fill : Position → Except Failure (List Value)} {rows : List Position}
    {chunk chunk' : Chunk} {bytes : Nat} {left : Chunker}
    (h : takeRows limits fill rows chunk bytes = .ok (chunk', left)) :
    chunk'.rows + left.rows.length + left.carry.toList.length = chunk.rows + rows.length := by
  induction rows generalizing chunk bytes with
  | nil =>
    cases h
    rfl
  | cons position rows ih =>
    rw [takeRows] at h
    split_ifs at h with hmax
    · obtain ⟨values, -, h⟩ := bind_eq_ok_iff.mp h
      split_ifs at h with hbudget
      · cases h
        simp
        omega
      · have hleft := ih h
        simp at hleft ⊢
        omega
    · cases h
      simp

theorem nextChunk_left {limits : Limits} {fill : Position → Except Failure (List Value)} {chunker left : Chunker}
    {chunk : Chunk} (h : chunker.nextChunk limits fill = .ok (chunk, left)) :
    chunk.rows + left.rows.length + left.carry.toList.length =
      chunker.rows.length + chunker.carry.toList.length := by
  rw [Chunker.nextChunk] at h
  split at h <;> rename_i hcarry <;> have hleft := takeRows_left h <;> simp [hcarry] at hleft ⊢ <;> omega

/-- The loop over the chunks of a run, whose statement of so many rows is `sql`. -/
def runChunks (limits : Limits) (fill : Position → Except Failure (List Value)) (sql : Nat → Sql)
    (context : String) (chunker : Chunker) (tx : Transaction) (slot : Option Sql) :
    Except Failure (Transaction × Option Sql) :=
  match _h : chunker.nextChunk limits fill with
  | .error e => .error e
  | .ok (chunk, left) =>
    if _hrows : chunk.rows = 0 then .ok (tx, slot)
    else do
      let (tx, slot) ← (tx.runStatement slot (chunk.rows = limits.maxRows) (sql chunk.rows) chunk.params).mapError
        (Failure.server "write" context)
      runChunks limits fill sql context left tx slot
termination_by chunker.rows.length + chunker.carry.toList.length
decreasing_by
  have hleft := nextChunk_left ‹_›
  omega

/-- `guard_fractions`. -/
def guardFractions (prepared : Prepared) (written : List FieldSpec) (values : List Value) (row : Nat) :
    Except Failure Unit :=
  prepared.fractionGuards.forM fun (index, modulus) =>
    let name := ((written[index]?).map FieldSpec.name).getD ""
    let guarded (micros : UInt32) : Except Failure Unit :=
      if micros.toNat % modulus ≠ 0 then
        .error <| .encode <| .generic <|
          s!"{what}: column '{name}' row {row}: the value carries " ++
          s!"fraction digits beyond the {6 - Nat.log 10 modulus} the server column keeps; the server would " ++
          "round (MySQL) or truncate (MariaDB) it silently"
      else .ok ()
    match values[index]? with
    | some (.date _ _ _ _ _ _ us) => guarded us
    | some (.time _ _ _ _ _ us) => guarded us
    | _ => .ok ()

/-- What the statements of a flush need. -/
structure Apply where
  prepared : Prepared
  written : List FieldSpec
  keyColumns : List String
  table : String
  readers : List (List ColumnReader)
  keyReaders : List (List ColumnReader)

/-- The handles of the two full statements. -/
structure Handles where
  insert : Option Sql
  delete : Option Sql

namespace Apply

/-- The values an `INSERT` reads of a row. -/
def fillInsert (ctx : Apply) : Position → Except Failure (List Value) := fun (b, r) => do
  let values ← encoding (rowValues (ctx.readers.getD b []) r)
  guardFractions ctx.prepared ctx.written values r
  return values

/-- The key a `DELETE` reads of a row. -/
def fillDelete (ctx : Apply) : Position → Except Failure (List Value) := fun (b, r) =>
  encoding (rowValues (ctx.keyReaders.getD b []) r)

def insertLimits (ctx : Apply) : Limits where
  maxRows := ctx.prepared.rowsPerInsert
  budget := ctx.prepared.packetBudget
  base := ctx.prepared.insertPrefix.utf8ByteSize + ctx.prepared.tail.utf8ByteSize
  perRow := 4 * ctx.written.length + ctx.written.length / 8 + 4

def deleteLimits (ctx : Apply) : Limits where
  maxRows := ctx.prepared.keysPerDelete
  budget := ctx.prepared.packetBudget
  base := ctx.prepared.table.utf8ByteSize
  perRow := (ctx.keyColumns.map fun c => c.utf8ByteSize + 16).sum + 4

/-- The loop of `run` over the runs. -/
def runAll (ctx : Apply) : List Run → Transaction → Handles → Except Failure Transaction
  | [], tx, _ => .ok tx
  | run :: runs, tx, handles =>
    match run.kind with
    | .upsert => do
      let (tx, insert) ← runChunks ctx.insertLimits ctx.fillInsert .insert s!"INSERT into '{ctx.table}' failed"
        ⟨run.rows, none⟩ tx handles.insert
      ctx.runAll runs tx { handles with insert }
    | .delete => do
      let (tx, delete) ← runChunks ctx.deleteLimits ctx.fillDelete .delete s!"DELETE from '{ctx.table}' failed"
        ⟨run.rows, none⟩ tx handles.delete
      ctx.runAll runs tx { handles with delete }

end Apply

namespace MariadbSink

/-- The readers of the written columns and of the key, of each batch. -/
def applyReaders (sink : MariadbSink) (batches : List Batch) :
    Except Failure (List (List ColumnReader × List ColumnReader)) :=
  batches.mapM fun batch => do
    let readers ← encoding (resolveColumns what batch sink.written)
    let keyReaders ← encoding (resolveColumns what batch (keyFields sink.fields sink.conflictColumns))
    return (readers, keyReaders)

/-- What the statements of a flush are built from. -/
def apply (sink : MariadbSink) (prepared : Prepared) (readers : List (List ColumnReader × List ColumnReader)) :
    Apply :=
  ⟨prepared, sink.written, sink.conflictColumns, sink.shown, readers.map Prod.fst, readers.map Prod.snd⟩

/-- `truncate_before_first_write`. -/
def clearTarget (sink : MariadbSink) (truncate : Bool) (tx : Transaction) : Except Failure Transaction :=
  if truncate then
    (tx.exec .clear []).mapError
      (Failure.server "write" s!"cannot clear '{sink.shown}' for truncate_before_first_write")
  else .ok tx

/-- `Apply::run`. -/
def run (sink : MariadbSink) (prepared : Prepared) (batches : List Batch) (runs : List Run) (truncate : Bool)
    (tx : Transaction) : Except Failure Transaction := do
  let tx ← sink.clearTarget truncate tx
  let readers ← sink.applyReaders batches
  (sink.apply prepared readers).runAll runs tx ⟨none, none⟩

/-- `write`: the statements that a flush commits, where it succeeds. -/
def write (sink : MariadbSink) (prepared : Prepared) (batches : List Batch) (truncate : Bool)
    (answers : List (Option MysqlError)) : Except Failure (List Statement) := do
  let runs ← sink.planRuns batches
  let tx ← ((⟨[], answers⟩ : Transaction).command).mapError
    (Failure.server "write" s!"cannot open a transaction for '{sink.shown}'")
  let tx ← sink.run prepared batches runs truncate tx
  let tx ← tx.command.mapError (Failure.server "commit" s!"cannot commit the write to '{sink.shown}'")
  return tx.executed

end MariadbSink

end Saci.Mariadb.Sink
