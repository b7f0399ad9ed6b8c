import Saci.Core.RecordBatch

/-!
# Dead letters

A batch a sink refused, as one row of the envelope schema (`saci-service/src/service/dlq.rs`): the
letter, its encoding, the filter of a replay, and the stores a `dlq` block may name. The Arrow IPC
transformer that encodes the payload is a parameter.
-/

namespace Saci

/-- `reason_of`: the failure of the last attempt. -/
def reasonOf : SaciError → String
  | .retryExhausted source _ => reasonOf source
  | error => error.message

/-- What the queue uses of `ArrowIpcTransformer`. -/
structure ArrowIpcTransformer where
  encodeMessages : RecordBatch → SaciResult (List Bytes)
  /-- A decoder for the schema, given the payload and flushed. -/
  decodeMessage : Schema → Bytes → SaciResult (Option RecordBatch)

/-! ## Stores -/

/-- `DlqStoreKind`, through what the queue looks at. -/
structure DlqStoreKind where
  id : String
  /-- The sink half holds the store against its own source half. -/
  exclusive : Bool
  /-- The source half's end of stream means that the store is empty. -/
  confirmsEnd : Bool
  deriving DecidableEq

def DLQ_STORES : List DlqStoreKind :=
  [⟨"redb", true, true⟩, ⟨"kafka", false, false⟩, ⟨"nats", false, true⟩]

def storeKind (id : String) : Option DlqStoreKind := DLQ_STORES.find? fun kind => kind.id = id

/-! ## Letters -/

/-- `ENVELOPE_FIELDS`. -/
def ENVELOPE_FIELDS : List (String × DataType) :=
  [("workflow", .utf8), ("sink", .utf8), ("component", .utf8), ("reason", .utf8),
    ("failed_at_unix_ms", .uInt64), ("replays", .uInt32), ("rows", .uInt32), ("payload", .binary)]

def envelopeSchema : Schema := ⟨ENVELOPE_FIELDS.map fun field => ⟨field.1, field.2, false⟩⟩

structure Letter where
  sink : String
  component : String
  reason : String
  failedAtUnixMs : UInt64
  replays : UInt32
  rows : UInt32
  payload : Bytes
  deriving DecidableEq

/-- `column_of`: a column's type and cells. -/
def columnOf (batch : RecordBatch) (name : String) : SaciResult (DataType × List Cell) :=
  match batch.schema.indexOf name with
  | none =>
    .error <| .generic <|
      s!"dead letter: a stored row carries no '{name}' column; the store holds rows this queue " ++
      "did not write"
  | some idx =>
    .ok (((batch.schema.fields[idx]?).map Field.dataType).getD .utf8, batch.column idx)

def envelopeMismatch (name expected : String) : SaciError :=
  .generic s!"dead letter: a stored row's '{name}' column is not {expected}"

namespace Letter

/-- The value of a text column; what a null slot holds is the empty string. -/
def utf8 (batch : RecordBatch) (row : Nat) (name : String) : SaciResult String := do
  let (dataType, cells) ← columnOf batch name
  if dataType = .utf8 then
    match cells[row]? with
    | some (.text value) => .ok value
    | _ => .ok ""
  else .error (envelopeMismatch name "utf8")

/-- The value of an unsigned column, zero in a null slot. -/
def unsigned (batch : RecordBatch) (row : Nat) (name expected : String) (expectedType : DataType) :
    SaciResult Nat := do
  let (dataType, cells) ← columnOf batch name
  if dataType = expectedType then
    match cells[row]? with
    | some (.int value) => .ok value.toNat
    | _ => .ok 0
  else .error (envelopeMismatch name expected)

def binary (batch : RecordBatch) (row : Nat) (name : String) : SaciResult Bytes := do
  let (dataType, cells) ← columnOf batch name
  if dataType = .binary then
    match cells[row]? with
    | some (.bytes value) => .ok value
    | _ => .ok []
  else .error (envelopeMismatch name "binary")

/-- `from_failure`. -/
def fromFailure (ipc : ArrowIpcTransformer) (batch : RecordBatch) (sink component : String)
    (error : SaciError) (now : UInt64) : SaciResult Letter := do
  let payloads ← ipc.encodeMessages batch
  match payloads.getLast? with
  | none =>
    .error (.generic "dead letter: arrow-ipc encoded no payload for the refused batch")
  | some payload =>
    .ok {
      sink := sink
      component := component
      reason := reasonOf error
      failedAtUnixMs := now
      replays := 0
      rows := UInt32.ofNat (min batch.numRows (UInt32.size - 1))
      payload := payload }

/-- `from_row`. -/
def fromRow (batch : RecordBatch) (row : Nat) : SaciResult Letter := do
  let payload ← binary batch row "payload"
  let failedAtUnixMs ← unsigned batch row "failed_at_unix_ms" "uint64" .uInt64
  let sink ← utf8 batch row "sink"
  let component ← utf8 batch row "component"
  let reason ← utf8 batch row "reason"
  let replays ← unsigned batch row "replays" "uint32" .uInt32
  let rows ← unsigned batch row "rows" "uint32" .uInt32
  .ok ⟨sink, component, reason, UInt64.ofNat failedAtUnixMs, UInt32.ofNat replays,
    UInt32.ofNat rows, payload⟩

/-- `to_envelope`. The columns are those of the schema, so they build. -/
def toEnvelope (letter : Letter) (workflow : String) : SaciResult RecordBatch :=
  .ok ⟨envelopeSchema,
    [[.text workflow, .text letter.sink, .text letter.component, .text letter.reason,
      .int letter.failedAtUnixMs.toNat, .int letter.replays.toNat, .int letter.rows.toNat,
      .bytes letter.payload]]⟩

/-- `payload_batch`. -/
def payloadBatch (ipc : ArrowIpcTransformer) (letter : Letter) (schema : Schema) : SaciResult RecordBatch := do
  match ← ipc.decodeMessage schema letter.payload with
  | some batch => .ok batch
  | none =>
    .error <| .generic
      s!"dead letter: the payload recorded for sink '{letter.sink}' decoded to no batch"

/-- A letter that failed again. -/
def retried (letter : Letter) (error : SaciError) (now : UInt64) : Letter :=
  { letter with
    reason := reasonOf error
    failedAtUnixMs := now
    replays := if letter.replays.toNat + 1 < UInt32.size then letter.replays + 1 else letter.replays }

end Letter

/-! ## Filters -/

structure ReplayFilter where
  sink : Option String
  reason : Option String
  deriving DecidableEq

def ReplayFilter.admits (filter : ReplayFilter) (letter : Letter) : Bool :=
  filter.sink.all (fun sink => sink = letter.sink) &&
    filter.reason.all fun reason => reason = letter.reason

inductive DlqTrigger
  | startup | heal | schedule | manual | purge
  deriving DecidableEq

/-- `DlqReplayReport`, without its times. -/
structure DlqReplayReport where
  trigger : DlqTrigger
  delivered : Nat
  retained : Nat
  purged : Nat
  lost : Nat
  error : Option String
  deriving DecidableEq

end Saci
