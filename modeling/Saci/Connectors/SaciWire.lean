import Mathlib
import Saci.Library.BigEndian
import Saci.Library.Cutting
import Saci.Library.Traced
import Saci.Core.Error

/-!
# Frames between services

The frames a `saci` sink writes and a `saci` source reads (`saci-connector-saci/src/wire.rs`). An
encoder appends to a buffer and keeps what it appended when it is refused; the decoder keeps what
it touched of the body. Arrow's encoding of a schema is a parameter.
-/

namespace Saci.Wire

/-- The only protocol version. -/
def PROTOCOL_VERSION : UInt8 := 1

def KIND_HELLO : UInt8 := 1
def KIND_ACCEPT : UInt8 := 2
def KIND_REJECT : UInt8 := 3
def KIND_DATA : UInt8 := 4

def U16_MAX : Nat := 2 ^ 16 - 1
def U32_MAX : Nat := 2 ^ 32 - 1

/-- Which service, workflow and sink node is calling. -/
structure NodeIdentity where
  service : String
  workflow : String
  node : String
  deriving DecidableEq

inductive Frame (Schema : Type)
  /-- A sink naming itself and the schema it will send. -/
  | hello (version : UInt8) (identity : NodeIdentity) (schema : Schema)
  | accept
  | reject (reason : String)
  /-- One batch as Arrow IPC bytes, with the sender's trace context when it had one. -/
  | data (traceparent : Option String) (ipc : Bytes)
  deriving DecidableEq

variable {Schema : Type}

def Frame.kind : Frame Schema → UInt8
  | .hello .. => KIND_HELLO
  | .accept => KIND_ACCEPT
  | .reject _ => KIND_REJECT
  | .data .. => KIND_DATA

/-- Arrow's encoding of a schema: `schema_to_bytes_with_dictionary_tracker` and
`try_schema_from_flatbuffer_bytes`. -/
structure ArrowSchema (Schema : Type) where
  schemaBytes : Schema → Bytes
  trySchema : Bytes → Except String Schema

/-- Arrow reads back the schemas it wrote. -/
def ArrowSchema.Faithful (arrow : ArrowSchema Schema) : Prop :=
  ∀ schema, arrow.trySchema (arrow.schemaBytes schema) = .ok schema

/-- `as_bytes`. -/
def utf8 (s : String) : Bytes := s.toByteArray.data.toList

/-! ## Writing -/

/-- Writing to a buffer. A refusal leaves what was written before it. -/
abbrev Writer (α : Type) := EStateM SaciError Bytes α

/-- `extend_from_slice`. -/
def extend (bytes : Bytes) : Writer Unit := modify (· ++ bytes)

/-- `map_err` of a number that does not fit its field. -/
def fits (n max : Nat) (message : String) : Writer Unit :=
  if n ≤ max then pure () else throw (.generic message)

def putStr (s : String) : Writer Unit := do
  let len := (utf8 s).length
  fits len U16_MAX s!"saci wire: a string of {len} bytes does not fit the u16 length prefix"
  extend (beBytes 2 len)
  extend (utf8 s)

def tooLong (len : Nat) : String :=
  s!"saci wire: a frame of {len} bytes does not fit the u32 length prefix"

/-- The body's length is put into the four bytes that were reserved for it. -/
def finishLength (start : Nat) : Writer Unit := do
  let out ← get
  let body := out.length - start - 4
  fits body U32_MAX (tooLong body)
  set (out.take start ++ beBytes 4 body ++ out.drop (start + 4))

section
variable (arrow : ArrowSchema Schema)

/-- The body of a frame, as `encode_frame` appends it. -/
def putBody : Frame Schema → Writer Unit
  | .hello version identity schema => do
    extend [KIND_HELLO]
    extend [version]
    putStr identity.service
    putStr identity.workflow
    putStr identity.node
    let bytes := arrow.schemaBytes schema
    fits bytes.length U32_MAX (tooLong bytes.length)
    extend (beBytes 4 bytes.length)
    extend bytes
  | .accept => extend [KIND_ACCEPT]
  | .reject reason => do
    extend [KIND_REJECT]
    putStr reason
  | .data traceparent ipc => do
    extend [KIND_DATA]
    putStr (traceparent.getD "")
    extend ipc

/-- Append one frame, with its length. -/
def encodeFrame (frame : Frame Schema) : Writer Unit := do
  let out ← get
  extend [0, 0, 0, 0]
  putBody arrow frame
  finishLength out.length

/-- Frames that are appended one after the other, up to the first that is refused. -/
def encodeFrames : List (Frame Schema) → Writer Unit
  | [] => pure ()
  | frame :: frames => do
    encodeFrame arrow frame
    encodeFrames frames

end

/-- What is in a buffer that was empty. -/
def written (x : Writer Unit) : SaciResult Bytes :=
  match x.run [] with
  | .ok _ out => .ok out
  | .error e _ => .error e

/-- The length and what stands before the IPC bytes of a data frame. -/
def dataHeader (traceparent : Option String) (ipcLen : Nat) : SaciResult Bytes :=
  written do
    extend [0, 0, 0, 0]
    extend [KIND_DATA]
    putStr (traceparent.getD "")
    let out ← get
    let body := out.length - 4 + ipcLen
    fits body U32_MAX (tooLong body)
    set (beBytes 4 body ++ out.drop 4)

/-! ## Reading -/

/-- Reading from a body, by position. An index or a range that is not inside traps. -/
abbrev Reader (α : Type) := Traced Nat SaciError α

/-- `body[i]`. -/
def byteAt (body : Bytes) (i : Nat) : Reader UInt8 :=
  match body[i]? with
  | some b => ⟨[i], .ok b⟩
  | none => .trap

/-- `body[start..stop]`. -/
def slice (body : Bytes) (start stop : Nat) : Reader Bytes :=
  if start ≤ stop ∧ stop ≤ body.length then
    ⟨List.range' start (stop - start), .ok ((body.drop start).take (stop - start))⟩
  else .trap

def truncated : SaciError := .generic "saci wire: truncated frame"

/-- The number at a position, and the position past it. -/
def takeU16 (body : Bytes) (position : Nat) : Reader (Nat × Nat) := do
  Traced.refuseIf (position + 2 > body.length) truncated
  let b₀ ← byteAt body position
  let b₁ ← byteAt body (position + 1)
  return (beValue [b₀, b₁], position + 2)

def takeU32 (body : Bytes) (position : Nat) : Reader (Nat × Nat) := do
  Traced.refuseIf (position + 4 > body.length) truncated
  let b₀ ← byteAt body position
  let b₁ ← byteAt body (position + 1)
  let b₂ ← byteAt body (position + 2)
  let b₃ ← byteAt body (position + 3)
  return (beValue [b₀, b₁, b₂, b₃], position + 4)

/-- `from_utf8`. -/
def fromUtf8 (bytes : Bytes) (field : String) : Reader String :=
  match String.fromUTF8? ⟨bytes.toArray⟩ with
  | some s => pure s
  | none => .refuse (.generic s!"saci wire: invalid UTF-8 in {field}")

def takeStr (body : Bytes) (position : Nat) (field : String) : Reader (String × Nat) := do
  let (len, position) ← takeU16 body position
  let stop := position + len
  Traced.refuseIf (stop > body.length) truncated
  let bytes ← slice body position stop
  let s ← fromUtf8 bytes field
  return (s, stop)

section
variable (arrow : ArrowSchema Schema)

def takeSchema (bytes : Bytes) : Reader Schema :=
  match arrow.trySchema bytes with
  | .ok schema => pure schema
  | .error e => .refuse (.generic s!"saci wire: bad schema: {e}")

/-- What `decode_frame` does with the body of a hello. -/
def decodeHello (body : Bytes) : Reader (Frame Schema) := do
  Traced.refuseIf (1 ≥ body.length) truncated
  let version ← byteAt body 1
  let (service, position) ← takeStr body 2 "the hello's service"
  let (workflow, position) ← takeStr body position "the hello's workflow"
  let (node, position) ← takeStr body position "the hello's sink"
  let (schemaLen, position) ← takeU32 body position
  let stop := position + schemaLen
  Traced.refuseIf (stop > body.length) truncated
  let bytes ← slice body position stop
  let schema ← takeSchema arrow bytes
  return .hello version { service, workflow, node } schema

/-- Decode the bytes after the length. -/
def decodeFrame (body : Bytes) : Reader (Frame Schema) := do
  Traced.refuseIf (body = []) truncated
  let kind ← byteAt body 0
  if kind = KIND_HELLO then
    decodeHello arrow body
  else if kind = KIND_ACCEPT then
    return .accept
  else if kind = KIND_REJECT then
    let (reason, _) ← takeStr body 1 "the reject's reason"
    return .reject reason
  else if kind = KIND_DATA then
    let (traceparent, position) ← takeStr body 1 "the data frame's traceparent"
    let ipc ← slice body position body.length
    return .data (if traceparent = "" then none else some traceparent) ipc
  else Traced.refuse (.generic s!"saci wire: unknown frame kind {kind}")

end

/-- The version a hello body announces, without decoding the rest. -/
def helloVersion : Bytes → Option UInt8
  | kind :: version :: _ => if kind = KIND_HELLO then some version else none
  | _ => none

private theorem lengthBytes_pos : 0 < 4 := by decide

/-- The frames of a stream. -/
def frameCutter : Cutter UInt8 Bytes := .counted 4 beValue lengthBytes_pos

end Saci.Wire
