import Saci.Sdk.GoArrowIpc

/-!
# The Go codec: columns

The column accessors and the writes in place of `saci-sdk-go/arrowipc/arrowipc.go`, and a processor
that calls the codec on one stream: every call works on the bytes that the calls before it left.
-/

namespace Saci.GoSdk

def typeName (typ : Int) : String :=
  if typ = typeInt then "Int"
  else if typ = typeFloat then "FloatingPoint"
  else if typ = typeUtf8 then "Utf8"
  else if typ = typeBool then "Bool"
  else s!"type_type {typ}"

namespace Batch

/-! ## Looking up a column -/

/-- The first field of that name. -/
def fieldNamed (b : Batch) (name : Bytes) : Go Field :=
  match b.fields.find? (·.name = name) with
  | some f => pure f
  | none =>
    .refuse ⟨[.text "component ", .quoted b.component, .text " has no field ", .quoted name]⟩

/-- `FieldIndex`. -/
def fieldIndex (b : Batch) (name : Bytes) : Go Nat := do
  let _ ← b.fieldNamed name
  return b.fields.findIdx (·.name = name)

/-- `field`. -/
def field (b : Batch) (name : Bytes) (want : Int) : Go Field := do
  let f ← b.fieldNamed name
  Traced.refuseIf (f.typ ≠ want) (Error.mk
    [.text "field ", .quoted name, .text s!" is {typeName f.typ}, not {typeName want}"])
  return f

/-- `reader`. -/
def reader (b : Batch) (name : Bytes) (want width : Int) : Go Field := do
  let f ← b.field name want
  let need := int (b.rows * width)
  Traced.refuseIf (f.values.len < need) (Error.mk
    [.text "field ", .quoted name,
      .text s!" values buffer holds {f.values.len} bytes, need {need} for {b.rows} rows"])
  return f

def checkRow (b : Batch) (name : Bytes) (row : Int) : Go Unit :=
  .refuseIf (row < 0 ∨ row ≥ b.rows) ⟨[.text s!"row {row} is out of range for field ", .quoted name,
    .text s!" of {b.rows} rows"]⟩

/-- `writer`. -/
def writer (b : Batch) (name : Bytes) (want row width : Int) : Go Field := do
  let f ← b.fieldNamed name
  Traced.refuseIf (f.typ ≠ typeInt ∧ f.typ ≠ typeFloat ∧ f.typ ≠ typeBool) (Error.mk
    [.text "field ", .quoted name, .text <| s!" is {typeName f.typ}: this codec writes fixed-width " ++
      "values only, because a variable-length write would have to rebuild the offsets buffer and " ++
      "the RecordBatch metadata"])
  b.checkRow name row
  b.reader name want width

def needBits (b : Batch) (f : Field) : Go Unit :=
  let need := (int (b.rows + 7)).tdiv 8
  .refuseIf (f.values.len < need) ⟨[.text "field ", .quoted f.name,
    .text s!" bitmap holds {f.values.len} bytes, need {need} for {b.rows} rows"]⟩

/-! ## Reading -/

/-- The rows of the batch. -/
def indices (b : Batch) : List Nat := List.range b.rows.toNat

/-- `Int64s`, as the 64 bits of each value. -/
def int64s (b : Batch) (buf name : Bytes) : Go (List Int) := do
  let f ← b.reader name typeInt 8
  Traced.forEach (fun (i : Nat) => do
    let bits ← uint64At buf (int (f.values.off + int (i * 8)))
    return int bits) b.indices

/-- `Float64s`, as the 64 bits of each value. -/
def float64s (b : Batch) (buf name : Bytes) : Go (List Int) := do
  let f ← b.reader name typeFloat 8
  Traced.forEach (fun (i : Nat) => uint64At buf (int (f.values.off + int (i * 8)))) b.indices

/-- `buf[offset]`. -/
def byteAt (buf : Bytes) (offset : Int) : Go UInt8 := do
  let bytes ← bytesAt buf offset 1
  return bytes.headD 0

/-- `Bools`. -/
def bools (b : Batch) (buf name : Bytes) : Go (List Bool) := do
  let f ← b.field name typeBool
  b.needBits f
  Traced.forEach (fun (i : Nat) => do
    let byte ← byteAt buf (int (f.values.off + ((i / 8 : Nat) : Int)))
    return byte.toNat.testBit (i % 8)) b.indices

/-- Row `i` of a Utf8 column. -/
def stringAt (buf name : Bytes) (f : Field) (i : Nat) : Go Bytes := do
  let start ← uint32At buf (int (f.offsets.off + int (i * 4)))
  let stop ← uint32At buf (int (f.offsets.off + int ((i + 1) * 4)))
  let start := int32 start
  let stop := int32 stop
  Traced.refuseIf (start < 0 ∨ stop < start ∨ stop > f.values.len) (Error.mk
    [.text "field ", .quoted name, .text <| s!" row {i} offsets [{start},{stop}) escape its " ++
      s!"{f.values.len}-byte values buffer"])
  let from_ := int (f.values.off + start)
  let to_ := int (f.values.off + stop)
  bytesAt buf from_ (to_ - from_)

/-- `Strings`. -/
def strings (b : Batch) (buf name : Bytes) : Go (List Bytes) := do
  let f ← b.field name typeUtf8
  let need := int (int (b.rows + 1) * 4)
  Traced.refuseIf (f.offsets.len < need) (Error.mk
    [.text "field ", .quoted name,
      .text s!" offsets buffer holds {f.offsets.len} bytes, need {need} for {b.rows} rows"])
  Traced.forEach (stringAt buf name f) b.indices

/-! ## Writing in place -/

/-- `binary.LittleEndian.PutUint64(buf[offset:], ..)` and `buf[offset] = ..`: the bytes after it. -/
def putAt (buf : Bytes) (offset : Int) (bytes : Bytes) : Go Bytes :=
  if 0 ≤ offset ∧ offset + bytes.length ≤ buf.length then
    let start := offset.toNat
    ⟨[⟨offset, bytes.length⟩], .ok (buf.take start ++ bytes ++ buf.drop (start + bytes.length))⟩
  else .trap

/-- `SetInt64` and `SetFloat64`: the 64 bits of the value. -/
def setUint64 (b : Batch) (buf name : Bytes) (want row : Int) (bits : UInt64) : Go Bytes := do
  let f ← b.writer name want row 8
  putAt buf (int (f.values.off + int (row * 8))) (leBytes 8 bits.toNat)

def setInt64 (b : Batch) (buf name : Bytes) (row : Int) (v : UInt64) : Go Bytes :=
  b.setUint64 buf name typeInt row v

def setFloat64 (b : Batch) (buf name : Bytes) (row : Int) (v : UInt64) : Go Bytes :=
  b.setUint64 buf name typeFloat row v

/-- `SetBool`. -/
def setBool (b : Batch) (buf name : Bytes) (row : Int) (v : Bool) : Go Bytes := do
  let f ← b.field name typeBool
  b.checkRow name row
  b.needBits f
  let mask : UInt8 := 1 <<< UInt8.ofNat (row.toNat % 8)
  let position := int (f.values.off + row.tdiv 8)
  let byte ← byteAt buf position
  putAt buf position [if v then byte ||| mask else byte &&& ~~~mask]

end Batch

/-! ## A processor -/

/-- What a processor calls. A batch is named by its place among those that calls have returned. -/
inductive Call
  | components
  | component (name : Bytes)
  | rawSegments
  | fieldIndex (batch : Nat) (name : Bytes)
  | int64s (batch : Nat) (name : Bytes)
  | float64s (batch : Nat) (name : Bytes)
  | bools (batch : Nat) (name : Bytes)
  | strings (batch : Nat) (name : Bytes)
  | setInt64 (batch : Nat) (name : Bytes) (row : Int) (v : UInt64)
  | setFloat64 (batch : Nat) (name : Bytes) (row : Int) (v : UInt64)
  | setBool (batch : Nat) (name : Bytes) (row : Int) (v : Bool)

inductive Value
  | components (names : List Bytes)
  | batch (segment : Segment) (b : Batch)
  | rawSegments (segments : List RawSegment)
  | index (i : Nat)
  | int64s (values : List Int)
  | float64s (bits : List Int)
  | bools (values : List Bool)
  | strings (values : List Bytes)
  /-- The bytes of the stream after a write. -/
  | written (buf : Bytes)

/-- A stream and the batches that calls have returned of it, with their segments. -/
structure Processor where
  stream : Stream
  batches : List (Segment × Batch)

def opened (stream : Stream) : Processor := { stream, batches := [] }

/-- A call on a batch. -/
def onBatch {α : Type} (p : Processor) (i : Nat) (f : Batch → Bytes → Go α) (value : α → Value) :
    OverStream (Option Value) :=
  match p.batches[i]? with
  | none => pure none
  | some (seg, b) => inSegment seg do
    let a ← f b p.stream.buf
    return some (value a)

/-- What a call does; it does nothing where there is no such batch. -/
def call (p : Processor) : Call → OverStream (Option Value)
  | .components => do
    let names ← components p.stream
    return some (.components names)
  | .component name => do
    let (seg, b) ← component p.stream name
    return some (.batch seg b)
  | .rawSegments => do
    let segments ← rawSegments p.stream
    return some (.rawSegments segments)
  | .fieldIndex i name => onBatch p i (fun b _ => b.fieldIndex name) .index
  | .int64s i name => onBatch p i (fun b buf => b.int64s buf name) .int64s
  | .float64s i name => onBatch p i (fun b buf => b.float64s buf name) .float64s
  | .bools i name => onBatch p i (fun b buf => b.bools buf name) .bools
  | .strings i name => onBatch p i (fun b buf => b.strings buf name) .strings
  | .setInt64 i name row v => onBatch p i (fun b buf => b.setInt64 buf name row v) .written
  | .setFloat64 i name row v => onBatch p i (fun b buf => b.setFloat64 buf name row v) .written
  | .setBool i name row v => onBatch p i (fun b buf => b.setBool buf name row v) .written

/-- What is left after a call. -/
def Processor.after (p : Processor) : Value → Processor
  | .batch seg b => { p with batches := p.batches ++ [(seg, b)] }
  | .written buf => { p with stream := { p.stream with buf } }
  | _ => p

/-- A call, what it answers and the stream's bytes before and after it. -/
structure Answer where
  outcome : OverStream (Option Value)
  segments : List Segment
  before : Bytes
  after : Bytes

def step (p : Processor) (c : Call) : Except Unit (Processor × Answer) :=
  let outcome := call p c
  let next :=
    match outcome.result with
    | .ok (some value) => p.after value
    | _ => p
  .ok (next,
    { outcome, segments := p.stream.segments, before := p.stream.buf, after := next.stream.buf })

end Saci.GoSdk
