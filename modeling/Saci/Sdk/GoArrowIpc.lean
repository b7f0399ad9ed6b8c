import Saci.Library.Framing
import Saci.Library.Traced

/-!
# The Go codec: reading

The reader of the Go SDK (`saci-sdk-go/arrowipc/arrowipc.go`, and `RawSegments` of `writer.go`) on a
64-bit platform: an `int` is a two's complement number of 64 bits, and its sums wrap. A slice access
that leaves the slice traps, and every access to the stream's bytes is recorded.
-/

namespace Saci.GoSdk

/-- The value that is left of a number in an `int`. -/
def int (n : Int) : Int := n.bmod (2 ^ 64)

/-- Two's complement of 32 bits. -/
def int32 (n : Int) : Int := n.bmod (2 ^ 32)

/-- What Go allocates at most; no slice is longer. -/
def maxAlloc : Nat := 2 ^ 48

/-- The bytes of a Go slice. -/
def Input : Type := { bytes : Bytes // bytes.length ≤ maxAlloc }

/-! ## Errors -/

inductive Piece
  | text (s : String)
  /-- `%s`. -/
  | plain (s : Bytes)
  /-- `%q`. -/
  | quoted (s : Bytes)
  deriving DecidableEq

/-- `Error`, through what its message is formatted from. -/
structure Error where
  pieces : List Piece
  deriving DecidableEq

def Error.text (s : String) : Error := ⟨[.text s]⟩

/-- An error under what it is about. -/
def Error.under (s : String) (e : Error) : Error := ⟨.text s :: e.pieces⟩

/-! ## Memory -/

/-- An access to the bytes of the stream. -/
structure Access where
  offset : Int
  size : Int
  deriving DecidableEq

/-- A computation of the codec. -/
abbrev Go := Traced Access Error

/-- `buf[offset : offset+size]`, read. -/
def bytesAt (buf : Bytes) (offset size : Int) : Go Bytes :=
  if 0 ≤ offset ∧ 0 ≤ size ∧ offset + size ≤ buf.length then
    ⟨[⟨offset, size⟩], .ok ((buf.drop offset.toNat).take size.toNat)⟩
  else .trap

/-- `binary.LittleEndian.Uint32(buf[offset:])`. -/
def uint32At (buf : Bytes) (offset : Int) : Go Int := do
  let bytes ← bytesAt buf offset 4
  return leValue bytes

/-- `binary.LittleEndian.Uint64(buf[offset:])`. -/
def uint64At (buf : Bytes) (offset : Int) : Go Int := do
  let bytes ← bytesAt buf offset 8
  return leValue bytes

/-! ## FlatBuffers -/

/-- `fbBuf`: a slice of the stream's bytes. -/
structure FbBuf where
  buf : Bytes
  base : Int
  len : Int

/-- `buf[start:stop]`. -/
def slice (buf : Bytes) (start stop : Int) : Go FbBuf :=
  if 0 ≤ start ∧ start ≤ stop ∧ stop ≤ buf.length then pure ⟨buf, start, stop - start⟩ else .trap

namespace FbBuf

/-- An access through the slice. -/
def read (b : FbBuf) (off size : Int) : Go Bytes :=
  if 0 ≤ off ∧ 0 ≤ size ∧ off + size ≤ b.len then bytesAt b.buf (b.base + off) size else .trap

def bounds (b : FbBuf) (off n : Int) : Go Unit :=
  .refuseIf (off < 0 ∨ n < 0 ∨ int (off + n) > b.len)
    (.text s!"read of {n} bytes at {off} exceeds {b.len}-byte metadata")

def uint16 (b : FbBuf) (off : Int) : Go Int := do
  let bytes ← b.read off 2
  return leValue bytes

def u8 (b : FbBuf) (off : Int) : Go Int := do
  b.bounds off 1
  let bytes ← b.read off 1
  return leValue bytes

def u32 (b : FbBuf) (off : Int) : Go Int := do
  b.bounds off 4
  let bytes ← b.read off 4
  return leValue bytes

def i64 (b : FbBuf) (off : Int) : Go Int := do
  b.bounds off 8
  let bytes ← b.read off 8
  return int (leValue bytes)

end FbBuf

structure FbTable where
  buf : FbBuf
  pos : Int
  vt : Int
  vtLen : Int

/-- The table header at a position: a signed offset back to its vtable. -/
def FbBuf.table (b : FbBuf) (pos : Int) : Go FbTable := do
  let soff ← (b.u32 pos).mapError (.under s!"table at {pos}: ")
  let vt := int (pos - int32 soff)
  (b.bounds vt 4).mapError (.under s!"vtable of table at {pos}: ")
  let vtLen ← b.uint16 vt
  Traced.refuseIf (vtLen < 4) (Error.text s!"table at {pos} has a {vtLen}-byte vtable")
  (b.bounds vt vtLen).mapError (.under s!"vtable of table at {pos}: ")
  return { buf := b, pos, vt, vtLen }

def FbBuf.root (b : FbBuf) : Go FbTable := do
  let off ← b.u32 0
  b.table off

structure FbVector where
  buf : FbBuf
  start : Int
  count : Int

/-- `asLength`. -/
def asLength (v : Int) (what : String) : Go Int := do
  Traced.refuseIf (v < 0 ∨ v > 2 ^ 63 - 1) (Error.text s!"{what} is {v}, which is not a usable length")
  return v

namespace FbTable

/-- The field's offset from the table, or 0 where it is absent. -/
def slot (t : FbTable) (id : Nat) : Go Int :=
  let off : Int := 4 + id * 2
  if off + 2 > t.vtLen then pure 0 else t.buf.uint16 (int (t.vt + off))

def has (t : FbTable) (id : Nat) : Go Bool := do
  let slot ← t.slot id
  return slot ≠ 0

def u8 (t : FbTable) (id : Nat) (default : Int) : Go Int := do
  let slot ← t.slot id
  if slot = 0 then pure default else t.buf.u8 (int (t.pos + slot))

def i64 (t : FbTable) (id : Nat) (default : Int) : Go Int := do
  let slot ← t.slot id
  if slot = 0 then pure default else t.buf.i64 (int (t.pos + slot))

/-- The position that the uoffset at `at` refers to. -/
def deref (b : FbBuf) (position : Int) : Go Int := do
  let off ← b.u32 position
  return int (position + off)

def child (t : FbTable) (id : Nat) : Go (Option FbTable) := do
  let slot ← t.slot id
  if slot = 0 then pure none
  else do
    let pos ← deref t.buf (int (t.pos + slot))
    let child ← t.buf.table pos
    return some child

def str (t : FbTable) (id : Nat) : Go (Option Bytes) := do
  let slot ← t.slot id
  if slot = 0 then pure none
  else do
    let head ← deref t.buf (int (t.pos + slot))
    let n ← t.buf.u32 head
    t.buf.bounds (int (head + 4)) n
    let bytes ← t.buf.read (int (head + 4)) n
    return some bytes

def vector (t : FbTable) (id : Nat) : Go (Option FbVector) := do
  let slot ← t.slot id
  if slot = 0 then pure none
  else do
    let head ← deref t.buf (int (t.pos + slot))
    let n ← t.buf.u32 head
    let count ← asLength n "vector length"
    let follow := int (t.buf.len - int (head + 4))
    Traced.refuseIf (count > follow.tdiv 4) (Error.text
      s!"vector at {head} declares {count} elements, {follow} bytes of metadata follow it")
    return some { buf := t.buf, start := int (head + 4), count }

end FbTable

/-- A buffer of the body, at its offset in the stream. -/
structure Span where
  off : Int
  len : Int
  deriving DecidableEq

namespace FbVector

/-- Element `i` of a vector of tables. -/
def table (v : FbVector) (i : Int) : Go FbTable := do
  let pos ← FbTable.deref v.buf (int (v.start + i * 4))
  v.buf.table pos

/-- The position of inline element `i`. -/
def inline (v : FbVector) (i size : Int) : Go Int := do
  let position := int (v.start + int (i * size))
  Traced.refuseIf (i < 0 ∨ i ≥ v.count)
    (Error.text s!"element {i} is out of range for a {v.count}-element vector")
  v.buf.bounds position size
  return position

def bufferSize : Int := 16

/-- Buffer `i` of a record batch, which is relative to the message's body. -/
def buffer (v : FbVector) (i body bodyLen : Int) : Go Span := do
  let position ← v.inline i bufferSize
  let off ← v.buf.i64 position
  let length ← v.buf.i64 (int (position + 8))
  let stop := int (off + length)
  Traced.refuseIf (off < 0 ∨ length < 0 ∨ off > bodyLen ∨ length > int (bodyLen - off))
    (Error.text s!"buffer {i} spans [{off},{stop}) of a {bodyLen}-byte body")
  return { off := int (body + off), len := length }

end FbVector

/-! ## Message framing -/

def continuation : Int := 0xFFFFFFFF

def headerSchema : Int := 1
def headerDictionary : Int := 2
def headerRecordBatch : Int := 3

def typeInt : Int := 2
def typeFloat : Int := 3
def typeUtf8 : Int := 5
def typeBool : Int := 6

def fieldNodeSize : Int := 16

def componentKey : Bytes := "__saci_component".toUTF8.data.toList

/-- `(n + 7) & ^7`. -/
def align8 (n : Int) : Int :=
  let m := int (n + 7)
  m - m % 8

structure Message where
  root : FbTable
  headerType : Int
  /-- The offset of the body in the stream. -/
  body : Int
  bodyLen : Int
  next : Int

/-- `message`, none of which is there at the end-of-stream marker. -/
def message (buf : Bytes) (pos limit : Int) : Go (Option Message) := do
  Traced.refuseIf (int (pos + 8) > limit) (Error.text s!"truncated message prefix at offset {pos}")
  let word ← uint32At buf pos
  Traced.refuseIf (word ≠ continuation)
    (Error.text s!"offset {pos} is not an IPC message: continuation marker missing")
  let metaLen ← uint32At buf (int (pos + 4))
  if metaLen = 0 then pure none
  else do
    let start := int (pos + 8)
    let body := int (start + metaLen)
    let remain := int (int (limit - pos) - 8)
    Traced.refuseIf (metaLen < 0 ∨ body > limit) (Error.text
      s!"message at offset {pos} declares {metaLen} metadata bytes, {remain} remain")
    let fb ← slice buf start body
    let root ← fb.root.mapError (.under s!"message at offset {pos}: ")
    let headerType ← (root.u8 1 0).mapError (.under s!"message at offset {pos} header_type: ")
    let rawBodyLen ← (root.i64 3 0).mapError (.under s!"message at offset {pos} bodyLength: ")
    let bodyLen ← asLength rawBodyLen "bodyLength"
    let left := int (limit - body)
    Traced.refuseIf (int (body + bodyLen) > limit)
      (Error.text s!"message at offset {pos} declares a {bodyLen}-byte body, {left} remain")
    return some { root, headerType, body, bodyLen, next := int (body + align8 bodyLen) }

/-! ## Segments -/

/-- One embedded Arrow IPC stream. -/
structure Segment where
  start : Int
  stop : Int
  deriving DecidableEq

structure Stream where
  buf : Bytes
  segments : List Segment

/-- The loop of `Parse`. It goes on by at least four bytes, so that it ends by itself. -/
def segmentsFrom (buf : Bytes) : Nat → Int → Go (List Segment × Int)
  | 0, _ => .trap
  | fuel + 1, pos => do
    Traced.refuseIf (int (pos + 4) > buf.length) (Error.text
      s!"truncated stream: no segment length at offset {pos} of {buf.length} bytes")
    let segLen ← uint32At buf pos
    let start := int (pos + 4)
    if segLen = 0 then pure ([], start)
    else do
      let stop := int (start + segLen)
      let remain := int (buf.length - start)
      Traced.refuseIf (segLen < 0 ∨ stop > buf.length) (Error.text
        s!"truncated stream: segment at offset {pos} declares {segLen} bytes, {remain} remain")
      let (segments, last) ← segmentsFrom buf fuel stop
      return ({ start, stop } :: segments, last)

/-- `Parse`. -/
def parse (input : Input) : Go Stream := do
  let buf := input.val
  let (segments, pos) ← segmentsFrom buf (buf.length + 1) 0
  Traced.refuseIf (segments = []) (Error.text "stream declares no segments")
  let surplus := int (buf.length - pos)
  Traced.refuseIf (pos ≠ buf.length) (Error.text s!"{surplus} bytes trail the stream terminator")
  return { buf, segments }

structure SegmentSchema where
  msg : Message
  header : FbTable
  component : Bytes

/-- The loop of `componentOf`, over the entries from `i` on. -/
def componentFrom (entries : FbVector) (i : Nat) : Nat → Go Bytes
  | 0 => .refuse ⟨[.text "schema custom_metadata has no ", .quoted componentKey, .text " key"]⟩
  | remaining + 1 => do
    let kv ← (entries.table i).mapError (.under s!"custom_metadata[{i}]: ")
    let key ← (kv.str 0).mapError (.under s!"custom_metadata[{i}] key: ")
    if key.getD [] ≠ componentKey then componentFrom entries (i + 1) remaining
    else do
      let value ← (kv.str 1).mapError fun e => ⟨.plain componentKey :: .text " value: " :: e.pieces⟩
      match value with
      | none => .refuse ⟨[.plain componentKey, .text " metadata entry has no value"]⟩
      | some value => pure value

def componentOf (schema : FbTable) : Go Bytes := do
  let entries ← schema.vector 2
  match entries with
  | none =>
    .refuse ⟨[.text "schema has no custom_metadata, so no ", .quoted componentKey, .text " label"]⟩
  | some entries => componentFrom entries 0 entries.count.toNat

/-- `schemaOf`. -/
def schemaOf (buf : Bytes) (i : Nat) (seg : Segment) : Go SegmentSchema := do
  let msg ← (message buf seg.start seg.stop).mapError (.under s!"segment {i}: ")
  match msg with
  | none => .refuse (.text s!"segment {i} is empty")
  | some msg => do
    Traced.refuseIf (msg.headerType ≠ headerSchema) (Error.text
      s!"segment {i} opens with header_type {msg.headerType}, want {headerSchema} (Schema)")
    let header ← (msg.root.child 2).mapError (.under s!"segment {i} schema header: ")
    match header with
    | none => .refuse (.text s!"segment {i} schema message carries no header")
    | some header => do
      let component ← (componentOf header).mapError (.under s!"segment {i}: ")
      return { msg, header, component }

/-! ## Batches -/

structure Field where
  name : Bytes
  typ : Int
  validity : Span
  /-- Utf8 only. -/
  offsets : Span
  values : Span
  deriving DecidableEq

structure Batch where
  rows : Int
  component : Bytes
  fields : List Field
  deriving DecidableEq

/-- `asRowCount`. -/
def asRowCount (v : Int) : Go Int := do
  Traced.refuseIf (v < 0 ∨ v > 2 ^ 31 - 1)
    (Error.text s!"record batch length is {v}, which is not a usable length")
  return v

/-- Field `i` of a schema, before its buffers are known. -/
def schemaField (vec : FbVector) (i : Nat) : Go Field := do
  let t ← (vec.table i).mapError (.under s!"schema field {i}: ")
  let name ← (t.str 0).mapError (.under s!"schema field {i} name: ")
  match name with
  | none => .refuse (.text s!"schema field {i} has no name")
  | some name => do
    let typ ← (t.u8 2 0).mapError fun e =>
      ⟨.text "schema field " :: .quoted name :: .text " type_type: " :: e.pieces⟩
    return { name, typ, validity := ⟨0, 0⟩, offsets := ⟨0, 0⟩, values := ⟨0, 0⟩ }

def schemaFieldsOf (schema : FbTable) : Go (List Field) := do
  let vec ← (schema.vector 1).mapError (.under "schema fields: ")
  match vec with
  | none => .refuse (.text "schema carries no fields vector")
  | some vec => Traced.forEach (schemaField vec) (List.range vec.count.toNat)

/-- `endOfSegment`. -/
def endOfSegment (buf : Bytes) (pos stop : Int) : Go Unit :=
  if pos = stop then pure ()
  else do
    let left := int (stop - pos)
    Traced.refuseIf (left < 8) (Error.text <|
      s!"segment carries {left} bytes after its record batch, too few for an end-of-stream marker, " ++
      "want one Schema and one RecordBatch")
    let tail ← message buf pos stop
    match tail with
    | some tail =>
      .refuse (.text <|
        s!"segment carries a third message with header_type {tail.headerType}, " ++
        "want one Schema and one RecordBatch")
    | none =>
      let surplus := int (left - 8)
      .refuseIf (int (pos + 8) ≠ stop) (.text <|
        s!"segment carries {surplus} bytes after its end-of-stream marker, " ++
        "want one Schema and one RecordBatch")

/-- The `take` of `batch`: buffer slot `next`. -/
def takeBuffer (buffers : FbVector) (rb : Message) (next : Int) (name : Bytes) : Go Span := do
  Traced.refuseIf (next ≥ buffers.count) (Error.mk
    [.text "field ", .quoted name,
      .text s!" needs buffer slot {next}, record batch has {buffers.count}"])
  buffers.buffer next rb.body rb.bodyLen

/-- The buffers of one field from slot `next` on, and the slot after them. -/
def resolveField (buffers : FbVector) (rb : Message) (next : Int) (f : Field) : Go (Field × Int) := do
  let validity ← takeBuffer buffers rb next f.name
  if f.typ = typeInt ∨ f.typ = typeFloat ∨ f.typ = typeBool then do
    let values ← takeBuffer buffers rb (next + 1) f.name
    return ({ f with validity, values }, next + 2)
  else if f.typ = typeUtf8 then do
    let offsets ← takeBuffer buffers rb (next + 1) f.name
    let values ← takeBuffer buffers rb (next + 2) f.name
    return ({ f with validity, offsets, values }, next + 3)
  else
    .refuse ⟨[.text "field ", .quoted f.name, .text s!" has unsupported type_type {f.typ}"]⟩

/-- The walk over the schema that assigns the buffer slots. -/
def resolveFields (buffers : FbVector) (rb : Message) : Int → List Field → Go (List Field × Int)
  | next, [] => pure ([], next)
  | next, f :: fs => do
    let (f, next) ← resolveField buffers rb next f
    let (fs, next) ← resolveFields buffers rb next fs
    return (f :: fs, next)

/-- The node vector has one node for each field. -/
def checkNodes (header : FbTable) (fields : List Field) : Go Unit := do
  let nodes ← (header.vector 1).mapError (.under "record batch nodes: ")
  let count : Int := (nodes.map FbVector.count).getD 0
  Traced.refuseIf (nodes.isNone ∨ count ≠ fields.length) (Error.text
    s!"record batch has {count} field nodes for {fields.length} schema fields")
  match nodes with
  | none => pure ()
  | some nodes => do
    -- The position is asked for first, and its refusal is looked at only where there are nodes.
    if nodes.count > 0 then do
      let _ ← (nodes.inline (int (nodes.count - 1)) fieldNodeSize).mapError
        (.under "record batch nodes: ")
      pure ()
    else pure ()

/-- The record batch of a segment, whose columns are still to be resolved. -/
def recordBatch (buf : Bytes) (seg : Segment) (sc : SegmentSchema) : Go (Message × FbTable) := do
  let rb ← message buf sc.msg.next seg.stop
  match rb with
  | none => .refuse (.text "segment ends after its schema, with no record batch")
  | some rb => do
    Traced.refuseIf (rb.headerType = headerDictionary)
      (Error.text "segment carries a dictionary batch, which this codec does not support")
    Traced.refuseIf (rb.headerType ≠ headerRecordBatch) (Error.text
      s!"second message has header_type {rb.headerType}, want {headerRecordBatch} (RecordBatch)")
    let header ← (rb.root.child 2).mapError (.under "record batch header: ")
    match header with
    | none => .refuse (.text "record batch message carries no header")
    | some header => return (rb, header)

/-- `batch`. -/
def batch (buf : Bytes) (seg : Segment) (sc : SegmentSchema) : Go Batch := do
  let fields ← schemaFieldsOf sc.header
  let (rb, header) ← recordBatch buf seg sc
  let compressed ← header.has 3
  Traced.refuseIf (compressed = true)
    (Error.text "record batch body is compressed, which this codec does not support")
  endOfSegment buf rb.next seg.stop
  let rawRows ← (header.i64 0 0).mapError (.under "record batch length: ")
  let rows ← asRowCount rawRows
  checkNodes header fields
  let buffers ← (header.vector 2).mapError (.under "record batch buffers: ")
  match buffers with
  | none => .refuse (.text "record batch carries no buffers vector")
  | some buffers => do
    let (fields, next) ← resolveFields buffers rb 0 fields
    Traced.refuseIf (next ≠ buffers.count) (Error.text
      s!"schema consumes {next} buffer slots, record batch carries {buffers.count}")
    return { rows, component := sc.component, fields }

/-! ## The stream's own calls -/

/-- A computation over a stream: every access belongs to a segment. -/
abbrev OverStream := Traced (Segment × Access) Error

/-- What is touched on behalf of a segment. -/
def inSegment {α : Type} (seg : Segment) (x : Go α) : OverStream α := x.relabel (seg, ·)

/-- `Components`. -/
def components (s : Stream) : OverStream (List Bytes) :=
  Traced.forEach (fun (seg, i) => do
    let sc ← inSegment seg (schemaOf s.buf i seg)
    return sc.component) s.segments.zipIdx

/-- The loop of `Component`, up to the segment of that name. -/
def segmentOf (buf name : Bytes) : List (Segment × Nat) → OverStream (Segment × Nat × SegmentSchema)
  | [] => .refuse ⟨[.text "no segment declares component ", .quoted name]⟩
  | (seg, i) :: rest => do
    let sc ← inSegment seg (schemaOf buf i seg)
    if sc.component ≠ name then segmentOf buf name rest else pure (seg, i, sc)

/-- `Component`, with the segment that the batch is in. -/
def component (s : Stream) (name : Bytes) : OverStream (Segment × Batch) := do
  let (seg, i, sc) ← segmentOf s.buf name s.segments.zipIdx
  let b ← inSegment seg <| (batch s.buf seg sc).mapError fun e =>
    ⟨.text s!"segment {i} (" :: .plain name :: .text "): " :: e.pieces⟩
  return (seg, b)

/-- A segment that can be passed on as it is. -/
structure RawSegment where
  component : Bytes
  rows : Int
  ipc : FbBuf

/-- `segmentRows`. -/
def segmentRows (buf : Bytes) (seg : Segment) (sc : SegmentSchema) : Go Int := do
  let rb ← message buf sc.msg.next seg.stop
  match rb with
  | none => .refuse (.text "segment ends after its schema, with no record batch")
  | some rb => do
    Traced.refuseIf (rb.headerType ≠ headerRecordBatch) (Error.text
      s!"second message has header_type {rb.headerType}, want {headerRecordBatch} (RecordBatch)")
    let header ← (rb.root.child 2).mapError (.under "record batch header: ")
    match header with
    | none => .refuse (.text "record batch message carries no header")
    | some header => do
      let raw ← header.i64 0 0
      asRowCount raw

def rawSegment (buf : Bytes) (seg : Segment) (i : Nat) : Go RawSegment := do
  let sc ← schemaOf buf i seg
  let rows ← (segmentRows buf seg sc).mapError fun e =>
    ⟨.text s!"segment {i} (" :: .plain sc.component :: .text "): " :: e.pieces⟩
  let ipc ← slice buf seg.start seg.stop
  return { component := sc.component, rows, ipc }

/-- `RawSegments`. -/
def rawSegments (s : Stream) : OverStream (List RawSegment) :=
  Traced.forEach (fun (seg, i) => inSegment seg (rawSegment s.buf seg i)) s.segments.zipIdx

end Saci.GoSdk
