import Saci.Core.RecordBatch

/-!
# The `pgoutput` messages

The decoder of one message of protocol version 1
(`saci-connector-postgresql/src/source/pgoutput.rs`): big-endian integers, NUL-terminated strings,
and the table of relations the changes refer to.
-/

namespace Saci.Pgoutput

/-- One column of a `Relation` message. -/
structure RelationColumn where
  name : String
  typeOid : Nat
  deriving DecidableEq

structure Relation where
  nspace : String
  name : String
  columns : List RelationColumn
  deriving DecidableEq

def Relation.qualified (relation : Relation) : String := s!"{relation.nspace}.{relation.name}"

/-- One column of a tuple. -/
inductive TupleValue
  | null
  | unchanged
  | binary (bytes : Bytes)
  | text (bytes : Bytes)
  deriving DecidableEq

inductive Operation
  | insert
  | update
  | delete
  deriving DecidableEq

def Operation.asStr : Operation → String
  | .insert => "I"
  | .update => "U"
  | .delete => "D"

inductive Message
  | begin (commitTs : Int)
  | commit (endLsn : Int)
  | relation (relId : Nat)
  | change (relId : Nat) (operation : Operation) (tuple : List TupleValue)
  | truncate (relations : Nat)
  | metadata
  deriving DecidableEq

/-! ## The cursor over one message -/

/-- The bytes of a message, and the offset `at` which it is read. -/
structure Reader where
  raw : Bytes
  pos : Nat

abbrev ReadM := StateT Reader (Except SaciError)

/-- `as char`. -/
def asChar (byte : UInt8) : Char := Char.ofNat byte.toNat

/-- `Debug` of a byte read as a character. -/
def debugChar (byte : UInt8) : String :=
  match byte.toNat with
  | 0 => "'\\0'"
  | 9 => "'\\t'"
  | 10 => "'\\n'"
  | 13 => "'\\r'"
  | 39 => "'\\''"
  | 92 => "'\\\\'"
  | n =>
    if n < 32 ∨ (127 ≤ n ∧ n ≤ 160) ∨ n = 173 then
      "'\\u\x7b" ++ String.ofList (Nat.toDigits 16 n) ++ "\x7d'"
    else s!"'{Char.ofNat n}'"

/-- `{:02X}`. -/
def upperHex (byte : UInt8) : String :=
  String.ofList <| (if byte.toNat < 16 then ['0'] else []) ++
    (Nat.toDigits 16 byte.toNat).map Char.toUpper

namespace Reader

def remaining (reader : Reader) : Nat := reader.raw.length - reader.pos

def truncated (reader : Reader) (wanted : Nat) : SaciError :=
  .generic <| s!"pgoutput: message is truncated: wanted {wanted} byte(s) at offset {reader.pos}, " ++
    s!"{reader.remaining} remain"

def take (n : Nat) : ReadM Bytes := do
  let reader ← get
  if reader.raw.length < reader.pos + n then throw (reader.truncated n)
  set { reader with pos := reader.pos + n }
  return (reader.raw.drop reader.pos).take n

/-- `u8`. -/
def byte : ReadM UInt8 := do return (← take 1).headD 0

/-- The two's complement reading of so many bytes. -/
def signedValue (width n : Nat) : Int := if 2 * n < 256 ^ width then n else n - 256 ^ width

/-- A signed integer of so many bytes: `i16`, `i32` and `i64`. -/
def signed (width : Nat) : ReadM Int := do return signedValue width (beValue (← take width))

/-- `u32`. -/
def u32 : ReadM Nat := do return beValue (← take 4)

/-- A NUL-terminated string. The detail of a UTF-8 error is left out. -/
def cstring : ReadM String := do
  let reader ← get
  let rest := reader.raw.drop reader.pos
  match rest.findIdx? (· = 0) with
  | none => throw (SaciError.generic s!"pgoutput: unterminated string at offset {reader.pos}")
  | some length =>
    match String.fromUTF8? ⟨(rest.take length).toArray⟩ with
    | none => throw (SaciError.generic s!"pgoutput: string at offset {reader.pos} is not valid UTF-8")
    | some text =>
      set { reader with pos := reader.pos + length + 1 }
      return text

def tupleValue (index : Nat) : ReadM TupleValue := do
  let kind ← byte
  match asChar kind with
  | 'n' => return .null
  | 'u' => return .unchanged
  | 't' => return .text (← value)
  | 'b' => return .binary (← value)
  | _ =>
    throw <| SaciError.generic <|
      s!"pgoutput: TupleData column {index} has marker {debugChar kind} (0x{upperHex kind})"
where
  value : ReadM Bytes := do
    let len ← signed 4
    if len < 0 then throw (SaciError.generic s!"pgoutput: TupleData column {index} declares length {len}")
    take len.toNat

/-- The values of a tuple from a column on. -/
def tupleValues (index : Nat) : Nat → ReadM (List TupleValue)
  | 0 => return []
  | count + 1 => do return (← tupleValue index) :: (← tupleValues (index + 1) count)

def tuple : ReadM (List TupleValue) := do
  let ncols ← signed 2
  if ncols < 0 then throw (SaciError.generic s!"pgoutput: TupleData declares {ncols} columns")
  tupleValues 0 ncols.toNat

/-- The columns of a `Relation` message. -/
def relationColumns : Nat → ReadM (List RelationColumn)
  | 0 => return []
  | count + 1 => do
    let _flags ← byte
    let name ← cstring
    let typeOid ← u32
    let _typeModifier ← signed 4
    return ⟨name, typeOid⟩ :: (← relationColumns count)

/-- The relations of a `Truncate` message. -/
def skipRelations : Nat → ReadM Unit
  | 0 => return ()
  | count + 1 => do
    let _relId ← u32
    skipRelations count

end Reader

/-! ## The decoder -/

/-- The relations that were declared, the newest first. -/
structure Decoder where
  relations : List (Nat × Relation)

namespace Decoder
open Reader

/-- `Decoder::reset`. -/
def empty : Decoder := ⟨[]⟩

def relation (decoder : Decoder) (relId : Nat) : Option Relation := decoder.relations.lookup relId

/-- `Decoder::decode` after the tag, with the table it leaves. -/
def body (decoder : Decoder) (tag : UInt8) : ReadM (Message × Decoder) := do
  match asChar tag with
  | 'B' =>
    let _finalLsn ← signed 8
    let commitTs ← signed 8
    let _xid ← signed 4
    return (.begin commitTs, decoder)
  | 'C' =>
    let _flags ← byte
    let _commitLsn ← signed 8
    let endLsn ← signed 8
    let _commitTs ← signed 8
    return (.commit endLsn, decoder)
  | 'R' =>
    let relId ← u32
    let nspace ← cstring
    let name ← cstring
    let _replicaIdentity ← byte
    let ncols ← signed 2
    if ncols < 0 then
      throw <| SaciError.generic <|
        s!"pgoutput: Relation message for '{nspace}.{name}' declares {ncols} columns"
    let columns ← relationColumns ncols.toNat
    let relation := { nspace := if nspace.isEmpty then "public" else nspace, name, columns }
    return (.relation relId, ⟨(relId, relation) :: decoder.relations⟩)
  | 'Y' =>
    let _typeId ← u32
    let _nspace ← cstring
    let _name ← cstring
    return (.metadata, decoder)
  | 'O' =>
    let _commitLsn ← signed 8
    let _origin ← cstring
    return (.metadata, decoder)
  | 'I' =>
    let relId ← u32
    let marker ← byte
    if asChar marker ≠ 'N' then
      throw <| SaciError.generic <|
        s!"pgoutput: Insert message has tuple marker {debugChar marker}, expected 'N'"
    return (.change relId .insert (← tuple), decoder)
  | 'U' =>
    let relId ← u32
    let marker ← newMarker
    if asChar marker ≠ 'N' then
      throw <| SaciError.generic <|
        s!"pgoutput: Update message has tuple marker {debugChar marker}, expected 'N'"
    return (.change relId .update (← tuple), decoder)
  | 'D' =>
    let relId ← u32
    let marker ← byte
    if asChar marker ≠ 'K' ∧ asChar marker ≠ 'O' then
      throw <| SaciError.generic <|
        s!"pgoutput: Delete message has tuple marker {debugChar marker}, expected 'K' or 'O'"
    return (.change relId .delete (← tuple), decoder)
  | 'T' =>
    let nrels ← signed 4
    let _flags ← byte
    if nrels < 0 then
      throw (SaciError.generic s!"pgoutput: Truncate message declares {nrels} relations")
    skipRelations nrels.toNat
    return (.truncate nrels.toNat, decoder)
  | _ =>
    throw <| SaciError.generic <|
      s!"pgoutput: unknown message tag {debugChar tag} (0x{upperHex tag}); this connector " ++
      "requests proto_version 1 without streaming, two-phase commit or logical messages"
where
  /-- The marker of the new tuple, past the old one. -/
  newMarker : ReadM UInt8 := do
    let marker ← byte
    if asChar marker = 'K' ∨ asChar marker = 'O' then
      let _old ← tuple
      byte
    else return marker

/-- `Decoder::decode`, with the table it leaves. -/
def decode (decoder : Decoder) (raw : Bytes) : SaciResult (Message × Decoder) := do
  let (tag, reader) ← byte.run ⟨raw, 0⟩
  let (result, reader) ← (body decoder tag).run reader
  if 0 < reader.remaining then
    throw <| SaciError.generic <|
      s!"pgoutput: message tag {debugChar tag} left {reader.remaining} undecoded byte(s)"
  return result

end Decoder
end Saci.Pgoutput
