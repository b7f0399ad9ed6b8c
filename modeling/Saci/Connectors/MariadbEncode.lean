import Saci.Core.Error
import Saci.Library.Framing

/-!
# Statement parameters of the MariaDB connector

`saci-connector-mariadb/src/encode.rs`: the arrays of a batch, the readers that `resolve_columns` makes of
them, and the parameters that a row becomes. A float is its bit pattern, a decimal its unscaled integer.
-/

namespace Saci.Mariadb.Sink

/-- `MariadbFieldType`. -/
inductive FieldType
  | boolean
  | int8 | int16 | int32 | int64
  | uint8 | uint16 | uint32 | uint64
  | float32 | float64
  | decimal128
  | utf8 | json | binary
  | date32 | time64Micros | timestampMicros | timestampMicrosUtc
  deriving DecidableEq, Repr

namespace FieldType

/-- `as_str`. -/
def asStr : FieldType → String
  | boolean => "boolean"
  | int8 => "int8"
  | int16 => "int16"
  | int32 => "int32"
  | int64 => "int64"
  | uint8 => "uint8"
  | uint16 => "uint16"
  | uint32 => "uint32"
  | uint64 => "uint64"
  | float32 => "float32"
  | float64 => "float64"
  | decimal128 => "decimal128"
  | utf8 => "utf8"
  | json => "json"
  | binary => "binary"
  | date32 => "date32"
  | time64Micros => "time64_micros"
  | timestampMicros => "timestamp_micros"
  | timestampMicrosUtc => "timestamp_micros_utc"

end FieldType

structure FieldSpec where
  name : String
  ty : FieldType
  precision : Option Nat
  scale : Option Int
  deriving DecidableEq

/-- `is_reserved`. -/
def FieldSpec.isReserved (spec : FieldSpec) : Bool := spec.name.startsWith "__"

/-- `decimal_params`. -/
def FieldSpec.decimalParams (spec : FieldSpec) : SaciResult (Nat × Int) :=
  match spec.precision, spec.scale with
  | none, _ => .error (.configuration s!"field '{spec.name}': type \"decimal128\" requires 'precision'")
  | _, none => .error (.configuration s!"field '{spec.name}': type \"decimal128\" requires 'scale'")
  | some precision, some scale =>
    if precision = 0 ∨ 38 < precision then
      .error <| .configuration <|
        s!"field '{spec.name}': decimal128 precision must be within 1..=38, got {precision}"
    else if scale < 0 ∨ (precision : Int) < scale then
      .error <| .configuration <|
        s!"field '{spec.name}': decimal128 scale must be within 0..=precision ({precision}), got {scale}"
    else .ok (precision, scale)

/-! ## Arrays -/

inductive Width
  | w8 | w16 | w32 | w64
  deriving DecidableEq

/-- A `Vec<u8>`: its length is a machine word. -/
abbrev Blob := { v : Bytes // v.length < 2 ^ 64 }

/-- A `String`. -/
abbrev Text := { v : String // v.utf8ByteSize < 2 ^ 64 }

abbrev I128 := { v : Int // v.natAbs ≤ 2 ^ 127 }

abbrev I8 := { v : Int // v.natAbs ≤ 2 ^ 7 }

/-- An array: a value for each row, or none where it is null. -/
inductive Column
  | boolean (values : List (Option Bool))
  | signed (width : Width) (values : List (Option Int64))
  | unsigned (width : Width) (values : List (Option UInt64))
  | float32 (values : List (Option UInt32))
  | float64 (values : List (Option UInt64))
  | decimal128 (precision : Nat) (scale : I8) (values : List (Option I128))
  | utf8 (values : List (Option Text))
  | binary (values : List (Option Blob))
  | date32 (values : List (Option Int32))
  | time64Micros (values : List (Option Int64))
  | timestampMicros (timezone : Option String) (values : List (Option Int64))
  /-- An array of a type that no declared type implies. -/
  | other (dataType : String)

/-- The name of the array's data type. -/
def Column.dataType : Column → String
  | .boolean _ => "Boolean"
  | .signed .w8 _ => "Int8"
  | .signed .w16 _ => "Int16"
  | .signed .w32 _ => "Int32"
  | .signed .w64 _ => "Int64"
  | .unsigned .w8 _ => "UInt8"
  | .unsigned .w16 _ => "UInt16"
  | .unsigned .w32 _ => "UInt32"
  | .unsigned .w64 _ => "UInt64"
  | .float32 _ => "Float32"
  | .float64 _ => "Float64"
  | .decimal128 precision scale _ => s!"Decimal128({precision}, {scale.val})"
  | .utf8 _ => "Utf8"
  | .binary _ => "Binary"
  | .date32 _ => "Date32"
  | .time64Micros _ => "Time64(Microsecond)"
  | .timestampMicros timezone _ => s!"Timestamp(Microsecond, {timezone})"
  | .other dataType => dataType

structure Batch where
  columns : List (String × Column)
  numRows : Nat

/-- `column_by_name`. -/
def Batch.columnByName (batch : Batch) (name : String) : Option Column :=
  (batch.columns.find? fun column => column.1 = name).map Prod.snd

/-! ## Parameters -/

/-- A statement parameter. -/
inductive Value
  | null
  | bytes (v : Blob)
  | int (v : Int64)
  | uint (v : UInt64)
  | float (bits : UInt32)
  | double (bits : UInt64)
  | date (year : UInt16) (month day hour minute second : UInt8) (micros : UInt32)
  | time (negative : Bool) (days : UInt32) (hours minutes seconds : UInt8) (micros : UInt32)
  deriving DecidableEq

def microsPerSecond : Int := 1000000

def microsPerMinute : Int := 60 * microsPerSecond

def microsPerHour : Int := 60 * microsPerMinute

def microsPerDay : Int := 24 * microsPerHour

/-- `civil_from_days`. -/
def civilFromDays (days : Int) : Int × Nat × Nat :=
  -- a 400-year era starts in March, which puts the leap day last
  let z := days + 719468
  let era := z / 146097
  let dayOfEra := z % 146097
  let yearOfEra := (dayOfEra - dayOfEra / 1460 + dayOfEra / 36524 - dayOfEra / 146096) / 365
  let year := yearOfEra + era * 400
  let dayOfYear := dayOfEra - (365 * yearOfEra + yearOfEra / 4 - yearOfEra / 100)
  let shiftedMonth := (5 * dayOfYear + 2) / 153
  let day := dayOfYear - (153 * shiftedMonth + 2) / 5 + 1
  let month := if shiftedMonth < 10 then shiftedMonth + 3 else shiftedMonth - 9
  (if month ≤ 2 then year + 1 else year, month.toNat, day.toNat)

/-- The digits of a decimal with its point. -/
def pointed (digits : List Char) (value scale : Int) : List Char :=
  if scale ≤ 0 then digits ++ (if value ≠ 0 then List.replicate scale.natAbs '0' else [])
  else if scale.natAbs < digits.length then
    digits.take (digits.length - scale.natAbs) ++ '.' :: digits.drop (digits.length - scale.natAbs)
  else '0' :: '.' :: List.replicate (scale.natAbs - digits.length) '0' ++ digits

/-- `decimal_text`. -/
def decimalText (value scale : Int) : String :=
  String.ofList ((if value < 0 then ['-'] else []) ++ pointed value.natAbs.repr.toList value scale)

/-- `as_bytes`. -/
def Text.asBytes (text : Text) : Blob := ⟨text.val.toUTF8.data.toList, by simpa using text.property⟩

theorem length_pointed_le (digits : List Char) (value scale : Int) :
    (pointed digits value scale).length ≤ digits.length + scale.natAbs + 2 := by
  rw [pointed]
  split_ifs with hscale hvalue hsplit
  · simp
  · simp
    omega
  · simp
    omega
  · simp
    omega

theorem utf8ByteSize_ofList_le (chars : List Char) : (String.ofList chars).utf8ByteSize ≤ 4 * chars.length := by
  induction chars with
  | nil => simp
  | cons c chars ih =>
    have hc := c.utf8Size_le_four
    rw [String.ofList_cons, String.utf8ByteSize_append, String.utf8ByteSize_singleton, List.length_cons]
    omega

theorem utf8ByteSize_decimalText_lt (value : I128) (scale : I8) :
    (decimalText value scale).utf8ByteSize < 2 ^ 64 := by
  have hdigits : value.val.natAbs.repr.length ≤ 39 :=
    (Nat.length_repr_le_iff (by decide)).mpr (value.property.trans_lt (by decide))
  have hpointed := length_pointed_le value.val.natAbs.repr.toList value.val scale.val
  have hbytes := utf8ByteSize_ofList_le
    ((if value.val < 0 then ['-'] else []) ++ pointed value.val.natAbs.repr.toList value.val scale.val)
  have hsign : (if value.val < 0 then ['-'] else []).length ≤ 1 := by
    split_ifs
    · exact le_rfl
    · exact Nat.zero_le 1
  have hscale := scale.property
  rw [List.length_append] at hbytes
  rw [String.length_toList] at hpointed
  rw [decimalText]
  omega

/-- A decimal's text. -/
def decimalValue (value : I128) (scale : I8) : Text :=
  ⟨decimalText value scale, utf8ByteSize_decimalText_lt value scale⟩

structure ColumnReader where
  what : String
  name : String
  kind : Column

namespace ColumnReader

/-- `refuse`. -/
def refuse (reader : ColumnReader) (row : Nat) (detail : String) : SaciError :=
  .generic s!"{reader.what}: column '{reader.name}' row {row}: {detail}"

/-- `non_finite`. -/
def nonFinite (reader : ColumnReader) (row : Nat) (isNan isNegative : Bool) : SaciError :=
  let name := if isNan then "NaN" else if isNegative then "-inf" else "inf"
  reader.refuse row s!"{name} has no MariaDB or MySQL representation"

/-- `civil`. -/
def civil (reader : ColumnReader) (row : Nat) (days : Int) : SaciResult (UInt16 × UInt8 × UInt8) :=
  let (year, month, day) := civilFromDays days
  if 0 ≤ year ∧ year ≤ 9999 then .ok (.ofNat year.toNat, .ofNat month, .ofNat day)
  else .error (reader.refuse row s!"date {days} is outside the years 0000 to 9999 the servers store")

/-- The hours, minutes, seconds and microseconds of a time of day. -/
def clock (time : Int) : UInt8 × UInt8 × UInt8 × UInt32 :=
  (.ofNat (time / microsPerHour).toNat, .ofNat (time % microsPerHour / microsPerMinute).toNat,
    .ofNat (time % microsPerMinute / microsPerSecond).toNat, .ofNat (time % microsPerSecond).toNat)

/-- A value of an array, `NULL` where it is null. -/
def read {α : Type} (values : List (Option α)) (row : Nat) (body : α → SaciResult Value) : SaciResult Value :=
  match values.getD row none with
  | none => .ok .null
  | some v => body v

/-- `value`. -/
def value (reader : ColumnReader) (row : Nat) : SaciResult Value :=
  match reader.kind with
  | .boolean values => read values row fun v => .ok (.int (if v then 1 else 0))
  | .signed _ values => read values row fun v => .ok (.int v)
  | .unsigned _ values => read values row fun v => .ok (.uint v)
  | .float32 values => read values row fun v =>
    if v.toNat / 2 ^ 23 % 2 ^ 8 = 2 ^ 8 - 1 then
      .error (reader.nonFinite row (v.toNat % 2 ^ 23 ≠ 0) (2 ^ 31 ≤ v.toNat))
    else .ok (.float v)
  | .float64 values => read values row fun v =>
    if v.toNat / 2 ^ 52 % 2 ^ 11 = 2 ^ 11 - 1 then
      .error (reader.nonFinite row (v.toNat % 2 ^ 52 ≠ 0) (2 ^ 63 ≤ v.toNat))
    else .ok (.double v)
  | .decimal128 _ scale values => read values row fun v => .ok (.bytes (decimalValue v scale).asBytes)
  | .utf8 values => read values row fun v => .ok (.bytes v.asBytes)
  | .binary values => read values row fun v => .ok (.bytes v)
  | .date32 values => read values row fun v => do
    let (year, month, day) ← reader.civil row v.toInt
    return .date year month day 0 0 0 0
  | .time64Micros values => read values row fun v =>
    if 0 ≤ v.toInt ∧ v.toInt < microsPerDay then
      let (hour, minute, second, micros) := clock v.toInt
      .ok (.time false 0 hour minute second micros)
    else .error (reader.refuse row s!"time {v} is outside a time of day")
  | .timestampMicros _ values => read values row fun v => do
    let (year, month, day) ← reader.civil row (v.toInt / microsPerDay)
    let (hour, minute, second, micros) := clock (v.toInt % microsPerDay)
    return .date year month day hour minute second micros
  | .other _ => .ok .null

end ColumnReader

/-! ## Resolving the columns -/

/-- An array is of the type that the declared one implies. -/
def Column.isA : Column → FieldType → Bool
  | .boolean _, .boolean => true
  | .signed .w8 _, .int8 => true
  | .signed .w16 _, .int16 => true
  | .signed .w32 _, .int32 => true
  | .signed .w64 _, .int64 => true
  | .unsigned .w8 _, .uint8 => true
  | .unsigned .w16 _, .uint16 => true
  | .unsigned .w32 _, .uint32 => true
  | .unsigned .w64 _, .uint64 => true
  | .float32 _, .float32 => true
  | .float64 _, .float64 => true
  | .decimal128 _ _ _, .decimal128 => true
  | .utf8 _, .utf8 => true
  | .utf8 _, .json => true
  | .binary _, .binary => true
  | .date32 _, .date32 => true
  | .time64Micros _, .time64Micros => true
  | .timestampMicros _ _, .timestampMicros => true
  | .timestampMicros _ _, .timestampMicrosUtc => true
  | _, _ => false

/-- `reader_kind`. -/
def readerKind (what : String) (spec : FieldSpec) (array : Column) : SaciResult Column :=
  if array.isA spec.ty then
    match array with
    | .decimal128 _ scale _ => do
      let (_, declared) ← spec.decimalParams
      if scale.val ≠ declared then
        .error <| .generic <|
          s!"{what}: column '{spec.name}' is declared with scale {declared} but the batch holds " ++
          s!"a decimal128 of scale {scale.val}"
      else .ok array
    | _ => .ok array
  else
    .error <| .generic <|
      s!"{what}: column '{spec.name}' is declared type \"{spec.ty.asStr}\" but the batch holds {array.dataType}"

/-- `resolve_columns`. -/
def resolveColumns (what : String) (batch : Batch) (specs : List FieldSpec) : SaciResult (List ColumnReader) :=
  specs.mapM fun spec =>
    match batch.columnByName spec.name with
    | none =>
      .error <| .generic <|
        s!"{what}: batch has no column '{spec.name}'; the batch schema must match the declared schema_fields"
    | some array => do return ⟨what, spec.name, ← readerKind what spec array⟩

/-- `row_values`. -/
def rowValues (readers : List ColumnReader) (row : Nat) : SaciResult (List Value) :=
  readers.mapM fun reader => reader.value row

end Saci.Mariadb.Sink
