import Saci.Core.Error
import Saci.Library.BigEndian
import Saci.Library.Text

/-!
# Values of the Turso engine

How an engine value, or a field of a change record, is read as the declared type of its column
(`saci-connector-turso/src/types.rs` and `cdc.rs`), with the texts of decimals in both directions. Sums and
products wrap, as in a release build. Writing a column back, and building its array, is left out.
-/

namespace Saci.Turso

open Text

/-! ## Declared columns -/

inductive TursoFieldType
  | utf8
  | int64
  | float64
  | bool
  | binary
  | decimal128
  deriving DecidableEq

/-- The name used in messages. -/
def TursoFieldType.asStr : TursoFieldType → String
  | utf8 => "utf8"
  | int64 => "int64"
  | float64 => "float64"
  | bool => "bool"
  | binary => "binary"
  | decimal128 => "decimal128"

/-- One declared column. A precision is a `u8`, a scale an `i8`. -/
structure FieldSpec where
  name : String
  ty : TursoFieldType
  precision : Option Nat
  scale : Option Int

/-- `decimal_params`. -/
def FieldSpec.decimalParams (spec : FieldSpec) : SaciResult (Nat × Int) :=
  match spec.precision with
  | none => .error (.configuration s!"field '{spec.name}': type \"decimal128\" requires 'precision'")
  | some precision =>
    match spec.scale with
    | none => .error (.configuration s!"field '{spec.name}': type \"decimal128\" requires 'scale'")
    | some scale =>
      if ¬(1 ≤ precision ∧ precision ≤ 38) then
        .error <| .configuration <|
          s!"field '{spec.name}': 'precision' must be within 1..=38, got {precision}"
      else if scale < 0 ∨ (precision : Int) < scale then
        .error <| .configuration <|
          s!"field '{spec.name}': 'scale' must be within 0..={precision}, got {scale}"
      else .ok (precision, scale)

/-! ## Decimals -/

def I128_MIN : Int := -2 ^ 127

def I128_MAX : Int := 2 ^ 127 - 1

/-- A value taken round to an `i128`. -/
def wrapI128 (value : Int) : Int := value.bmod (2 ^ 128)

/-- Scale an integer up to the declared scale. -/
def rescale (value scale : Int) : Int := wrapI128 (value * wrapI128 (10 ^ (max scale 0).toNat))

/-- `str::parse::<i128>`. -/
def parseI128 (text : List Char) : Option Int :=
  let (negative, digits) := stripSign text
  if digits.isEmpty || !digits.all Char.isDigit then none
  else
    let magnitude : Int := Nat.ofDigitChars 10 digits 0
    let value := if negative then -magnitude else magnitude
    if I128_MIN ≤ value ∧ value ≤ I128_MAX then some value else none

/-- A decimal text as a scaled integer. -/
def parseDecimal (text : List Char) (scale : Int) : Except String Int :=
  let trimmed := trim text
  if trimmed.isEmpty then .error "empty decimal"
  else
    let (negative, body) := stripSign trimmed
    let (integer, fraction) := (splitOnce '.' body).getD (body, [])
    let text := String.ofList text
    if integer.isEmpty && fraction.isEmpty then .error s!"invalid decimal '{text}'"
    else if !integer.all Char.isDigit || !fraction.all Char.isDigit then .error s!"invalid decimal '{text}'"
    else
      let scale := (max scale 0).toNat
      if scale < fraction.length then
        .error s!"decimal '{text}' has more fractional digits than the declared scale {scale}"
      else
        let digits := integer ++ fraction ++ List.replicate (scale - fraction.length) '0'
        let digits := if digits.isEmpty then ['0'] else digits
        match parseI128 digits with
        | none => .error s!"decimal '{text}' does not fit a 128-bit scaled integer"
        | some magnitude => .ok (if negative then -magnitude else magnitude)

/-- A scaled integer as a text of that many fractional digits. -/
def renderDecimal (value scale : Int) : List Char :=
  let scale := (max scale 0).toNat
  let sign := if value < 0 then ['-'] else []
  let digits := Nat.toDigits 10 value.natAbs
  if scale = 0 then sign ++ digits
  else
    let (integer, fraction) :=
      if scale < digits.length then
        (digits.take (digits.length - scale), digits.drop (digits.length - scale))
      else (['0'], List.replicate (scale - digits.length) '0' ++ digits)
    sign ++ integer ++ '.' :: fraction

/-! ## Engine values -/

/-- A `turso::Value`, a real through its bits. -/
inductive Value
  | null
  | integer (value : Int)
  | real (bits : UInt64)
  | text (text : String)
  | blob (bytes : Bytes)

/-- The name of a value's kind, for messages. -/
def Value.variantName : Value → String
  | null => "null"
  | integer _ => "integer"
  | real _ => "real"
  | text _ => "text"
  | blob _ => "blob"

/-- One decoded value, a decimal already scaled. -/
inductive Scalar
  | bool (value : Bool)
  | int64 (value : Int)
  | float64 (bits : UInt64)
  | utf8 (text : String)
  | binary (bytes : Bytes)
  | decimal128 (value : Int)
  deriving DecidableEq

/-- What is taken from Rust's `as` casts and the `base64` crate. -/
structure Conversions where
  /-- An `i64` as an `f64`. -/
  f64OfI64 : Int → UInt64
  /-- The standard alphabet, padded. -/
  base64 : List Char → Option Bytes

/-- Read one engine value as the declared type, or refuse it. -/
def decodeValue (conv : Conversions) (spec : FieldSpec) (row : Nat) (value : Value) :
    Except String (Option Scalar) :=
  let mismatch (got : String) :=
    s!"column '{spec.name}' row {row}: expected {spec.ty.asStr}, got {got}"
  match spec.ty with
  | .int64 => match value with
    | .null => .ok none
    | .integer i => .ok (some (.int64 i))
    | other => .error (mismatch other.variantName)
  | .float64 => match value with
    | .null => .ok none
    | .real bits => .ok (some (.float64 bits))
    | .integer i => .ok (some (.float64 (conv.f64OfI64 i)))
    | other => .error (mismatch other.variantName)
  | .utf8 => match value with
    | .null => .ok none
    | .text s => .ok (some (.utf8 s))
    | other => .error (mismatch other.variantName)
  | .bool => match value with
    | .null => .ok none
    | .integer 0 => .ok (some (.bool false))
    | .integer 1 => .ok (some (.bool true))
    | .integer i => .error s!"column '{spec.name}' row {row}: bool expects 0 or 1, got {i}"
    | other => .error (mismatch other.variantName)
  | .binary => match value with
    | .null => .ok none
    | .blob b => .ok (some (.binary b))
    | other => .error (mismatch other.variantName)
  | .decimal128 => do
    let (_, scale) ← spec.decimalParams.mapError SaciError.message
    match value with
    | .null => .ok none
    | .text s =>
      match parseDecimal s.toList scale with
      | .ok d => .ok (some (.decimal128 d))
      | .error e => .error s!"column '{spec.name}' row {row}: {e}"
    | .integer i => .ok (some (.decimal128 (rescale i scale)))
    | other => .error (mismatch other.variantName)

/-! ## Change records -/

/-- A number of a JSON text, through what is asked of it. -/
structure JsonNumber where
  asI64 : Option Int
  asF64 : Option UInt64

/-- A `serde_json::Value`. What an array or an object holds is not looked at. -/
inductive Json
  | null
  | bool (value : Bool)
  | number (n : JsonNumber)
  | string (text : String)
  | array
  | object

/-- `json_kind`. -/
def Json.kind : Json → String
  | null => "null"
  | bool _ => "boolean"
  | number _ => "number"
  | string _ => "string"
  | array => "array"
  | object => "object"

def Json.asI64 : Json → Option Int
  | number n => n.asI64
  | _ => none

def Json.asF64 : Json → Option UInt64
  | number n => n.asF64
  | _ => none

def Json.asStr : Json → Option String
  | string text => some text
  | _ => none

/-- `char::to_digit(16)`. -/
def hexDigit (byte : UInt8) : Option UInt8 :=
  if 48 ≤ byte ∧ byte ≤ 57 then some (byte - 48)
  else if 97 ≤ byte ∧ byte ≤ 102 then some (byte - 87)
  else if 65 ≤ byte ∧ byte ≤ 70 then some (byte - 55)
  else none

/-- A run of hex digit pairs. -/
def decodeHex : Bytes → Option Bytes
  | [] => some []
  | [_] => none
  | high :: low :: rest => do
    let high ← hexDigit high
    let low ← hexDigit low
    return (high <<< 4 ||| low) :: (← decodeHex rest)

/-- The text form of a blob: an `x'..'` literal, or base64. -/
def decodeBlob (conv : Conversions) (text : List Char) : Option Bytes :=
  let trimmed := trim text
  match (stripPrefix "x'".toList trimmed).bind (stripSuffix "'".toList) with
  | some hex => decodeHex (String.ofList hex).toUTF8.toList
  | none => conv.base64 trimmed

/-- Read one field of a change image as the declared type. -/
def decodeCdcField (conv : Conversions) (spec : FieldSpec) (row : Nat) (image : List (String × Json)) :
    Except String (Option Scalar) :=
  let mismatch (value : Json) :=
    s!"column '{spec.name}' row {row}: expected {spec.ty.asStr}, got {value.kind}"
  match image.lookup spec.name with
  | none => .ok none
  | some .null => .ok none
  | some value =>
    match spec.ty with
    | .int64 => match value.asI64 with
      | some i => .ok (some (.int64 i))
      | none => .error (mismatch value)
    | .float64 => match value.asF64 with
      | some bits => .ok (some (.float64 bits))
      | none => .error (mismatch value)
    | .utf8 => match value.asStr with
      | some s => .ok (some (.utf8 s))
      | none => .error (mismatch value)
    | .bool => match value.asI64 with
      | some 0 => .ok (some (.bool false))
      | some 1 => .ok (some (.bool true))
      | _ => .error s!"column '{spec.name}' row {row}: bool expects 0 or 1, got {value.kind}"
    | .binary => match value.asStr with
      | some s => match decodeBlob conv s.toList with
        | some b => .ok (some (.binary b))
        | none =>
          .error s!"column '{spec.name}' row {row}: binary value is not a base64 or x'..' hex string"
      | none => .error (mismatch value)
    | .decimal128 => do
      let (_, scale) ← spec.decimalParams.mapError SaciError.message
      match value with
      | .string s =>
        match parseDecimal s.toList scale with
        | .ok d => .ok (some (.decimal128 d))
        | .error e => .error s!"column '{spec.name}' row {row}: {e}"
      | .number n => match n.asI64 with
        | some i => .ok (some (.decimal128 (rescale i scale)))
        | none => .error (mismatch value)
      | _ => .error (mismatch value)

end Saci.Turso
