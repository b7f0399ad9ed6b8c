import Saci.Core.Error
import Saci.Library.BigEndian
import Saci.Library.Horner
import Saci.Library.Text

/-!
# The `numeric` codec

How a PostgreSQL `numeric` is decoded into a scaled `i128`, from its binary and from its text form
(`saci-connector-postgresql/src/numeric.rs`). The accumulators are never negative, so they are natural
numbers. `money` and the encoder are left out.
-/

namespace Saci.Postgres.Numeric

open Horner Text

/-- `i128::MAX`. -/
def I128_MAX : Nat := 2 ^ 127 - 1

def SIGN_POS : Nat := 0x0000
def SIGN_NEG : Nat := 0x4000
def SIGN_NAN : Nat := 0xC000
def SIGN_PINF : Nat := 0xD000
def SIGN_NINF : Nat := 0xF000

/-- `u16::from_be_bytes`, at an offset. -/
def u16At (raw : Bytes) (at0 : Nat) : Nat := beValue [raw.getD at0 0, raw.getD (at0 + 1) 0]

/-- `i16::from_be_bytes`, at an offset. -/
def i16At (raw : Bytes) (at0 : Nat) : Int := (u16At raw at0 : Int).bmod (2 ^ 16)

/-- `:04X`. -/
def hex4 (n : Nat) : String :=
  let digits := (Nat.toDigits 16 n).map Char.toUpper
  String.ofList (List.replicate (4 - digits.length) '0' ++ digits)

/-- A value times ten, so many times. A zero stays one. -/
def scaleUp : Nat → Nat → Option Nat
  | 0, value => some value
  | count + 1, value => if value = 0 then some value else (checkedMul I128_MAX value 10).bind (scaleUp count)

/-- One digit group. -/
def digitAt (raw : Bytes) (column : String) (i : Nat) : SaciResult Nat :=
  let rawDigit := i16At raw (8 + 2 * i)
  if 0 ≤ rawDigit ∧ rawDigit < 10000 then .ok rawDigit.toNat
  else .error <| .generic <|
    s!"column '{column}': numeric digit group {i} is {rawDigit}, outside 0..=9999"

/-- The magnitude: the groups form one base-10000 integer, whose value is that integer times a power of
ten. -/
def magnitude (digit : Nat → SaciResult Nat) (overflow inexact : SaciError) (n : Nat) (exponent : Int) :
    SaciResult Nat :=
  if 0 ≤ exponent then do
    let value ← readDigits digit overflow 10000 I128_MAX (List.range n) 0
    (scaleUp exponent.toNat value).elim (.error overflow) .ok
  else
    -- the shift is taken from the groups before they are folded together
    let shift := (-exponent).toNat
    let kept := n - shift / 4
    do
    (List.range' kept (n - kept)).forM fun i => do
      if (← digit i) ≠ 0 then .error inexact
    if kept = 0 then return 0
    let divisor := 10 ^ (shift % 4)
    let value ← readDigits digit overflow 10000 I128_MAX (List.range (kept - 1)) 0
    let last ← digit (kept - 1)
    if last % divisor ≠ 0 then .error inexact
    else (pushDigit (10000 / divisor) I128_MAX value (last / divisor)).elim (.error overflow) .ok

/-- Decode one binary value. -/
def numericToI128 (raw : Bytes) (targetScale : Int) (column : String) : SaciResult Int :=
  if raw.length < 8 then
    .error <| .generic <|
      s!"column '{column}': numeric value is {raw.length} bytes, expected at least the 8-byte header"
  else
    let ndigits := i16At raw 0
    let weight := i16At raw 2
    let sign := u16At raw 4
    let dscale := u16At raw 6
    if sign = SIGN_NAN then
      .error <| .generic <|
        s!"column '{column}': numeric NaN has no decimal128 representation; select the " ++
        "column with a ::text cast and declare type = \"utf8\" to carry it"
    else if sign = SIGN_PINF ∨ sign = SIGN_NINF then
      let infinity := if sign = SIGN_PINF then "+" else "-"
      .error <| .generic <|
        s!"column '{column}': numeric {infinity}Infinity has no " ++
        "decimal128 representation; select the column with a ::text cast and declare " ++
        "type = \"utf8\" to carry it"
    else if sign ≠ SIGN_POS ∧ sign ≠ SIGN_NEG then
      .error (.generic s!"column '{column}': numeric sign field 0x{hex4 sign} is not a known sign code")
    else if ndigits < 0 then
      .error (.generic s!"column '{column}': numeric ndigits is negative ({ndigits})")
    else
      let n := ndigits.toNat
      if raw.length ≠ 8 + 2 * n then
        .error <| .generic <|
          s!"column '{column}': numeric value is {raw.length} bytes, expected {8 + 2 * n} for {n} digit " ++
          "group(s)"
      else if targetScale < 0 then
        .error (.generic s!"column '{column}': declared decimal128 scale {targetScale} is negative")
      else if targetScale < (dscale : Int) then
        .error <| .generic <|
          s!"column '{column}': numeric value carries {dscale} fractional digit(s) but the declared " ++
          s!"decimal128 scale is {targetScale}; raise 'scale' to keep the value exact"
      else
        let overflow := SaciError.generic <|
          s!"column '{column}': numeric value does not fit a decimal128 at scale {targetScale}"
        let inexact := SaciError.generic <|
          s!"column '{column}': numeric value needs more than {targetScale} fractional digit(s); " ++
          "raise 'scale' to keep the value exact"
        (magnitude (digitAt raw column) overflow inexact n (4 * (weight - n + 1) + targetScale)).map
          fun value : Nat => if sign = SIGN_NEG then -(value : Int) else value

/-- One character of a text's digits: the digits read so far are counted, and separators are skipped. -/
def textDigit (column trimmed : String) (read : Nat × Nat) (c : Char) : SaciResult (Nat × Nat) :=
  if c = ',' ∨ c = '_' ∨ c = ' ' then .ok read
  else if ¬c.isDigit then .error (.generic s!"column '{column}': '{trimmed}' is not a numeric value")
  else
    match pushDigit 10 I128_MAX read.2 (c.toNat - '0'.toNat) with
    | none => .error (.generic s!"column '{column}': numeric {trimmed} does not fit a 128-bit decimal")
    | some value => .ok (read.1 + 1, value)

/-- Decode one text. -/
def numericTextToI128 (text : List Char) (targetScale : Int) (column : String) : SaciResult Int := do
  let chars := trim text
  let trimmed := String.ofList chars
  let (negative, unsigned) := stripSign chars
  if eqIgnoreAsciiCase chars "nan".toList then
    .error <| .generic <|
      s!"column '{column}': numeric NaN has no decimal128 representation; declare type = " ++
      "\"utf8\" to carry it"
  else if eqIgnoreAsciiCase unsigned "infinity".toList || eqIgnoreAsciiCase unsigned "inf".toList then
    .error <| .generic <|
      s!"column '{column}': numeric {trimmed} has no decimal128 representation; declare type " ++
      "= \"utf8\" to carry it"
  else
    let (integer, fraction) := (splitOnce '.' unsigned).getD (unsigned, [])
    let (digits, value) ← (integer ++ fraction).foldlM (textDigit column trimmed) (0, 0)
    if digits = 0 then .error (.generic s!"column '{column}': '{trimmed}' is not a numeric value")
    else
      -- the fraction may carry separators too
      let fractionDigits := fraction.countP Char.isDigit
      let target := targetScale.toNat
      if target < fractionDigits then
        .error <| .generic <|
          s!"column '{column}': numeric {trimmed} carries {fractionDigits} fractional digit(s) " ++
          s!"but the declared scale is {targetScale}; widen 'scale' rather than lose digits"
      else
        match (List.replicate (target - fractionDigits) 10).foldlM (checkedMul I128_MAX) value with
        | none => .error <| .generic <|
          s!"column '{column}': numeric {trimmed} does not fit a 128-bit decimal at scale {targetScale}"
        | some value => .ok (if negative then -(value : Int) else value)

end Saci.Postgres.Numeric
