import Saci.Library.Text
import Mathlib.Algebra.Order.Field.Rat
import Mathlib.Algebra.Order.Ring.Abs
import Mathlib.Tactic.FieldSimp
import Mathlib.Tactic.Ring

/-!
# Decimal texts

A number in decimal digits: perhaps a sign, digits, and perhaps a point with more digits. The digits on one
side of the point may be missing. What such a text denotes, times a power of ten that clears its fraction,
is an integer (`value_mul_pow`).
-/

open Text

/-- What stands before the digits. -/
inductive Sign
  | none
  | plus
  | minus
  deriving DecidableEq

namespace Sign

def chars : Sign → List Char
  | none => []
  | plus => ['+']
  | minus => ['-']

def factor : Sign → Int
  | minus => -1
  | _ => 1

/-- A factor takes no bit of the magnitude. -/
theorem abs_factor_mul (sign : Sign) (n : Int) : |sign.factor * n| = |n| := by
  rw [abs_mul]
  cases sign <;> simp [factor]

end Sign

/-- An optionally signed decimal. -/
structure DecimalText where
  sign : Sign
  integer : List Char
  /-- What follows the point, if there is one. -/
  fraction : Option (List Char)
  isDigit : ∀ c ∈ integer ++ fraction.getD [], c.isDigit = true
  ne_nil : integer ++ fraction.getD [] ≠ []

namespace DecimalText

/-- The text behind the sign. -/
def unsigned (d : DecimalText) : List Char :=
  d.integer ++ match d.fraction with
    | none => []
    | some fraction => '.' :: fraction

def chars (d : DecimalText) : List Char := d.sign.chars ++ d.unsigned

def digits (d : DecimalText) : List Char := d.integer ++ d.fraction.getD []

/-- The number that the digits denote, without the point. -/
def mantissa (d : DecimalText) : Nat := Nat.ofDigitChars 10 d.digits 0

/-- How many digits follow the point. -/
def decimals (d : DecimalText) : Nat := (d.fraction.getD []).length

def value (d : DecimalText) : ℚ := d.sign.factor * d.mantissa / 10 ^ d.decimals

/-- The value at a scale that leaves no fraction. -/
def scaled (d : DecimalText) (scale : Nat) : Int :=
  d.sign.factor * (d.mantissa * 10 ^ (scale - d.decimals) : Nat)

variable {d : DecimalText} {scale : Nat}

theorem value_mul_pow (h : d.decimals ≤ scale) : d.value * 10 ^ scale = d.scaled scale := by
  have hpow : (10 : ℚ) ^ scale = 10 ^ d.decimals * 10 ^ (scale - d.decimals) := by
    rw [← pow_add, Nat.add_sub_cancel' h]
  rw [value, scaled, hpow]
  push_cast
  field_simp

theorem abs_scaled (d : DecimalText) (scale : Nat) :
    |d.scaled scale| = (d.mantissa * 10 ^ (scale - d.decimals) : Nat) := by
  rw [scaled, Sign.abs_factor_mul, Nat.abs_cast]

/-- Digits without a point. -/
def whole (sign : Sign) (integer : List Char) (isDigit : ∀ c ∈ integer, c.isDigit = true)
    (ne_nil : integer ≠ []) : DecimalText where
  sign := sign
  integer := integer
  fraction := none
  isDigit := by rwa [Option.getD_none, List.append_nil]
  ne_nil := by rwa [Option.getD_none, List.append_nil]

/-- Digits on both sides of a point. -/
def pointed (sign : Sign) (integer fraction : List Char)
    (isDigit : ∀ c ∈ integer ++ fraction, c.isDigit = true) (ne_nil : integer ++ fraction ≠ []) :
    DecimalText :=
  ⟨sign, integer, some fraction, isDigit, ne_nil⟩

section
variable {sign : Sign} {integer fraction : List Char}

@[simp] theorem digits_whole (h : ∀ c ∈ integer, c.isDigit = true) (hne : integer ≠ []) :
    (whole sign integer h hne).digits = integer := List.append_nil _

@[simp] theorem chars_whole (h : ∀ c ∈ integer, c.isDigit = true) (hne : integer ≠ []) :
    (whole sign integer h hne).chars = sign.chars ++ integer :=
  congrArg (sign.chars ++ ·) (List.append_nil _)

@[simp] theorem digits_pointed (h : ∀ c ∈ integer ++ fraction, c.isDigit = true)
    (hne : integer ++ fraction ≠ []) :
    (pointed sign integer fraction h hne).digits = integer ++ fraction := rfl

@[simp] theorem chars_pointed (h : ∀ c ∈ integer ++ fraction, c.isDigit = true)
    (hne : integer ++ fraction ≠ []) :
    (pointed sign integer fraction h hne).chars = sign.chars ++ (integer ++ '.' :: fraction) := rfl

end

/-! ## The text of a number -/

/-- The digits of a number, with zeros in front of them so that some stand before the fraction. -/
def padded (n decimals : Nat) : List Char :=
  let digits := Nat.toDigits 10 n
  List.replicate (decimals + 1 - digits.length) '0' ++ digits

theorem isDigit_padded {n decimals : Nat} {c : Char} (h : c ∈ padded n decimals) : c.isDigit = true := by
  rcases List.mem_append.mp h with h | h
  · rw [List.eq_of_mem_replicate h]
    rfl
  · exact Nat.isDigit_of_mem_toDigits (by decide) (by decide) h

theorem lt_length_padded (n decimals : Nat) : decimals < (padded n decimals).length := by
  rw [padded, List.length_append, List.length_replicate]
  omega

theorem ofDigitChars_padded (n decimals : Nat) : Nat.ofDigitChars 10 (padded n decimals) 0 = n := by
  rw [padded, Nat.ofDigitChars_append, Nat.ofDigitChars_replicate_zero, Nat.mul_zero, Nat.ofDigitChars_ten_toDigits]

/-- The last digits, so many of them. -/
def fractionOf (digits : List Char) (decimals : Nat) : Option (List Char) :=
  if decimals = 0 then none else some (digits.drop (digits.length - decimals))

theorem take_append_fractionOf (digits : List Char) (decimals : Nat) :
    digits.take (digits.length - decimals) ++ (fractionOf digits decimals).getD [] = digits := by
  unfold fractionOf
  split_ifs with h
  · rw [h, Nat.sub_zero, List.take_length, Option.getD_none, List.append_nil]
  · exact List.take_append_drop _ digits

theorem length_fractionOf {digits : List Char} {decimals : Nat} (h : decimals ≤ digits.length) :
    ((fractionOf digits decimals).getD []).length = decimals := by
  unfold fractionOf
  split_ifs with hzero
  · exact hzero.symm
  · rw [Option.getD_some, List.length_drop]
    omega

/-- The digits of a number, cut so that some of them follow the point. -/
def ofNat (sign : Sign) (n decimals : Nat) : DecimalText where
  sign := sign
  integer := (padded n decimals).take ((padded n decimals).length - decimals)
  fraction := fractionOf (padded n decimals) decimals
  isDigit := fun c hc => isDigit_padded (take_append_fractionOf _ decimals ▸ hc)
  ne_nil := by
    rw [take_append_fractionOf]
    exact List.ne_nil_of_length_pos (Nat.zero_lt_of_lt (lt_length_padded n decimals))

@[simp] theorem sign_ofNat (sign : Sign) (n decimals : Nat) : (ofNat sign n decimals).sign = sign := rfl

@[simp] theorem mantissa_ofNat (sign : Sign) (n decimals : Nat) : (ofNat sign n decimals).mantissa = n :=
  (congrArg (fun digits => Nat.ofDigitChars 10 digits 0) (take_append_fractionOf _ decimals)).trans
    (ofDigitChars_padded n decimals)

@[simp] theorem decimals_ofNat (sign : Sign) (n decimals : Nat) : (ofNat sign n decimals).decimals = decimals :=
  length_fractionOf (lt_length_padded n decimals).le

/-! ## Its characters -/

theorem isWhitespace_of_isDigit {c : Char} (h : c.isDigit = true) : isWhitespace c = false := by
  have hdigit : 48 ≤ c.toNat ∧ c.toNat ≤ 57 := by
    simpa [Char.isDigit, UInt32.le_iff_toNat_le] using h
  simp only [isWhitespace, Bool.or_eq_false_iff, Bool.and_eq_false_iff, decide_eq_false_iff_not]
  omega

theorem mem_unsigned {c : Char} (h : c ∈ d.unsigned) : c = '.' ∨ c.isDigit = true := by
  rw [unsigned] at h
  cases hfraction : d.fraction with
  | none =>
    rw [hfraction, List.append_nil] at h
    exact .inr (d.isDigit c (List.mem_append_left _ h))
  | some fraction =>
    rw [hfraction] at h
    rcases List.mem_append.mp h with h | h
    · exact .inr (d.isDigit c (List.mem_append_left _ h))
    · rcases List.mem_cons.mp h with rfl | h
      · exact .inl rfl
      · exact .inr (d.isDigit c (List.mem_append_right _ (hfraction ▸ h)))

/-- Trimming leaves a decimal text as it is. -/
theorem trim_chars (d : DecimalText) : trim d.chars = d.chars := by
  refine trim_of_forall fun c hc => ?_
  rcases List.mem_append.mp hc with hc | hc
  · cases hsign : d.sign <;> rw [hsign] at hc
    · cases hc
    · rw [List.mem_singleton.mp hc]
      decide
    · rw [List.mem_singleton.mp hc]
      decide
  · rcases mem_unsigned hc with rfl | hdigit
    · decide
    · exact isWhitespace_of_isDigit hdigit

/-- The first character behind the sign is none. -/
theorem head_unsigned {c : Char} (h : c ∈ d.unsigned.head?) : c ≠ '-' ∧ c ≠ '+' := by
  rcases mem_unsigned (List.mem_of_head? h) with rfl | hdigit
  · decide
  · constructor <;> rintro rfl <;> exact absurd hdigit (by decide)

theorem point_notMem_integer (d : DecimalText) : '.' ∉ d.integer := fun h =>
  absurd (d.isDigit '.' (List.mem_append_left _ h)) (by decide)

theorem stripSign_chars (d : DecimalText) : stripSign d.chars = (decide (d.sign = .minus), d.unsigned) := by
  rw [chars]
  cases d.sign with
  | plus => rfl
  | minus => rfl
  | none =>
    rw [Sign.chars, List.nil_append]
    unfold stripSign
    split
    · rename_i hunsigned
      exact absurd rfl (head_unsigned (d := d) (hunsigned ▸ rfl)).1
    · rename_i hunsigned
      exact absurd rfl (head_unsigned (d := d) (hunsigned ▸ rfl)).2
    · rfl

/-- The text behind the sign is cut at its point. -/
theorem splitOnce_unsigned (d : DecimalText) :
    (splitOnce '.' d.unsigned).getD (d.unsigned, []) = (d.integer, d.fraction.getD []) := by
  rw [unsigned]
  cases d.fraction with
  | none =>
    rw [List.append_nil, splitOnce_eq_none_iff.mpr d.point_notMem_integer]
    rfl
  | some fraction =>
    rw [splitOnce_append d.point_notMem_integer fraction]
    rfl

/-- Digits have no sign in front. -/
theorem stripSign_of_isDigit {text : List Char} (h : ∀ c ∈ text, c.isDigit = true) :
    stripSign text = (false, text) := by
  unfold stripSign
  split
  · exact absurd (h '-' List.mem_cons_self) (by decide)
  · exact absurd (h '+' List.mem_cons_self) (by decide)
  · rfl

theorem exists_sign (text : List Char) :
    ∃ sign : Sign, text = sign.chars ++ (stripSign text).2 ∧ (stripSign text).1 = decide (sign = .minus) := by
  unfold stripSign
  split
  · exact ⟨.minus, rfl, rfl⟩
  · exact ⟨.plus, rfl, rfl⟩
  · exact ⟨.none, rfl, rfl⟩

/-- What is cut into digits is a decimal text. -/
theorem exists_of_cut {text integer fraction : List Char}
    (hcut : (splitOnce '.' (stripSign text).2).getD ((stripSign text).2, []) = (integer, fraction))
    (hdigits : ∀ c ∈ integer ++ fraction, c.isDigit = true) (hne : integer ++ fraction ≠ []) :
    ∃ d : DecimalText, d.chars = text ∧ d.integer = integer ∧ d.fraction.getD [] = fraction := by
  obtain ⟨sign, htext, -⟩ := exists_sign text
  cases hsplit : splitOnce '.' (stripSign text).2 with
  | none =>
    rw [hsplit] at hcut
    cases hcut
    refine ⟨⟨sign, (stripSign text).2, none, hdigits, hne⟩, ?_, rfl, rfl⟩
    rw [chars, unsigned, List.append_nil, ← htext]
  | some parts =>
    rw [hsplit] at hcut
    cases hcut
    refine ⟨⟨sign, integer, some fraction, hdigits, hne⟩, ?_, rfl, rfl⟩
    rw [chars, unsigned, ← (splitOnce_eq_some_iff.mp hsplit).1, ← htext]

end DecimalText
