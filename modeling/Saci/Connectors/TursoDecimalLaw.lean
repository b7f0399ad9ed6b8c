import Saci.Connectors.TursoTypes
import Saci.Library.DecimalText

/-!
# Exact decimals

What a decimal column of the Turso engine keeps (`saci-connector-turso/src/types.rs`, `cdc.rs`). A scaled
integer is read back from the text it is rendered as (`parseDecimal_renderDecimal`). A text is read where
it is a decimal of the declared scale, but for the smallest `i128`, and white space at its ends is let
through. An integer of the engine is multiplied without a check. `decimalLaw_iff` says what that leaves.
-/

namespace Saci.Turso

open Text

variable {text : List Char} {scale : Nat} {n : Int}

/-! ## Reading a decimal -/

/-- Digits are read unless they are past the largest value. -/
theorem parseI128_digits {digits : List Char} (hdigits : ∀ c ∈ digits, c.isDigit = true)
    (hne : digits ≠ []) :
    parseI128 digits =
      if (Nat.ofDigitChars 10 digits 0 : Int) ≤ I128_MAX then some (Nat.ofDigitChars 10 digits 0 : Int)
      else none := by
  have hempty : digits.isEmpty = false := List.isEmpty_eq_false_iff.mpr hne
  have hall : digits.all Char.isDigit = true := List.all_eq_true.mpr hdigits
  have hmin : I128_MIN ≤ (Nat.ofDigitChars 10 digits 0 : Int) := by
    rw [I128_MIN]
    omega
  rw [parseI128, DecimalText.stripSign_of_isDigit hdigits]
  simp only [hempty, hall, Bool.not_true, Bool.or_self, Bool.false_eq_true, if_false, hmin, true_and]

/-- A decimal text is read at its value, unless its magnitude is too large. -/
theorem parseDecimal_chars (d : DecimalText) (h : trim text = d.chars) (hscale : d.decimals ≤ scale) :
    parseDecimal text scale =
      if |d.scaled scale| ≤ I128_MAX then .ok (d.scaled scale)
      else .error s!"decimal '{String.ofList text}' does not fit a 128-bit scaled integer" := by
  have hempty : d.chars.isEmpty = false := by
    rw [List.isEmpty_eq_false_iff]
    intro hnil
    obtain ⟨-, hunsigned⟩ := List.append_eq_nil_iff.mp hnil
    obtain ⟨hinteger, hfraction⟩ := List.append_eq_nil_iff.mp hunsigned
    refine d.ne_nil ?_
    cases heq : d.fraction with
    | none => rw [hinteger, Option.getD_none, List.nil_append]
    | some fraction =>
      rw [heq] at hfraction
      cases hfraction
  have hparts : (d.integer.isEmpty && (d.fraction.getD []).isEmpty) = false := by
    rw [Bool.and_eq_false_iff, List.isEmpty_eq_false_iff, List.isEmpty_eq_false_iff]
    by_contra hnot
    obtain ⟨hinteger, hfraction⟩ := not_or.mp hnot
    refine d.ne_nil ?_
    rw [not_not.mp hinteger, not_not.mp hfraction, List.nil_append]
  have hdigits : (!d.integer.all Char.isDigit || !(d.fraction.getD []).all Char.isDigit) = false := by
    rw [← Bool.not_and, ← List.all_append, List.all_eq_true.mpr d.isDigit]
    rfl
  -- the digits that are read, zeros up to the scale included
  have hread : parseI128 (d.integer ++ d.fraction.getD [] ++ List.replicate (scale - d.decimals) '0') =
      if |d.scaled scale| ≤ I128_MAX then
        some ((d.mantissa * 10 ^ (scale - d.decimals) : Nat) : Int)
      else none := by
    have hvalue : Nat.ofDigitChars 10
        (d.integer ++ d.fraction.getD [] ++ List.replicate (scale - d.decimals) '0') 0 =
          d.mantissa * 10 ^ (scale - d.decimals) := by
      rw [Nat.ofDigitChars_append, Nat.ofDigitChars_replicate_zero, Nat.mul_comm]
      rfl
    rw [parseI128_digits ?_ (List.append_ne_nil_of_left_ne_nil d.ne_nil _), hvalue, d.abs_scaled]
    intro c hc
    rcases List.mem_append.mp hc with hc | hc
    · exact d.isDigit c hc
    · rw [List.eq_of_mem_replicate hc]
      rfl
  have hne : (d.integer ++ d.fraction.getD [] ++ List.replicate (scale - d.decimals) '0').isEmpty = false :=
    List.isEmpty_eq_false_iff.mpr (List.append_ne_nil_of_left_ne_nil d.ne_nil _)
  have hlength : (d.fraction.getD []).length = d.decimals := rfl
  simp only [parseDecimal, h, hempty, d.stripSign_chars, d.splitOnce_unsigned, hparts, hdigits, hlength,
    Int.natCast_nonneg, max_eq_left, Int.toNat_natCast, not_lt.mpr hscale, hne, hread, Bool.false_eq_true,
    if_false]
  have hscaled : (if d.sign = .minus then -((d.mantissa * 10 ^ (scale - d.decimals) : Nat) : Int)
      else ((d.mantissa * 10 ^ (scale - d.decimals) : Nat) : Int)) = d.scaled scale := by
    rw [DecimalText.scaled]
    cases d.sign <;> simp [Sign.factor]
  split_ifs with hfits hminus hminus
  · exact congrArg Except.ok (by rw [← hscaled, if_pos (of_decide_eq_true hminus)])
  · exact congrArg Except.ok (by rw [← hscaled, if_neg (mt decide_eq_true hminus)])
  · rfl
  · rfl

/-- What is read is a decimal text of no more fractional digits than the scale. -/
theorem exists_of_parseDecimal (h : parseDecimal text scale = .ok n) :
    ∃ d : DecimalText, d.chars = trim text ∧ d.decimals ≤ scale := by
  obtain ⟨⟨integer, fraction⟩, hcut⟩ :
    ∃ parts, (splitOnce '.' (stripSign (trim text)).2).getD ((stripSign (trim text)).2, []) = parts := ⟨_, rfl⟩
  simp only [parseDecimal, hcut, Int.natCast_nonneg, max_eq_left, Int.toNat_natCast] at h
  split_ifs at h with hempty hparts hdigits hlong
  all_goals
    have hall : ∀ c ∈ integer ++ fraction, c.isDigit = true := by
      rw [Bool.not_eq_true, ← Bool.not_and, ← List.all_append, Bool.not_eq_false'] at hdigits
      exact List.all_eq_true.mp hdigits
    have hne : integer ++ fraction ≠ [] := by
      intro hnil
      obtain ⟨rfl, rfl⟩ := List.append_eq_nil_iff.mp hnil
      exact hparts rfl
    obtain ⟨d, hchars, -, hfraction⟩ := DecimalText.exists_of_cut hcut hall hne
    refine ⟨d, hchars, ?_⟩
    rw [DecimalText.decimals, hfraction]
    exact not_lt.mp hlong

/-- **A text is read exactly where it is a decimal, white space at its ends aside**, of no more fractional
digits than the scale and of no greater magnitude than the largest value. -/
theorem parseDecimal_eq_ok_iff : parseDecimal text scale = .ok n ↔
    ∃ d : DecimalText, d.chars = trim text ∧ d.decimals ≤ scale ∧ d.scaled scale = n ∧ |n| ≤ I128_MAX := by
  constructor
  · intro h
    obtain ⟨d, hchars, hscale⟩ := exists_of_parseDecimal h
    rw [parseDecimal_chars d hchars.symm hscale] at h
    split_ifs at h with hfits
    cases h
    exact ⟨d, hchars, hscale, rfl, hfits⟩
  · rintro ⟨d, hchars, hscale, rfl, hfits⟩
    rw [parseDecimal_chars d hchars.symm hscale, if_pos hfits]

/-! ## Rendering a decimal -/

/-- The text that a scaled integer is rendered as, and what it denotes. -/
theorem exists_renderDecimal (value : Int) (scale : Nat) :
    ∃ d : DecimalText, d.chars = renderDecimal value scale ∧ d.decimals = scale ∧ d.scaled scale = value := by
  have hisDigit : ∀ c ∈ Nat.toDigits 10 value.natAbs, c.isDigit = true := fun c hc =>
    Nat.isDigit_of_mem_toDigits (by decide) (by decide) hc
  have hnat : Nat.ofDigitChars 10 (Nat.toDigits 10 value.natAbs) 0 = value.natAbs := Nat.ofDigitChars_ten_toDigits
  obtain ⟨sign, hsign, hfactor⟩ : ∃ sign : Sign, sign.chars = (if value < 0 then ['-'] else []) ∧
      sign.factor * value.natAbs = value := by
    by_cases hneg : value < 0
    · refine ⟨.minus, (if_pos hneg).symm, ?_⟩
      change -1 * (value.natAbs : Int) = value
      omega
    · refine ⟨.none, (if_neg hneg).symm, ?_⟩
      change 1 * (value.natAbs : Int) = value
      omega
  -- whatever the digits are cut into, they denote the magnitude
  have hscaled : ∀ d : DecimalText, d.sign = sign → Nat.ofDigitChars 10 d.digits 0 = value.natAbs →
      d.decimals = scale → d.scaled scale = value := by
    intro d hd hdigits hdecimals
    rw [DecimalText.scaled, DecimalText.mantissa, hd, hdigits, hdecimals, Nat.sub_self, pow_zero, Nat.mul_one,
      hfactor]
  simp only [renderDecimal, Int.natCast_nonneg, max_eq_left, Int.toNat_natCast, ← hsign]
  split_ifs with hzero hlong
  · subst hzero
    refine ⟨.whole sign _ hisDigit Nat.toDigits_ne_nil, ?_, rfl, hscaled _ rfl ?_ rfl⟩
    · rw [DecimalText.chars_whole]
    · rwa [DecimalText.digits_whole]
  · generalize Nat.toDigits 10 value.natAbs = digits at *
    have hboth : digits.take (digits.length - scale) ++ digits.drop (digits.length - scale) = digits :=
      List.take_append_drop _ _
    have hlength : (digits.drop (digits.length - scale)).length = scale := by
      rw [List.length_drop]
      omega
    refine ⟨.pointed sign (digits.take (digits.length - scale)) (digits.drop (digits.length - scale)) ?_ ?_,
      ?_, hlength, hscaled _ rfl ?_ hlength⟩
    · rwa [hboth]
    · rw [hboth]
      exact List.ne_nil_of_length_pos (Nat.zero_lt_of_lt hlong)
    · rw [DecimalText.chars_pointed, List.append_assoc]
    · rwa [DecimalText.digits_pointed, hboth]
  · generalize Nat.toDigits 10 value.natAbs = digits at *
    have hlength : (List.replicate (scale - digits.length) '0' ++ digits).length = scale := by
      rw [List.length_append, List.length_replicate]
      omega
    refine ⟨.pointed sign ['0'] (List.replicate (scale - digits.length) '0' ++ digits) ?_
      (List.cons_ne_nil _ _), ?_, hlength, hscaled _ rfl ?_ hlength⟩
    · intro c hc
      rcases List.mem_append.mp hc with hc | hc
      · rw [List.mem_singleton.mp hc]
        rfl
      · rcases List.mem_append.mp hc with hc | hc
        · rw [List.eq_of_mem_replicate hc]
          rfl
        · exact hisDigit c hc
    · rw [DecimalText.chars_pointed, List.append_assoc]
    · rw [DecimalText.digits_pointed, List.singleton_append, Nat.ofDigitChars_cons, Nat.ofDigitChars_append,
        Nat.ofDigitChars_replicate_zero]
      exact hnat

/-- **Every value is read back from its text.** -/
theorem parseDecimal_renderDecimal {value : Int} (h : |value| ≤ I128_MAX) (scale : Nat) :
    parseDecimal (renderDecimal value scale) scale = .ok value := by
  obtain ⟨d, hchars, hdecimals, hscaled⟩ := exists_renderDecimal value scale
  refine parseDecimal_eq_ok_iff.mpr ⟨d, ?_, hdecimals.le, hscaled, h⟩
  rw [← hchars, d.trim_chars]

/-! ## What a decimal column promises -/

/-- The text is an optionally signed decimal of no more fractional digits than the scale, and its value
times that power of ten is the integer. -/
def DenotesAt (text : List Char) (scale : Nat) (n : Int) : Prop :=
  ∃ d : DecimalText, d.chars = text ∧ d.decimals ≤ scale ∧ d.value * 10 ^ scale = n

theorem DenotesAt.trim_eq (h : DenotesAt text scale n) : trim text = text := by
  obtain ⟨d, rfl, -⟩ := h
  exact d.trim_chars

theorem parseDecimal_iff_denotesAt :
    parseDecimal text scale = .ok n ↔ DenotesAt (trim text) scale n ∧ |n| ≤ I128_MAX := by
  rw [parseDecimal_eq_ok_iff]
  constructor
  · rintro ⟨d, hchars, hscale, hscaled, hfits⟩
    exact ⟨⟨d, hchars, hscale, by rw [DecimalText.value_mul_pow hscale, hscaled]⟩, hfits⟩
  · rintro ⟨⟨d, hchars, hscale, hvalue⟩, hfits⟩
    rw [DecimalText.value_mul_pow hscale] at hvalue
    exact ⟨d, hchars, hscale, Int.cast_injective hvalue, hfits⟩

/-- An integer is decoded as that value, or refused. -/
def DecodedAs (decoded : Except String (Option Scalar)) (value : Int) : Prop :=
  decoded = .ok (some (.decimal128 value)) ∨ ∃ e, decoded = .error e

/-- What a decimal column promises of every value it declares, of a text and of an integer. -/
structure DecimalLaw (conv : Conversions) (spec : FieldSpec) (precision : Nat) (scale : Int) (row : Nat)
    (text : List Char) (i : Int) : Prop where
  roundTrip : ∀ value : Int, |value| < 10 ^ precision →
    parseDecimal (renderDecimal value scale) scale = .ok value
  reads : ∀ n, parseDecimal text scale = .ok n ↔
    DenotesAt text scale.toNat n ∧ I128_MIN ≤ n ∧ n ≤ I128_MAX
  value : DecodedAs (decodeValue conv spec row (.integer i)) (i * 10 ^ scale.toNat)
  field : ∀ image n, image.lookup spec.name = some (.number n) → n.asI64 = some i →
    DecodedAs (decodeCdcField conv spec row image) (i * 10 ^ scale.toNat)

/-- A text is read as promised unless white space is cut off a decimal, or the decimal is the smallest
value. -/
theorem reads_iff : (∀ n, parseDecimal text scale = .ok n ↔
      DenotesAt text scale n ∧ I128_MIN ≤ n ∧ n ≤ I128_MAX) ↔
    (∀ n, DenotesAt (trim text) scale n → |n| ≤ I128_MAX → trim text = text) ∧
      ¬DenotesAt text scale I128_MIN := by
  have hbounds : ∀ {n : Int}, |n| ≤ I128_MAX ↔ (I128_MIN ≤ n ∧ n ≤ I128_MAX) ∧ n ≠ I128_MIN := by
    intro n
    rw [abs_le, I128_MIN, I128_MAX]
    omega
  constructor
  · intro h
    refine ⟨fun n hdenotes hfits => ?_, fun hdenotes => ?_⟩
    · exact ((h n).mp (parseDecimal_iff_denotesAt.mpr ⟨hdenotes, hfits⟩)).1.trim_eq
    · have hread := (h I128_MIN).mpr ⟨hdenotes, le_rfl, by decide⟩
      exact absurd (parseDecimal_iff_denotesAt.mp hread).2 (by decide)
  · rintro ⟨htrim, hmin⟩ n
    rw [parseDecimal_iff_denotesAt]
    constructor
    · rintro ⟨hdenotes, hfits⟩
      exact ⟨htrim n hdenotes hfits ▸ hdenotes, (hbounds.mp hfits).1⟩
    · rintro ⟨hdenotes, hrange⟩
      refine ⟨hdenotes.trim_eq.symm ▸ hdenotes, hbounds.mpr ⟨hrange, ?_⟩⟩
      rintro rfl
      exact hmin hdenotes

/-! ## Integers of the engine -/

theorem wrapI128_eq_self_iff {value : Int} : wrapI128 value = value ↔ I128_MIN ≤ value ∧ value ≤ I128_MAX := by
  rw [wrapI128, I128_MIN, I128_MAX]
  constructor
  · intro h
    have hlo := @Int.le_bmod value (2 ^ 128) (by decide)
    have hhi := @Int.bmod_lt value (2 ^ 128) (by decide)
    omega
  · intro h
    exact Int.bmod_eq_of_le (by omega) (by omega)

section
variable {spec : FieldSpec} {precision : Nat} {scale : Int}

theorem bounds_of_decimalParams (h : spec.decimalParams = .ok (precision, scale)) :
    precision ≤ 38 ∧ 0 ≤ scale ∧ scale ≤ precision := by
  unfold FieldSpec.decimalParams at h
  split at h
  · cases h
  · split at h
    · cases h
    · split_ifs at h with hprecision hscale
      cases h
      omega

/-- The power of ten itself never wraps. -/
theorem rescale_eq (value : Int) (hscale : scale ≤ 38) :
    rescale value scale = wrapI128 (value * 10 ^ scale.toNat) := by
  have hmax : (max scale 0).toNat = scale.toNat := by omega
  have hpow : (10 : Int) ^ scale.toNat ≤ 10 ^ 38 := pow_le_pow_right₀ (by decide) (by omega)
  have hpos : (0 : Int) < 10 ^ scale.toNat := pow_pos (by decide) _
  have hwrap : wrapI128 (10 ^ scale.toNat) = 10 ^ scale.toNat := by
    rw [wrapI128_eq_self_iff, I128_MIN, I128_MAX]
    omega
  rw [rescale, hmax, hwrap]

theorem decodedAs_rescale_iff (hscale : scale ≤ 38) (i : Int) :
    DecodedAs (.ok (some (.decimal128 (rescale i scale)))) (i * 10 ^ scale.toNat) ↔
      I128_MIN ≤ i * 10 ^ scale.toNat ∧ i * 10 ^ scale.toNat ≤ I128_MAX := by
  rw [rescale_eq i hscale, ← wrapI128_eq_self_iff]
  constructor
  · rintro (h | ⟨e, h⟩)
    · exact Scalar.decimal128.inj (Option.some.inj (Except.ok.inj h))
    · cases h
  · intro h
    exact .inl (by rw [h])

/-- **A decimal column keeps its promise for a text and an integer** exactly if the text is no decimal with
white space at its ends, is not the smallest value, and the scaled integer is in the range of its type. -/
theorem decimalLaw_iff (conv : Conversions) (hty : spec.ty = .decimal128)
    (hparams : spec.decimalParams = .ok (precision, scale)) (row : Nat) (text : List Char) (i : Int) :
    DecimalLaw conv spec precision scale row text i ↔
      (∀ n, DenotesAt (trim text) scale.toNat n → |n| ≤ I128_MAX → trim text = text) ∧
        ¬DenotesAt text scale.toNat I128_MIN ∧
        I128_MIN ≤ i * 10 ^ scale.toNat ∧ i * 10 ^ scale.toNat ≤ I128_MAX := by
  obtain ⟨hprecision, hnonneg, hle⟩ := bounds_of_decimalParams hparams
  have hscale : scale ≤ 38 := by omega
  have hnat : (scale.toNat : Int) = scale := Int.toNat_of_nonneg hnonneg
  have hvalue : decodeValue conv spec row (.integer i) = .ok (some (.decimal128 (rescale i scale))) := by
    unfold decodeValue
    rw [hty, hparams]
    rfl
  have hfield : ∀ image n, image.lookup spec.name = some (.number n) → n.asI64 = some i →
      decodeCdcField conv spec row image = .ok (some (.decimal128 (rescale i scale))) := by
    intro image n hlookup hn
    unfold decodeCdcField
    rw [hlookup, hty, hparams]
    dsimp only [Except.mapError, bind, Except.bind]
    rw [hn]
  constructor
  · intro h
    obtain ⟨htrim, hmin⟩ := reads_iff.mp (by rw [hnat]; exact h.reads)
    exact ⟨htrim, hmin, (decodedAs_rescale_iff hscale i).mp (hvalue ▸ h.value)⟩
  · rintro ⟨htrim, hmin, hfits⟩
    have hdecoded := (decodedAs_rescale_iff hscale i).mpr hfits
    refine ⟨fun value hdigits => ?_, ?_, hvalue ▸ hdecoded, fun image n hlookup hn => ?_⟩
    · have hpow : (10 : Int) ^ precision ≤ 10 ^ 38 := pow_le_pow_right₀ (by decide) hprecision
      have hread := @parseDecimal_renderDecimal value (by rw [I128_MAX]; omega) scale.toNat
      rwa [hnat] at hread
    · have hreads := reads_iff.mpr ⟨htrim, hmin⟩
      rwa [hnat] at hreads
    · rw [hfield image n hlookup hn]
      exact hdecoded

end

/-! ## A column of amounts -/

namespace Sample

/-- The casts and codecs are not used here. -/
def conv : Conversions := ⟨fun _ => 0, fun _ => none⟩

def amount : FieldSpec := ⟨"amount", .decimal128, some 10, some 2⟩

/-- As many fractional digits as a decimal may have. -/
def ratio : FieldSpec := ⟨"ratio", .decimal128, some 38, some 38⟩

theorem amount_decimalLaw : DecimalLaw conv amount 10 2 0 "12.5".toList 7 := by
  refine (decimalLaw_iff conv rfl rfl 0 "12.5".toList 7).mpr ⟨fun _ _ _ => by decide, ?_, by decide, by decide⟩
  rintro ⟨d, hchars, hscale, hvalue⟩
  rw [DecimalText.value_mul_pow hscale] at hvalue
  have hscaled : d.scaled (2 : Int).toNat = I128_MIN := Int.cast_injective hvalue
  rw [DecimalText.scaled, I128_MIN] at hscaled
  cases hsign : d.sign with
  | minus =>
    rw [DecimalText.chars, hsign] at hchars
    exact absurd (List.cons.inj hchars).1 (by decide)
  | none | plus =>
    rw [hsign] at hscaled
    simp only [Sign.factor] at hscaled
    omega

/-- Two, at a scale of 38, is taken round to a negative value. -/
theorem integer_past_range :
    decodeValue conv ratio 0 (.integer 2) = .ok (some (.decimal128 (2 * 10 ^ 38 - 2 ^ 128))) ∧
      ¬DecodedAs (decodeValue conv ratio 0 (.integer 2)) (2 * 10 ^ 38) := by
  have hdecoded : decodeValue conv ratio 0 (.integer 2) =
      .ok (some (.decimal128 (2 * 10 ^ 38 - 2 ^ 128))) := by rfl
  refine ⟨hdecoded, ?_⟩
  rw [hdecoded]
  rintro (h | ⟨e, h⟩)
  · exact absurd h (by decide)
  · cases h

end Sample

end Saci.Turso
