import Saci.Connectors.PostgresNumeric
import Saci.Library.DecimalText
import Mathlib.Algebra.Order.Field.Power

/-!
# What a `numeric` decodes to

The decoder shifts the groups by a power of ten, after it has folded them where the exponent is not
negative and before it does so where it is. Both ways come to one integer times that power (`ScaledBy`,
`magnitude_iff`), and no step on the way is past the bound where the result is not. So a value of the
wire format is decoded exactly where the scale carries it (`numericToI128_bytes`), and so is its text
(`numericTextToI128_iff`).
-/

namespace Saci.Postgres.Numeric

open Horner Text

/-! ## The groups -/

section
variable (digit : Nat → SaciResult Nat)

/-- The group at a place, zero where there is none. -/
def group (i : Nat) : Nat := (digit i).toOption.getD 0

/-- The first groups as one integer. -/
def folded (n : Nat) : Nat := horner 10000 ((List.range n).map (group digit)) 0

variable {digit} {overflow inexact : SaciError} {n m : Nat}

theorem group_eq {i d : Nat} (h : digit i = .ok d) : group digit i = d := by
  rw [group, h]
  rfl

theorem readDigits_iff {places : List Nat} {value : Nat} :
    readDigits digit overflow 10000 I128_MAX places 0 = .ok value ↔
      (∀ i ∈ places, digit i = .ok (group digit i)) ∧ horner 10000 (places.map (group digit)) 0 = value ∧
        value ≤ I128_MAX := by
  rw [readDigits_eq_ok_iff (by decide) (Nat.zero_le _)]
  constructor
  · rintro ⟨digits, hdigits, rfl, hvalue⟩
    have hread : (∀ i ∈ places, digit i = .ok (group digit i)) ∧ places.map (group digit) = digits := by
      clear hvalue
      induction hdigits with
      | nil => exact ⟨fun i hi => absurd hi List.not_mem_nil, rfl⟩
      | @cons place d places digits hd _ ih =>
        refine ⟨List.forall_mem_cons.mpr ⟨hd.trans (by rw [group_eq hd]), ih.1⟩, ?_⟩
        rw [List.map_cons, group_eq hd, ih.2]
    exact ⟨hread.1, by rw [hread.2], hvalue⟩
  · rintro ⟨hread, hvalue, hfits⟩
    exact ⟨_, List.forall₂_map_right_iff.mpr (List.forall₂_same.mpr hread), hvalue, hfits⟩

theorem folded_succ (n : Nat) : folded digit (n + 1) = folded digit n * 10000 + group digit n := by
  rw [folded, folded, List.range_succ, List.map_append, horner_append]
  rfl

/-- The groups behind the first ones. -/
theorem folded_add (kept more : Nat) : folded digit (kept + more) =
    folded digit kept * 10000 ^ more + horner 10000 ((List.range' kept more).map (group digit)) 0 := by
  have hrange : List.range (kept + more) = List.range kept ++ List.range' kept more := by
    rw [List.range_eq_range', List.range_eq_range', List.range'_append_1.symm, Nat.zero_add]
  rw [folded, hrange, List.map_append, horner_append, horner_eq, List.length_map, List.length_range']
  rfl

/-- Scaling up goes as far as the bound. -/
theorem scaleUp_eq (count : Nat) {value : Nat} (h : value ≤ I128_MAX) :
    scaleUp count value = if value * 10 ^ count ≤ I128_MAX then some (value * 10 ^ count) else none := by
  induction count generalizing value with
  | zero => rw [scaleUp, pow_zero, Nat.mul_one, if_pos h]
  | succ count ih =>
    rw [scaleUp, Nat.pow_succ', ← Nat.mul_assoc]
    split_ifs with hzero hfits hfits
    · simp [hzero]
    · exact absurd (by simp [hzero]) hfits
    · have hten : value * 10 ≤ I128_MAX := (Nat.le_mul_of_pos_right _ (Nat.pow_pos (by decide))).trans hfits
      rw [checkedMul, if_pos hten, Option.bind_some, ih hten, if_pos hfits]
    · rw [checkedMul]
      split_ifs with hten
      · rw [Option.bind_some, ih hten, if_neg hfits]
      · rfl

/-- An integer times a power of ten is another one. -/
def ScaledBy (exponent : Int) (value scaled : Nat) : Prop :=
  (0 ≤ exponent → scaled = value * 10 ^ exponent.toNat) ∧
    (exponent < 0 → scaled * 10 ^ (-exponent).toNat = value)

/-- Groups that all are zero are a zero, and no others. -/
theorem behind_eq_zero_iff {kept more : Nat} :
    horner 10000 ((List.range' kept more).map (group digit)) 0 = 0 ↔
      ∀ i ∈ List.range' kept more, group digit i = 0 := by
  rw [horner_eq_zero_iff (by decide)]
  exact List.forall_mem_map

/-- What the shift takes away whole, and what it divides the last group by. -/
theorem pow_shift (shift : Nat) : 10 ^ shift = 10000 ^ (shift / 4) * 10 ^ (shift % 4) := by
  have hpow : (10000 : Nat) = 10 ^ 4 := rfl
  rw [hpow, ← pow_mul, ← pow_add, Nat.div_add_mod]

theorem divisor_dvd (shift : Nat) : 10 ^ (shift % 4) ∣ 10000 :=
  pow_dvd_pow 10 (by omega : shift % 4 ≤ 4)

/-- Without a shift the groups are folded first. -/
theorem magnitude_iff_of_nonneg {exponent : Int} (h : 0 ≤ exponent) :
    magnitude digit overflow inexact n exponent = .ok m ↔
      (∀ i < n, digit i = .ok (group digit i)) ∧ m ≤ I128_MAX ∧ m = folded digit n * 10 ^ exponent.toNat := by
  rw [magnitude, if_pos h, bind_eq_ok_iff]
  have hgrown : ∀ value, value ≤ value * 10 ^ exponent.toNat := fun value =>
    Nat.le_mul_of_pos_right value (Nat.pow_pos (by decide))
  constructor
  · rintro ⟨value, hread, hscale⟩
    obtain ⟨hdigits, rfl, hfits⟩ := readDigits_iff.mp hread
    rw [scaleUp_eq _ hfits] at hscale
    split_ifs at hscale with hscaled
    · cases hscale
      exact ⟨fun i hi => hdigits i (List.mem_range.mpr hi), hscaled, rfl⟩
    · cases hscale
  · rintro ⟨hdigits, hfits, rfl⟩
    have hvalue : folded digit n ≤ I128_MAX := (hgrown _).trans hfits
    refine ⟨_, readDigits_iff.mpr ⟨fun i hi => hdigits i (List.mem_range.mp hi), rfl, hvalue⟩, ?_⟩
    rw [← folded, scaleUp_eq _ hvalue, if_pos hfits]
    rfl

/-- The groups that a shift takes away whole are zero. -/
theorem forM_iff {places : List Nat} :
    (places.forM fun i => do
      if (← digit i) ≠ 0 then .error inexact) = .ok () ↔ ∀ i ∈ places, digit i = .ok 0 := by
  rw [forM_eq_ok_iff]
  refine forall₂_congr fun i _ => ?_
  cases digit i with
  | error e => exact ⟨fun h => (nomatch h), fun h => (nomatch h)⟩
  | ok d =>
    rw [ok_bind]
    split_ifs with hd
    · exact ⟨fun h => (nomatch h), fun h => absurd (Except.ok.inj h) hd⟩
    · exact ⟨fun _ => congrArg _ (not_not.mp hd), fun _ => rfl⟩

/-- Dividing the last group divides the whole. -/
theorem last_iff {divisor front last : Nat} (hpos : 0 < divisor) (hdvd : divisor ∣ 10000) :
    m * divisor = front * 10000 + last ↔
      last % divisor = 0 ∧ front * (10000 / divisor) + last / divisor = m := by
  obtain ⟨quotient, hquotient⟩ := hdvd
  rw [hquotient, Nat.mul_div_cancel_left _ hpos]
  constructor
  · intro h
    have hlast : divisor ∣ last := by
      have hsum : divisor ∣ front * (divisor * quotient) + last := h ▸ Nat.dvd_mul_left _ _
      exact (Nat.dvd_add_right ((Nat.dvd_mul_right _ _).mul_left front)).mp hsum
    obtain ⟨l, rfl⟩ := hlast
    refine ⟨Nat.mul_mod_right _ _, ?_⟩
    rw [Nat.mul_div_cancel_left _ hpos]
    refine Nat.eq_of_mul_eq_mul_right hpos ?_
    rw [h]
    ring
  · rintro ⟨hmod, rfl⟩
    obtain ⟨l, rfl⟩ := Nat.dvd_of_mod_eq_zero hmod
    rw [Nat.mul_div_cancel_left _ hpos]
    ring

/-- What is a multiple of the shifted unit has no digits behind the groups that are kept. -/
theorem behind_eq_zero (hdigit : ∀ i < n, group digit i < 10000) {kept more shift : Nat}
    (hn : kept + more = n) (hmore : more ≤ shift / 4) (h : m * 10 ^ shift = folded digit n) :
    horner 10000 ((List.range' kept more).map (group digit)) 0 = 0 := by
  have hlt : horner 10000 ((List.range' kept more).map (group digit)) 0 < 10000 ^ more := by
    have hbound := @horner_lt 10000 ((List.range' kept more).map (group digit)) (by
      intro d hd
      obtain ⟨i, hi, rfl⟩ := List.mem_map.mp hd
      have := List.mem_range'_1.mp hi
      exact hdigit i (by omega))
    rwa [List.length_map, List.length_range'] at hbound
  have hunit : 10000 ^ more ∣ 10 ^ shift := by
    rw [pow_shift]
    exact (pow_dvd_pow 10000 hmore).mul_right _
  refine Nat.eq_zero_of_dvd_of_lt ?_ hlt
  rw [← hn, folded_add] at h
  exact (Nat.dvd_add_right (Nat.dvd_mul_left _ _)).mp (h ▸ hunit.mul_left m)

/-- With a shift the groups that it takes away are read first, and the last of the others is divided. -/
theorem magnitude_iff_of_neg (hdigit : ∀ {i d}, digit i = .ok d → d < 10000) {exponent : Int}
    (h : exponent < 0) :
    magnitude digit overflow inexact n exponent = .ok m ↔
      (∀ i < n, digit i = .ok (group digit i)) ∧ m ≤ I128_MAX ∧
        m * 10 ^ (-exponent).toNat = folded digit n := by
  rw [magnitude, if_neg (not_le.mpr h)]
  dsimp only
  generalize (-exponent).toNat = shift
  obtain ⟨more, hn⟩ : ∃ more, n - shift / 4 + more = n := ⟨n - (n - shift / 4), by omega⟩
  have hmore : n - (n - shift / 4) = more := by omega
  have hdropped : more ≤ shift / 4 := by omega
  have hgroups : (∀ i < n, digit i = .ok (group digit i)) → ∀ i < n, group digit i < 10000 := fun hall i hi =>
    hdigit (hall i hi)
  have hexact : n - shift / 4 ≠ 0 → more = shift / 4 := by omega
  generalize n - shift / 4 = kept at *
  have hfolded : horner 10000 ((List.range' kept more).map (group digit)) 0 = 0 →
      folded digit n = folded digit kept * 10000 ^ more := fun hbehind => by
    rw [← hn, folded_add, hbehind, Nat.add_zero]
  have hdivisor : 0 < 10 ^ (shift % 4) := Nat.pow_pos (by decide)
  rw [hmore, bind_eq_ok_iff]
  constructor
  · rintro ⟨_, hzero, hrest⟩
    have hzero := forM_iff.mp hzero
    have hbehind : horner 10000 ((List.range' kept more).map (group digit)) 0 = 0 :=
      behind_eq_zero_iff.mpr fun i hi => group_eq (hzero i hi)
    have hlater : ∀ i, kept ≤ i → i < n → digit i = .ok (group digit i) := by
      intro i hi hin
      have hd := hzero i (List.mem_range'_1.mpr (by omega))
      rw [hd, group_eq hd]
    cases kept with
    | zero =>
      cases hrest
      refine ⟨fun i hi => hlater i (Nat.zero_le i) hi, Nat.zero_le _, ?_⟩
      rw [hfolded hbehind, Nat.zero_mul]
      exact (Nat.zero_mul _).symm
    | succ k =>
      obtain ⟨front, hread, hrest⟩ := bind_eq_ok_iff.mp hrest
      obtain ⟨last, hlast, hrest⟩ := bind_eq_ok_iff.mp hrest
      obtain ⟨hfront, rfl, -⟩ := readDigits_iff.mp hread
      rw [Nat.add_sub_cancel] at hlast hfront hrest
      rw [pushDigit_eq] at hrest
      split_ifs at hrest with hmod hfits
      · cases hrest
        refine ⟨fun i hi => ?_, hfits, ?_⟩
        · rcases Nat.lt_trichotomy i k with hlt | rfl | hlt
          · exact hfront i (List.mem_range.mpr hlt)
          · rw [hlast, group_eq hlast]
          · exact hlater i hlt hi
        · have hdivided : (folded digit k * (10000 / 10 ^ (shift % 4)) + last / 10 ^ (shift % 4)) *
              10 ^ (shift % 4) = folded digit k * 10000 + last :=
            (last_iff hdivisor (divisor_dvd shift)).mpr ⟨not_not.mp hmod, rfl⟩
          rw [hfolded hbehind, folded_succ, group_eq hlast, hexact (Nat.succ_ne_zero k), pow_shift shift, ← folded,
            Nat.mul_left_comm, hdivided, Nat.mul_comm]
      · cases hrest
  · rintro ⟨hall, hfits, hvalue⟩
    have hbehind := behind_eq_zero (hgroups hall) hn hdropped hvalue
    have hzero : ∀ i ∈ List.range' kept more, digit i = .ok 0 := by
      intro i hi
      rw [hall i (by have := List.mem_range'_1.mp hi; omega), behind_eq_zero_iff.mp hbehind i hi]
    refine ⟨(), forM_iff.mpr hzero, ?_⟩
    cases kept with
    | zero =>
      rw [hfolded hbehind, folded, List.range_zero, List.map_nil, horner_nil, Nat.zero_mul] at hvalue
      rcases Nat.mul_eq_zero.mp hvalue with rfl | hpow
      · rfl
      · exact absurd hpow (Nat.pow_pos (by decide)).ne'
    | succ k =>
      have hlast := hall k (by omega)
      have hdivided : m * 10 ^ (shift % 4) = folded digit k * 10000 + group digit k := by
        rw [hfolded hbehind, folded_succ, hexact (Nat.succ_ne_zero k), pow_shift shift, Nat.mul_comm (10000 ^ _),
          ← Nat.mul_assoc] at hvalue
        exact Nat.eq_of_mul_eq_mul_right (Nat.pow_pos (by decide)) hvalue
      obtain ⟨hmod, rfl⟩ := (last_iff hdivisor (divisor_dvd shift)).mp hdivided
      have hfront : folded digit k ≤ I128_MAX := by
        have hone : 0 < 10000 / 10 ^ (shift % 4) :=
          Nat.div_pos (Nat.le_of_dvd (by decide) (divisor_dvd shift)) hdivisor
        exact ((Nat.le_mul_of_pos_right _ hone).trans (Nat.le_add_right _ _)).trans hfits
      rw [if_neg (Nat.succ_ne_zero k), Nat.add_sub_cancel]
      have hread : readDigits digit overflow 10000 I128_MAX (List.range k) 0 = .ok (folded digit k) :=
        readDigits_iff.mpr ⟨fun i hi => hall i (by have := List.mem_range.mp hi; omega), rfl, hfront⟩
      change (readDigits digit overflow 10000 I128_MAX (List.range k) 0 >>= _) = _
      rw [hread, ok_bind, hlast, ok_bind, if_neg (not_not.mpr hmod), pushDigit_eq, if_pos hfits]
      rfl

theorem magnitude_iff (hdigit : ∀ {i d}, digit i = .ok d → d < 10000) {exponent : Int} :
    magnitude digit overflow inexact n exponent = .ok m ↔
      (∀ i < n, digit i = .ok (group digit i)) ∧ m ≤ I128_MAX ∧ ScaledBy exponent (folded digit n) m := by
  rcases lt_or_ge exponent 0 with h | h
  · rw [magnitude_iff_of_neg hdigit h]
    refine and_congr_right fun _ => and_congr_right fun _ => ⟨fun hm => ?_, fun hm => hm.2 h⟩
    exact ⟨fun hnonneg => absurd hnonneg (not_le.mpr h), fun _ => hm⟩
  · rw [magnitude_iff_of_nonneg h]
    refine and_congr_right fun _ => and_congr_right fun _ => ⟨fun hm => ?_, fun hm => hm.1 h⟩
    exact ⟨fun _ => hm, fun hneg => absurd h (not_le.mpr hneg)⟩

end

/-! ## Well-formed values -/

/-- A finite `numeric`, as it is sent. -/
structure FiniteNumeric where
  weight : Int
  negative : Bool
  dscale : Nat
  groups : List Nat
  weight_mem : -2 ^ 15 ≤ weight ∧ weight < 2 ^ 15
  dscale_lt : dscale < 2 ^ 16
  count_lt : groups.length < 2 ^ 15
  group_lt : ∀ group ∈ groups, group < 10000

namespace FiniteNumeric

def header (num : FiniteNumeric) : Bytes :=
  beBytes 2 num.groups.length ++ beBytes 2 (num.weight % 2 ^ 16).toNat ++
    beBytes 2 (if num.negative then SIGN_NEG else SIGN_POS) ++ beBytes 2 num.dscale

def bytes (num : FiniteNumeric) : Bytes := num.header ++ num.groups.flatMap (beBytes 2)

def sign (num : FiniteNumeric) : Int := if num.negative then -1 else 1

/-- The number that the groups denote. -/
def value (num : FiniteNumeric) : ℚ :=
  num.sign * (num.groups.zipIdx.map fun (group, i) => (group : ℚ) * 10000 ^ (num.weight - i)).sum

end FiniteNumeric

section
variable {raw rest : Bytes} {column : String} {i n : Nat}

theorem u16At_lt (raw : Bytes) (i : Nat) : u16At raw i < 2 ^ 16 := by
  have hlt := beValue_lt [raw.getD i 0, raw.getD (i + 1) 0]
  rw [List.length_cons, List.length_singleton] at hlt
  rw [u16At]
  omega

theorem u16At_append {front : Bytes} (h : front.length = n) (rest : Bytes) (i : Nat) :
    u16At (front ++ rest) (n + i) = u16At rest i := by
  have hread : ∀ k, (front ++ rest).getD (n + k) 0 = rest.getD k 0 := by
    intro k
    rw [← h, List.getD_eq_getElem?_getD, List.getElem?_append_right (Nat.le_add_right _ _),
      Nat.add_sub_cancel_left, List.getD_eq_getElem?_getD]
  rw [u16At, Nat.add_assoc, hread, hread, u16At]

/-- The groups that bytes are cut into. -/
theorem eq_flatMap (h : rest.length = 2 * n) :
    rest = ((List.range n).map fun i => u16At rest (2 * i)).flatMap (beBytes 2) := by
  induction n generalizing rest with
  | zero => exact List.length_eq_zero_iff.mp h
  | succ n ih =>
    match rest, h with
    | a :: b :: rest, h =>
      have hrest : rest.length = 2 * n := by
        simp only [List.length_cons] at h
        omega
      have hshift : ∀ i, u16At (a :: b :: rest) (2 * (i + 1)) = u16At rest (2 * i) := fun i => by
        rw [show 2 * (i + 1) = 2 + 2 * i by omega]
        exact @u16At_append 2 [a, b] rfl rest (2 * i)
      rw [List.range_succ_eq_map, List.map_cons, List.map_map, List.flatMap_cons]
      refine congrArg₂ (· ++ ·) (beBytes_beValue [a, b]).symm ?_
      simp only [Function.comp_def, Nat.succ_eq_add_one, hshift]
      exact ih hrest

theorem bmod_cases {u : Nat} (h : u < 2 ^ 16) :
    (u : Int).bmod (2 ^ 16) = u ∧ u < 2 ^ 15 ∨ (u : Int).bmod (2 ^ 16) < 0 ∧ 2 ^ 15 ≤ u := by
  rw [Int.bmod_eq_emod]
  split_ifs <;> omega

/-- A signed number is sent as an unsigned one. -/
theorem word_lt (n : Int) : (n % 2 ^ 16).toNat < 2 ^ 16 := by omega

theorem bmod_word {n : Int} (h : -2 ^ 15 ≤ n ∧ n < 2 ^ 15) : ((n % 2 ^ 16).toNat : Int).bmod (2 ^ 16) = n := by
  rw [Int.toNat_of_nonneg (Int.emod_nonneg n (by decide)), Int.bmod_eq_emod]
  split_ifs <;> omega

/-- A signed reading is the unsigned one, or negative. -/
theorem i16At_cases (raw : Bytes) (i : Nat) :
    i16At raw i = u16At raw i ∧ u16At raw i < 2 ^ 15 ∨ i16At raw i < 0 ∧ 2 ^ 15 ≤ u16At raw i :=
  bmod_cases (u16At_lt raw i)

theorem digitAt_eq_ok_iff {d : Nat} :
    digitAt raw column i = .ok d ↔ u16At raw (8 + 2 * i) = d ∧ d < 10000 := by
  have hcases := i16At_cases raw (8 + 2 * i)
  unfold digitAt
  dsimp only
  generalize i16At raw (8 + 2 * i) = read at *
  split_ifs with hrange
  · rw [Except.ok.injEq]
    omega
  · simp only [false_iff]
    omega

/-- A header of a finite value with as many groups as it says and no more fractional digits than the
scale. -/
structure Accepts (raw : Bytes) (scale : Nat) : Prop where
  sign : u16At raw 4 = SIGN_POS ∨ u16At raw 4 = SIGN_NEG
  count : u16At raw 0 < 2 ^ 15
  length : raw.length = 8 + 2 * u16At raw 0
  scale : u16At raw 6 ≤ scale

/-- The groups, as one integer. -/
def mantissaAt (raw : Bytes) : Nat :=
  horner 10000 ((List.range (u16At raw 0)).map fun i => u16At raw (8 + 2 * i)) 0

theorem digitAt_iff : digitAt raw column i = .ok (group (digitAt raw column) i) ↔ u16At raw (8 + 2 * i) < 10000 := by
  constructor
  · intro h
    obtain ⟨heq, hlt⟩ := digitAt_eq_ok_iff.mp h
    omega
  · intro h
    have hread : digitAt raw column i = .ok (u16At raw (8 + 2 * i)) := digitAt_eq_ok_iff.mpr ⟨rfl, h⟩
    rw [group_eq hread, hread]

theorem map_group (h : ∀ i < n, u16At raw (8 + 2 * i) < 10000) :
    folded (digitAt raw column) n =
      horner 10000 ((List.range n).map fun i => u16At raw (8 + 2 * i)) 0 := by
  refine congrArg (fun digits => horner 10000 digits 0) (List.map_congr_left fun i hi => ?_)
  exact group_eq (digitAt_eq_ok_iff.mpr ⟨rfl, h i (List.mem_range.mp hi)⟩)

/-- What bytes are decoded, and to what. -/
theorem numericToI128_eq_ok_iff {scale : Nat} {v : Int} :
    numericToI128 raw scale column = .ok v ↔
      Accepts raw scale ∧ (∀ i < u16At raw 0, u16At raw (8 + 2 * i) < 10000) ∧
        ∃ m : Nat, m ≤ I128_MAX ∧ ScaledBy (4 * (i16At raw 2 - u16At raw 0 + 1) + scale) (mantissaAt raw) m ∧
          v = if u16At raw 4 = SIGN_NEG then -(m : Int) else m := by
  have hcount := i16At_cases raw 0
  have hlt : ∀ {i d}, digitAt raw column i = .ok d → d < 10000 := fun h => (digitAt_eq_ok_iff.mp h).2
  have hread : (∀ i < u16At raw 0, digitAt raw column i = .ok (group (digitAt raw column) i)) ↔
      ∀ i < u16At raw 0, u16At raw (8 + 2 * i) < 10000 := forall₂_congr fun i _ => digitAt_iff
  unfold numericToI128
  dsimp only
  constructor
  · intro h
    split_ifs at h with hshort hnan hinf hsign hneg hlen hscale hfraction hminus
    all_goals
      have hn : (i16At raw 0).toNat = u16At raw 0 := by omega
      rw [hn] at h hlen
      generalize hm : magnitude (digitAt raw column) _ _ (u16At raw 0) _ = result at h
      cases result with
      | error e => cases h
      | ok m =>
        obtain ⟨hdigits, hfits, hscaled⟩ := (magnitude_iff hlt).mp hm
        have hsmall := hread.mp hdigits
        rw [map_group hsmall, ← mantissaAt] at hscaled
        refine ⟨⟨?_, ?_, not_not.mp hlen, ?_⟩, hsmall, m, hfits, ?_, ?_⟩
        · exact (not_and_or.mp hsign).imp not_not.mp not_not.mp
        · omega
        · omega
        · exact hscaled
        · rw [← Except.ok.inj h]
          simp only [hminus, if_true, if_false]
  · rintro ⟨⟨hsign, hcount', hlen, hscale⟩, hsmall, m, hfits, hscaled, rfl⟩
    have hshort : ¬raw.length < 8 := by omega
    have hnan : ¬u16At raw 4 = SIGN_NAN := by
      rcases hsign with h | h <;> rw [h] <;> decide
    have hinf : ¬(u16At raw 4 = SIGN_PINF ∨ u16At raw 4 = SIGN_NINF) := by
      rcases hsign with h | h <;> rw [h] <;> decide
    have hknown : ¬(u16At raw 4 ≠ SIGN_POS ∧ u16At raw 4 ≠ SIGN_NEG) := fun h => hsign.elim h.1 h.2
    have hneg : ¬i16At raw 0 < 0 := by omega
    have hn : (i16At raw 0).toNat = u16At raw 0 := by omega
    have hnonneg : ¬(scale : Int) < 0 := by omega
    have hfraction : ¬(scale : Int) < u16At raw 6 := by omega
    rw [if_neg hshort, if_neg hnan, if_neg hinf, if_neg hknown, if_neg hneg, hn, if_neg (not_not.mpr hlen),
      if_neg hnonneg, if_neg hfraction, (magnitude_iff hlt).mpr ⟨hread.mpr hsmall, hfits, ?_⟩]
    · rfl
    · rw [map_group hsmall]
      exact hscaled

end

/-! ## The bytes of a well-formed value -/

theorem u16At_front {n : Nat} (h : n < 2 ^ 16) (rest : Bytes) : u16At (beBytes 2 n ++ rest) 0 = n := by
  have hvalue : u16At (beBytes 2 n ++ rest) 0 = beValue (beBytes 2 n) := rfl
  rw [hvalue, beValue_beBytes]
  exact Nat.mod_eq_of_lt h

theorem u16At_flatMap {groups : List Nat} (h : ∀ group ∈ groups, group < 10000) {i : Nat}
    (hi : i < groups.length) : u16At (groups.flatMap (beBytes 2)) (2 * i) = groups[i] := by
  induction groups generalizing i with
  | nil => cases hi
  | cons group groups ih =>
    obtain ⟨hgroup, hgroups⟩ := List.forall_mem_cons.mp h
    rw [List.flatMap_cons]
    cases i with
    | zero =>
      have hlt : group < 2 ^ 16 := by omega
      exact u16At_front hlt _
    | succ i =>
      rw [show 2 * (i + 1) = 2 + 2 * i by omega, u16At_append (length_beBytes 2 group)]
      exact ih hgroups (Nat.lt_of_succ_lt_succ hi)

namespace FiniteNumeric

variable (num : FiniteNumeric)

theorem bytes_eq : num.bytes = beBytes 2 num.groups.length ++ (beBytes 2 (num.weight % 2 ^ 16).toNat ++
    (beBytes 2 (if num.negative then SIGN_NEG else SIGN_POS) ++ (beBytes 2 num.dscale ++
      num.groups.flatMap (beBytes 2)))) := by
  rw [bytes, header, List.append_assoc, List.append_assoc, List.append_assoc]

theorem count_bytes : u16At num.bytes 0 = num.groups.length := by
  have hlt := num.count_lt
  rw [bytes_eq]
  exact u16At_front (by omega) _

theorem word_bytes : u16At num.bytes 2 = (num.weight % 2 ^ 16).toNat := by
  rw [bytes_eq]
  exact (u16At_append (length_beBytes 2 _) _ 0).trans (u16At_front (word_lt num.weight) _)

theorem weight_bytes : i16At num.bytes 2 = num.weight :=
  (congrArg (fun n : Nat => (n : Int).bmod (2 ^ 16)) num.word_bytes).trans (bmod_word num.weight_mem)

theorem sign_bytes : u16At num.bytes 4 = if num.negative then SIGN_NEG else SIGN_POS := by
  rw [bytes_eq, ← List.append_assoc, ← Nat.add_zero 4, u16At_append (by simp)]
  refine u16At_front ?_ _
  split_ifs <;> decide

theorem dscale_bytes : u16At num.bytes 6 = num.dscale := by
  rw [bytes_eq, ← List.append_assoc, ← List.append_assoc, ← Nat.add_zero 6, u16At_append (by simp)]
  exact u16At_front num.dscale_lt _

theorem length_header : num.header.length = 8 := by simp [header]

theorem group_bytes {i : Nat} (hi : i < num.groups.length) :
    u16At num.bytes (8 + 2 * i) = num.groups[i] := by
  rw [bytes, u16At_append num.length_header]
  exact u16At_flatMap num.group_lt hi

theorem length_bytes : num.bytes.length = 8 + 2 * num.groups.length := by
  have hgroups : (num.groups.flatMap (beBytes 2)).length = 2 * num.groups.length := by
    rw [List.length_flatMap]
    simp [Nat.mul_comm]
  rw [bytes, List.length_append, length_header, hgroups]

theorem mantissaAt_bytes : mantissaAt num.bytes = horner 10000 num.groups 0 := by
  rw [mantissaAt, count_bytes]
  refine congrArg (fun digits => horner 10000 digits 0) (List.ext_getElem (by simp) fun i hi hi' => ?_)
  rw [List.getElem_map, List.getElem_range]
  exact num.group_bytes hi'

end FiniteNumeric

/-! ## The value -/

/-- A power of ten is a shift, in one direction or the other. -/
theorem scaledBy_iff {exponent : Int} {value scaled : Nat} :
    ScaledBy exponent value scaled ↔ (value : ℚ) * 10 ^ exponent = scaled := by
  rcases lt_or_ge exponent 0 with h | h
  · obtain ⟨shift, hshift⟩ := Int.eq_ofNat_of_zero_le (by omega : 0 ≤ -exponent)
    obtain rfl : exponent = -(shift : Int) := by omega
    rw [zpow_neg, zpow_natCast, mul_inv_eq_iff_eq_mul₀ (pow_ne_zero shift (by norm_num : (10 : ℚ) ≠ 0))]
    constructor
    · intro hscaled
      have hvalue := hscaled.2 h
      rw [neg_neg, Int.toNat_natCast] at hvalue
      exact_mod_cast hvalue.symm
    · intro hvalue
      refine ⟨fun hnonneg => absurd h (not_lt.mpr hnonneg), fun _ => ?_⟩
      rw [neg_neg, Int.toNat_natCast]
      exact_mod_cast hvalue.symm
  · obtain ⟨shift, rfl⟩ := Int.eq_ofNat_of_zero_le h
    rw [zpow_natCast]
    constructor
    · intro hscaled
      have hvalue := hscaled.1 h
      rw [Int.toNat_natCast] at hvalue
      exact_mod_cast hvalue.symm
    · intro hvalue
      refine ⟨fun _ => ?_, fun hneg => absurd h (not_le.mpr hneg)⟩
      rw [Int.toNat_natCast]
      exact_mod_cast hvalue.symm

namespace FiniteNumeric

variable (num : FiniteNumeric)

/-- The groups, as one integer. -/
def mantissa : Nat := horner 10000 num.groups 0

/-- The power of ten that makes it the number. -/
def exponent : Int := 4 * (num.weight - num.groups.length + 1)

/-- The groups behind an offset. -/
theorem sum_zipIdx (groups : List Nat) (weight : Int) (offset : Nat) :
    ((groups.zipIdx offset).map fun (group, i) => (group : ℚ) * 10000 ^ (weight - i)).sum =
      (horner 10000 groups 0 : ℚ) * 10000 ^ (weight - offset - groups.length + 1) := by
  induction groups generalizing offset with
  | nil => simp
  | cons group groups ih =>
    have hplace : (10000 : ℚ) ^ (weight - offset) =
        10000 ^ groups.length * 10000 ^ (weight - offset - (groups.length + 1 : Nat) + 1) := by
      rw [← zpow_natCast, ← zpow_add₀ (by norm_num)]
      congr 1
      push_cast
      ring
    have hrest : (10000 : ℚ) ^ (weight - (offset + 1 : Nat) - groups.length + 1) =
        10000 ^ (weight - offset - (groups.length + 1 : Nat) + 1) := by
      congr 1
      push_cast
      ring
    rw [List.zipIdx_cons, List.map_cons, List.sum_cons, ih, horner_cons,
      horner_eq groups (0 * 10000 + group), Nat.zero_mul, Nat.zero_add, List.length_cons, hrest]
    dsimp only
    rw [hplace]
    push_cast
    ring

theorem value_eq : num.value = num.sign * (num.mantissa * 10 ^ num.exponent) := by
  have hbase : (10000 : ℚ) = 10 ^ (4 : Int) := by norm_num
  rw [value, sum_zipIdx, mantissa, exponent, Nat.cast_zero, sub_zero, hbase, ← zpow_mul]

theorem value_mul_pow (scale : Nat) :
    num.value * 10 ^ scale = num.sign * (num.mantissa * 10 ^ (num.exponent + scale)) := by
  rw [value_eq, zpow_add₀ (by norm_num), zpow_natCast]
  ring

theorem sign_mul_self : num.sign * num.sign = 1 := by
  unfold sign
  split_ifs <;> rfl

theorem abs_sign_mul (n : Int) : |num.sign * n| = |n| := by
  unfold sign
  split_ifs <;> simp

/-- The integer that a scale leaves has the sign and a magnitude that is the groups' integer, shifted. -/
theorem value_mul_pow_eq_iff {scale : Nat} {v : Int} :
    num.value * 10 ^ scale = v ↔
      ∃ m : Nat, ScaledBy (num.exponent + scale) num.mantissa m ∧ v = num.sign * m := by
  have hsquare : (num.sign : ℚ) * num.sign = 1 := by exact_mod_cast num.sign_mul_self
  rw [value_mul_pow]
  constructor
  · intro h
    have hmagnitude : (num.mantissa : ℚ) * 10 ^ (num.exponent + scale) = (num.sign * v : Int) := by
      rw [Int.cast_mul, ← h, ← mul_assoc, hsquare, one_mul]
    have hnonneg : 0 ≤ num.sign * v := by
      have hreal : (0 : ℚ) ≤ (num.sign * v : Int) := by
        rw [← hmagnitude]
        exact mul_nonneg (Nat.cast_nonneg _) (zpow_nonneg (by norm_num) _)
      exact_mod_cast hreal
    obtain ⟨m, hm⟩ := Int.eq_ofNat_of_zero_le hnonneg
    refine ⟨m, scaledBy_iff.mpr ?_, ?_⟩
    · rw [hmagnitude, hm]
      rfl
    · rw [← hm, ← mul_assoc, sign_mul_self, one_mul]
  · rintro ⟨m, hm, rfl⟩
    rw [scaledBy_iff.mp hm]
    push_cast
    rfl

theorem bytes_accepts {scale : Nat} : Accepts num.bytes scale ↔ num.dscale ≤ scale := by
  refine ⟨fun h => num.dscale_bytes ▸ h.scale, fun h => ⟨?_, ?_, ?_, ?_⟩⟩
  · rw [sign_bytes]
    cases num.negative
    · exact .inl rfl
    · exact .inr rfl
  · rw [count_bytes]
    exact num.count_lt
  · rw [count_bytes, length_bytes]
  · rwa [dscale_bytes]

end FiniteNumeric

theorem bmod_mem (u : Nat) :
    -2 ^ 15 ≤ (u : Int).bmod (2 ^ 16) ∧ (u : Int).bmod (2 ^ 16) < 2 ^ 15 := by
  rw [Int.bmod_eq_emod]
  split_ifs <;> omega

theorem word_bmod {u : Nat} (h : u < 2 ^ 16) : ((u : Int).bmod (2 ^ 16) % 2 ^ 16).toNat = u := by
  rw [Int.bmod_eq_emod]
  split_ifs <;> omega

/-- Bytes are four words and the groups. -/
theorem eq_words {raw : Bytes} {n : Nat} (h : raw.length = 8 + 2 * n) :
    raw = beBytes 2 (u16At raw 0) ++ (beBytes 2 (u16At raw 2) ++ (beBytes 2 (u16At raw 4) ++
      (beBytes 2 (u16At raw 6) ++ ((List.range n).map fun i => u16At raw (8 + 2 * i)).flatMap (beBytes 2)))) := by
  have hwords := @eq_flatMap raw (4 + n) (by omega)
  have hplace : ∀ i, 2 * (4 + i) = 8 + 2 * i := by omega
  rw [List.range_add, List.map_append, List.map_map, List.flatMap_append] at hwords
  simp only [Function.comp_def, hplace] at hwords
  exact hwords

/-- The bytes that are decoded are those of a value. -/
theorem exists_bytes_eq {raw : Bytes} {scale : Nat} (h : Accepts raw scale)
    (hgroups : ∀ i < u16At raw 0, u16At raw (8 + 2 * i) < 10000) : ∃ num : FiniteNumeric, num.bytes = raw := by
  have hlen : ((List.range (u16At raw 0)).map fun i => u16At raw (8 + 2 * i)).length = u16At raw 0 := by simp
  let num : FiniteNumeric :=
    { weight := i16At raw 2
      negative := decide (u16At raw 4 = SIGN_NEG)
      dscale := u16At raw 6
      groups := (List.range (u16At raw 0)).map fun i => u16At raw (8 + 2 * i)
      weight_mem := bmod_mem (u16At raw 2)
      dscale_lt := u16At_lt raw 6
      count_lt := hlen.symm ▸ h.count
      group_lt := fun group hmem => by
        obtain ⟨i, hi, rfl⟩ := List.mem_map.mp hmem
        exact hgroups i (List.mem_range.mp hi) }
  have hsign : (if num.negative then SIGN_NEG else SIGN_POS) = u16At raw 4 := by
    rcases h.sign with hsign | hsign <;> simp [num, hsign, SIGN_NEG, SIGN_POS]
  have hweight : (i16At raw 2 % 2 ^ 16).toNat = u16At raw 2 := @word_bmod (u16At raw 2) (u16At_lt raw 2)
  refine ⟨num, ?_⟩
  rw [num.bytes_eq, hsign, hweight, show num.groups.length = u16At raw 0 from hlen]
  exact (eq_words h.length).symm

namespace FiniteNumeric

variable (num : FiniteNumeric) {scale : Nat} {column : String} {v : Int}

theorem sign_ite (m : Nat) : (if u16At num.bytes 4 = SIGN_NEG then -(m : Int) else m) = num.sign * m := by
  rw [sign_bytes, sign]
  cases num.negative <;> simp [SIGN_NEG, SIGN_POS]

/-- What the bytes of a value are decoded to. -/
theorem numericToI128_bytes :
    numericToI128 num.bytes scale column = .ok v ↔
      num.dscale ≤ scale ∧ num.value * 10 ^ scale = v ∧ |v| ≤ I128_MAX := by
  have hgroups : ∀ i < u16At num.bytes 0, u16At num.bytes (8 + 2 * i) < 10000 := by
    intro i hi
    rw [count_bytes] at hi
    rw [group_bytes _ hi]
    exact num.group_lt _ (List.getElem_mem hi)
  rw [numericToI128_eq_ok_iff, bytes_accepts, and_iff_right hgroups, mantissaAt_bytes, weight_bytes, count_bytes,
    value_mul_pow_eq_iff, ← mantissa, ← exponent]
  refine and_congr_right fun _ => ?_
  simp only [sign_ite]
  constructor
  · rintro ⟨m, hfits, hscaled, rfl⟩
    refine ⟨⟨m, hscaled, rfl⟩, ?_⟩
    rw [abs_sign_mul, Nat.abs_cast]
    exact_mod_cast hfits
  · rintro ⟨⟨m, hscaled, rfl⟩, hfits⟩
    rw [abs_sign_mul, Nat.abs_cast] at hfits
    exact ⟨m, by exact_mod_cast hfits, hscaled, rfl⟩

end FiniteNumeric

/-- The bytes that are decoded are those of the finite values that the scale carries. -/
theorem numericToI128_iff {raw : Bytes} {scale : Nat} {column : String} {v : Int} :
    numericToI128 raw scale column = .ok v ↔
      ∃ num : FiniteNumeric, num.bytes = raw ∧ num.dscale ≤ scale ∧ num.value * 10 ^ scale = v ∧
        |v| ≤ I128_MAX := by
  constructor
  · intro h
    obtain ⟨haccepts, hgroups, -⟩ := numericToI128_eq_ok_iff.mp h
    obtain ⟨num, rfl⟩ := exists_bytes_eq haccepts hgroups
    exact ⟨num, rfl, num.numericToI128_bytes.mp h⟩
  · rintro ⟨num, rfl, h⟩
    exact num.numericToI128_bytes.mpr h

/-! ## Texts -/

/-- The digits of a text denote the same number. -/
theorem horner_digits (chars : List Char) (init : Nat) :
    horner 10 (chars.map fun c => c.toNat - '0'.toNat) init = Nat.ofDigitChars 10 chars init := by
  induction chars generalizing init with
  | nil => rfl
  | cons c chars ih => rw [List.map_cons, horner_cons, ih, Nat.ofDigitChars_cons, Nat.mul_comm]

section
variable {column trimmed : String} {chars word : List Char}

/-- Digits are read as one number. -/
theorem foldlM_textDigit (h : ∀ c ∈ chars, c.isDigit = true) (read : Nat × Nat) :
    chars.foldlM (textDigit column trimmed) read =
      match checked 10 I128_MAX (chars.map fun c => c.toNat - '0'.toNat) read.2 with
      | none => .error (.generic s!"column '{column}': numeric {trimmed} does not fit a 128-bit decimal")
      | some value => .ok (read.1 + chars.length, value) := by
  induction chars generalizing read with
  | nil => rfl
  | cons c chars ih =>
    obtain ⟨hc, hchars⟩ := List.forall_mem_cons.mp h
    have hsep : ¬(c = ',' ∨ c = '_' ∨ c = ' ') := by
      rintro (rfl | rfl | rfl) <;> exact absurd hc (by decide)
    rw [List.foldlM_cons, textDigit, if_neg hsep, if_neg (not_not.mpr hc), List.map_cons, checked, List.foldlM_cons]
    cases hstep : pushDigit 10 I128_MAX read.2 (c.toNat - '0'.toNat) with
    | none => rfl
    | some value =>
      refine (ih hchars (read.1 + 1, value)).trans ?_
      rw [List.length_cons, Nat.add_right_comm, Nat.add_assoc]
      rfl

/-- A digit is no letter, so a text with one is no word. -/
theorem eqIgnoreAsciiCase_eq_false {c : Char} (hc : c ∈ chars) (hdigit : c.isDigit = true)
    (hword : (word.any fun w => w.toLower.isDigit) = false) : eqIgnoreAsciiCase chars word = false := by
  have hlower : c.toLower = c := by
    have hrange := Char.isDigit_iff_toNat.mp hdigit
    refine dif_neg fun hupper => ?_
    have hA : 'A'.toNat ≤ c.toNat := UInt32.le_iff_toNat_le.mp hupper.1
    exact absurd (hA.trans hrange.2) (by decide)
  refine decide_eq_false fun heq => ?_
  obtain ⟨w, hw, hwc⟩ := List.mem_map.mp (heq ▸ List.mem_map_of_mem hc)
  refine Bool.eq_false_iff.mp hword (List.any_eq_true.mpr ⟨w, hw, ?_⟩)
  rw [hwc, hlower, hdigit]

end

section
variable {d : DecimalText} {scale : Nat} {column : String} {v : Int}

theorem exists_isDigit (d : DecimalText) : ∃ c ∈ d.unsigned, c.isDigit = true := by
  obtain ⟨c, hc⟩ := List.exists_mem_of_ne_nil _ d.ne_nil
  refine ⟨c, ?_, d.isDigit c hc⟩
  rw [DecimalText.unsigned]
  refine (List.mem_append.mp hc).elim (List.mem_append_left _) fun hc => List.mem_append_right _ ?_
  cases hfraction : d.fraction with
  | none => rw [hfraction] at hc; cases hc
  | some fraction => exact List.mem_cons_of_mem _ (by rwa [hfraction] at hc)

theorem minus_ite (d : DecimalText) (m : Nat) :
    (if decide (d.sign = .minus) = true then -(m : Int) else m) = d.sign.factor * m := by
  cases d.sign <;> simp [Sign.factor]

/-- What a decimal text is decoded to. -/
theorem numericTextToI128_chars :
    numericTextToI128 d.chars scale column = .ok v ↔
      d.decimals ≤ scale ∧ |d.scaled scale| ≤ I128_MAX ∧ v = d.scaled scale := by
  obtain ⟨c, hmem, hdigit⟩ := exists_isDigit d
  have hnan : eqIgnoreAsciiCase d.chars "nan".toList = false :=
    eqIgnoreAsciiCase_eq_false (List.mem_append_right _ hmem) hdigit rfl
  have hinfinity : eqIgnoreAsciiCase d.unsigned "infinity".toList = false :=
    eqIgnoreAsciiCase_eq_false hmem hdigit rfl
  have hinf : eqIgnoreAsciiCase d.unsigned "inf".toList = false := eqIgnoreAsciiCase_eq_false hmem hdigit rfl
  have hdigits : d.integer ++ d.fraction.getD [] = d.digits := rfl
  have hcount : (d.fraction.getD []).countP Char.isDigit = d.decimals :=
    List.countP_eq_length.mpr fun c hc => d.isDigit c (List.mem_append_right _ hc)
  have hlength : (0 : Nat) + d.digits.length ≠ 0 := by
    rw [Nat.zero_add]
    exact (List.length_pos_of_ne_nil d.ne_nil).ne'
  have hmantissa : checked 10 I128_MAX (d.digits.map fun c => c.toNat - '0'.toNat) 0 =
      if d.mantissa ≤ I128_MAX then some d.mantissa else none := by
    rw [checked_eq (by decide) _ (Nat.zero_le _), horner_digits, ← DecimalText.mantissa]
  have hread := @foldlM_textDigit column (String.ofList d.chars) d.digits d.isDigit (0, 0)
  have hgrown : d.mantissa ≤ d.mantissa * 10 ^ (scale - d.decimals) :=
    Nat.le_mul_of_pos_right _ (Nat.pow_pos (by decide))
  have hfits : |d.scaled scale| ≤ I128_MAX ↔ d.mantissa * 10 ^ (scale - d.decimals) ≤ I128_MAX := by
    rw [DecimalText.abs_scaled]
    exact Nat.cast_le
  unfold numericTextToI128
  rw [DecimalText.trim_chars]
  dsimp only
  rw [DecimalText.stripSign_chars]
  dsimp only
  rw [hnan, hinfinity, hinf, DecimalText.splitOnce_unsigned]
  dsimp only
  rw [if_neg Bool.false_ne_true, Bool.or_false, if_neg Bool.false_ne_true, hdigits, hcount, hread, hmantissa,
    hfits]
  by_cases hsmall : d.mantissa ≤ I128_MAX
  · rw [if_pos hsmall]
    dsimp only
    rw [ok_bind, if_neg hlength, Int.toNat_natCast]
    by_cases hscale : scale < d.decimals
    · rw [if_pos hscale]
      exact iff_of_false (by rintro ⟨⟩) fun h => absurd h.1 (not_le.mpr hscale)
    · rw [if_neg hscale, foldlM_checkedMul (by decide) _ hsmall, and_iff_right (not_lt.mp hscale)]
      by_cases hscaled : d.mantissa * 10 ^ (scale - d.decimals) ≤ I128_MAX
      · rw [if_pos hscaled, and_iff_right hscaled, DecimalText.scaled, ← minus_ite]
        exact ⟨fun h => (Except.ok.inj h).symm, fun h => congrArg _ h.symm⟩
      · rw [if_neg hscaled]
        exact iff_of_false (by rintro ⟨⟩) fun h => hscaled h.1
  · rw [if_neg hsmall]
    exact iff_of_false (by rintro ⟨⟩) fun h => hsmall (hgrown.trans h.2.1)

end

/-! ## The text of a value -/

/-- An integer times a power of ten, where that is an integer. -/
def shifted (exponent : Int) (value : Nat) : Nat := value * 10 ^ exponent.toNat / 10 ^ (-exponent).toNat

theorem scaledBy_shifted {exponent : Int} {value : Nat} (h : 10 ^ (-exponent).toNat ∣ value) :
    ScaledBy exponent value (shifted exponent value) := by
  refine ⟨fun hnonneg => ?_, fun hneg => ?_⟩
  · rw [shifted, show (-exponent).toNat = 0 by omega, pow_zero, Nat.div_one]
  · rw [shifted, show exponent.toNat = 0 by omega, pow_zero, Nat.mul_one, Nat.div_mul_cancel h]

theorem exists_scaledBy_iff {exponent : Int} {value : Nat} :
    (∃ m, ScaledBy exponent value m) ↔ 10 ^ (-exponent).toNat ∣ value := by
  refine ⟨fun ⟨m, hm⟩ => ?_, fun h => ⟨_, scaledBy_shifted h⟩⟩
  rcases lt_or_ge exponent 0 with h | h
  · exact Dvd.intro_left m (hm.2 h)
  · rw [show (-exponent).toNat = 0 by omega, pow_zero]
    exact one_dvd value

namespace FiniteNumeric

variable (num : FiniteNumeric)

/-- Whether so many fractional digits carry the value. -/
def CarriedBy (digits : Nat) : Prop := 10 ^ (-(num.exponent + digits)).toNat ∣ num.mantissa

instance : DecidablePred num.CarriedBy := fun digits =>
  inferInstanceAs (Decidable (10 ^ (-(num.exponent + digits)).toNat ∣ num.mantissa))

theorem carriedBy_iff {digits : Nat} : num.CarriedBy digits ↔ ∃ v : Int, num.value * 10 ^ digits = v := by
  rw [CarriedBy, ← exists_scaledBy_iff]
  constructor
  · rintro ⟨m, hm⟩
    exact ⟨_, num.value_mul_pow_eq_iff.mpr ⟨m, hm, rfl⟩⟩
  · rintro ⟨v, hv⟩
    obtain ⟨m, hm, -⟩ := num.value_mul_pow_eq_iff.mp hv
    exact ⟨m, hm⟩

theorem exists_carriedBy : ∃ digits, num.CarriedBy digits := by
  refine ⟨(-num.exponent).toNat, ?_⟩
  rw [CarriedBy, show (-(num.exponent + (-num.exponent).toNat)).toNat = 0 by omega, pow_zero]
  exact one_dvd _

/-- The fractional digits that are printed: those it is sent with, and more where the groups need them. -/
def fractionDigits : Nat := max num.dscale (Nat.find num.exists_carriedBy)

/-- More digits carry what fewer do. -/
theorem CarriedBy.mono {num : FiniteNumeric} {digits digits' : Nat} (h : num.CarriedBy digits)
    (hle : digits ≤ digits') : num.CarriedBy digits' := by
  obtain ⟨v, hv⟩ := num.carriedBy_iff.mp h
  refine num.carriedBy_iff.mpr ⟨v * 10 ^ (digits' - digits), ?_⟩
  rw [← Nat.add_sub_cancel' hle, pow_add, ← mul_assoc, hv, Nat.add_sub_cancel_left]
  push_cast
  rfl

theorem fractionDigits_le_iff {scale : Nat} :
    num.fractionDigits ≤ scale ↔ num.dscale ≤ scale ∧ num.CarriedBy scale := by
  rw [fractionDigits, Nat.max_le, Nat.find_le_iff]
  refine and_congr_right fun _ => ⟨fun ⟨digits, hle, h⟩ => h.mono hle, fun h => ⟨scale, le_rfl, h⟩⟩

/-- The value, printed in decimal. -/
def rendering : DecimalText :=
  .ofNat (if num.negative then .minus else .none) (shifted (num.exponent + num.fractionDigits) num.mantissa)
    num.fractionDigits

theorem value_rendering : num.rendering.value = num.value := by
  have hcarried : num.CarriedBy num.fractionDigits := (num.fractionDigits_le_iff.mp le_rfl).2
  have hvalue := num.value_mul_pow_eq_iff.mpr ⟨_, scaledBy_shifted hcarried, rfl⟩
  have hsign : (if num.negative then Sign.minus else Sign.none).factor = num.sign := by
    rw [sign]
    split_ifs <;> rfl
  rw [DecimalText.value, rendering, DecimalText.sign_ofNat, DecimalText.mantissa_ofNat, DecimalText.decimals_ofNat,
    hsign, div_eq_iff (pow_ne_zero _ (by norm_num)), hvalue]
  push_cast
  rfl

@[simp] theorem decimals_rendering : num.rendering.decimals = num.fractionDigits := DecimalText.decimals_ofNat _ _ _

/-- A text of the value with those digits is decoded to what the bytes are decoded to. -/
theorem numericTextToI128_iff {d : DecimalText} (hvalue : d.value = num.value)
    (hdecimals : d.decimals = num.fractionDigits) {scale : Nat} {column : String} {v : Int} :
    numericTextToI128 d.chars scale column = .ok v ↔ numericToI128 num.bytes scale column = .ok v := by
  rw [numericTextToI128_chars, numericToI128_bytes, hdecimals, fractionDigits_le_iff, and_assoc]
  refine and_congr_right fun hdscale => ?_
  have hscaled : num.CarriedBy scale → num.value * 10 ^ scale = d.scaled scale := fun hcarried => by
    rw [← hvalue]
    exact DecimalText.value_mul_pow (hdecimals ▸ num.fractionDigits_le_iff.mpr ⟨hdscale, hcarried⟩)
  constructor
  · rintro ⟨hcarried, hfits, rfl⟩
    exact ⟨hscaled hcarried, hfits⟩
  · rintro ⟨hv, hfits⟩
    have hcarried : num.CarriedBy scale := num.carriedBy_iff.mpr ⟨v, hv⟩
    have heq : v = d.scaled scale := by exact_mod_cast hv.symm.trans (hscaled hcarried)
    exact ⟨hcarried, heq ▸ hfits, heq⟩

end FiniteNumeric

/-- **Bytes are decoded exactly where they are those of a finite value that the scale carries, to the value
at that scale; and the text of a value is decoded to the same.** -/
theorem numeric_exact (scale : Nat) (column : String) :
    (∀ (raw : Bytes) (v : Int), numericToI128 raw scale column = .ok v ↔
      ∃ num : FiniteNumeric, num.bytes = raw ∧ num.dscale ≤ scale ∧ num.value * 10 ^ scale = v ∧
        |v| ≤ I128_MAX) ∧
    ∀ num : FiniteNumeric, num.rendering.value = num.value ∧ ∀ v : Int,
      numericTextToI128 num.rendering.chars scale column = .ok v ↔
        numericToI128 num.bytes scale column = .ok v :=
  ⟨fun _ _ => numericToI128_iff, fun num =>
    ⟨num.value_rendering, fun _ => num.numericTextToI128_iff num.value_rendering num.decimals_rendering⟩⟩

end Saci.Postgres.Numeric
