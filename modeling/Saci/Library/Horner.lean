import Mathlib.Algebra.Order.Group.Nat
import Mathlib.Data.List.Forall2
import Mathlib.Tactic.Ring

/-!
# Digits in a base

The number that digits denote, read from the front, and the same reading within a bound. As the number
only grows from digit to digit, a bounded reading fails exactly where the number itself is out of bounds
(`checked_eq`): no step on the way to a number that fits is refused.
-/

namespace Horner

variable {base bound : Nat}

/-- The number that digits denote behind a number that was read before. -/
def horner (base : Nat) (digits : List Nat) (init : Nat) : Nat :=
  digits.foldl (fun value digit => value * base + digit) init

/-- A product, unless it is past the bound. -/
def checkedMul (bound a b : Nat) : Option Nat := if a * b ≤ bound then some (a * b) else none

/-- A sum, unless it is past the bound. -/
def checkedAdd (bound a b : Nat) : Option Nat := if a + b ≤ bound then some (a + b) else none

/-- One digit more. -/
def pushDigit (base bound value digit : Nat) : Option Nat :=
  (checkedMul bound value base).bind fun value => checkedAdd bound value digit

/-- The number that digits denote, unless a step is past the bound. -/
def checked (base bound : Nat) (digits : List Nat) (init : Nat) : Option Nat :=
  digits.foldlM (pushDigit base bound) init

@[simp] theorem horner_nil (init : Nat) : horner base [] init = init := rfl

@[simp] theorem horner_cons (digit : Nat) (digits : List Nat) (init : Nat) :
    horner base (digit :: digits) init = horner base digits (init * base + digit) := rfl

theorem horner_append (digits digits' : List Nat) (init : Nat) :
    horner base (digits ++ digits') init = horner base digits' (horner base digits init) :=
  List.foldl_append

/-- What was read before stands in front. -/
theorem horner_eq (digits : List Nat) (init : Nat) :
    horner base digits init = init * base ^ digits.length + horner base digits 0 := by
  induction digits generalizing init with
  | nil => simp
  | cons digit digits ih =>
    rw [horner_cons, horner_cons, ih, ih (0 * base + digit), List.length_cons, Nat.pow_succ]
    ring

theorem horner_lt {digits : List Nat} (h : ∀ digit ∈ digits, digit < base) :
    horner base digits 0 < base ^ digits.length := by
  induction digits with
  | nil => exact Nat.one_pos
  | cons digit digits ih =>
    obtain ⟨hdigit, hdigits⟩ := List.forall_mem_cons.mp h
    rw [horner_cons, horner_eq, Nat.zero_mul, Nat.zero_add, List.length_cons, Nat.pow_succ']
    calc digit * base ^ digits.length + horner base digits 0
        < digit * base ^ digits.length + base ^ digits.length := Nat.add_lt_add_left (ih hdigits) _
      _ = (digit + 1) * base ^ digits.length := by ring
      _ ≤ base * base ^ digits.length := Nat.mul_le_mul_right _ hdigit

theorem horner_eq_zero_iff (hbase : 0 < base) {digits : List Nat} :
    horner base digits 0 = 0 ↔ ∀ digit ∈ digits, digit = 0 := by
  induction digits with
  | nil => simp
  | cons digit digits ih =>
    rw [horner_cons, horner_eq, Nat.zero_mul, Nat.zero_add, Nat.add_eq_zero_iff, ih, List.forall_mem_cons,
      Nat.mul_eq_zero, or_iff_left (Nat.pow_pos hbase).ne']

theorem le_horner (hbase : 0 < base) (digits : List Nat) (init : Nat) : init ≤ horner base digits init := by
  rw [horner_eq]
  exact (Nat.le_mul_of_pos_right init (Nat.pow_pos hbase)).trans (Nat.le_add_right _ _)

theorem pushDigit_eq (value digit : Nat) :
    pushDigit base bound value digit =
      if value * base + digit ≤ bound then some (value * base + digit) else none := by
  rw [pushDigit, checkedMul]
  split_ifs with hmul hadd hadd
  · rw [Option.bind_some, checkedAdd, if_pos hadd]
  · rw [Option.bind_some, checkedAdd, if_neg hadd]
  · exact absurd ((Nat.le_add_right _ _).trans hadd) hmul
  · rfl

/-- **A bounded reading succeeds exactly where the number is within the bound.** -/
theorem checked_eq (hbase : 0 < base) (digits : List Nat) {init : Nat} (hinit : init ≤ bound) :
    checked base bound digits init =
      if horner base digits init ≤ bound then some (horner base digits init) else none := by
  induction digits generalizing init with
  | nil => exact (if_pos hinit).symm
  | cons digit digits ih =>
    rw [checked, List.foldlM_cons, pushDigit_eq]
    by_cases hstep : init * base + digit ≤ bound
    · rw [if_pos hstep]
      exact ih hstep
    · have hgrown := le_horner hbase digits (init * base + digit)
      rw [if_neg hstep, if_neg (by rw [horner_cons]; omega)]
      rfl

/-- A bounded product of equal factors succeeds exactly where it is within the bound. -/
theorem foldlM_checkedMul (hbase : 0 < base) (count : Nat) {value : Nat} (h : value ≤ bound) :
    (List.replicate count base).foldlM (checkedMul bound) value =
      if value * base ^ count ≤ bound then some (value * base ^ count) else none := by
  induction count generalizing value with
  | zero => rw [pow_zero, Nat.mul_one, if_pos h]; rfl
  | succ count ih =>
    rw [List.replicate_succ, List.foldlM_cons, checkedMul, Nat.pow_succ', ← Nat.mul_assoc]
    split_ifs with hstep hfits hfits
    · exact (ih hstep).trans (if_pos hfits)
    · exact (ih hstep).trans (if_neg hfits)
    · exact absurd ((Nat.le_mul_of_pos_right _ (Nat.pow_pos hbase)).trans hfits) hstep
    · rfl

/-- Digits read one after the other, and the number they denote within the bound. -/
def readDigits {ε ι : Type} (read : ι → Except ε Nat) (overflow : ε) (base bound : Nat) (places : List ι)
    (init : Nat) : Except ε Nat :=
  places.foldlM (fun value place => do
    let digit ← read place
    match pushDigit base bound value digit with
    | some value => .ok value
    | none => .error overflow) init

/-- Reading succeeds exactly where every digit is read and the number is within the bound. -/
theorem readDigits_eq_ok_iff {ε ι : Type} {read : ι → Except ε Nat} {overflow : ε} (hbase : 0 < base)
    {places : List ι} {init value : Nat} (hinit : init ≤ bound) :
    readDigits read overflow base bound places init = .ok value ↔
      ∃ digits, List.Forall₂ (fun place digit => read place = .ok digit) places digits ∧
        horner base digits init = value ∧ value ≤ bound := by
  induction places generalizing init with
  | nil =>
    constructor
    · intro h
      cases h
      exact ⟨[], .nil, rfl, hinit⟩
    · rintro ⟨digits, hdigits, rfl, -⟩
      cases hdigits
      rfl
  | cons place places ih =>
    rw [readDigits, List.foldlM_cons]
    cases hread : read place with
    | error e =>
      constructor
      · intro h
        cases h
      · rintro ⟨digits, hdigits, -, -⟩
        cases hdigits with
        | cons hdigit _ => cases hread.symm.trans hdigit
    | ok digit =>
      have hcons : (∃ digits, List.Forall₂ (fun place digit => read place = .ok digit) (place :: places) digits ∧
          horner base digits init = value ∧ value ≤ bound) ↔
            ∃ digits, List.Forall₂ (fun place digit => read place = .ok digit) places digits ∧
              horner base digits (init * base + digit) = value ∧ value ≤ bound := by
        constructor
        · rintro ⟨digits, hdigits, hvalue⟩
          cases hdigits with
          | cons hdigit hdigits =>
            cases hread.symm.trans hdigit
            exact ⟨_, hdigits, hvalue⟩
        · rintro ⟨digits, hdigits, hvalue⟩
          exact ⟨digit :: digits, .cons hread hdigits, hvalue⟩
      rw [hcons]
      by_cases hstep : init * base + digit ≤ bound
      · rw [← ih hstep]
        change (match pushDigit base bound init digit with
          | some value => (Except.ok value : Except ε Nat)
          | none => .error overflow) >>= _ = _ ↔ _
        rw [pushDigit_eq, if_pos hstep]
        rfl
      · change (match pushDigit base bound init digit with
          | some value => (Except.ok value : Except ε Nat)
          | none => .error overflow) >>= _ = _ ↔ _
        rw [pushDigit_eq, if_neg hstep]
        constructor
        · intro h
          cases h
        · rintro ⟨digits, -, rfl, hvalue⟩
          have hgrown := le_horner hbase digits (init * base + digit)
          omega

end Horner
