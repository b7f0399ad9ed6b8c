import Mathlib.Logic.Function.Iterate
import Mathlib.Algebra.Order.Group.Nat

/-!
# Cyclic redundancy checks

A register of `w` bits takes in one symbol after the other, each by exclusive or and `k` steps of
the division by a polynomial. A step is linear (`shift_xor`), and it loses nothing when the
polynomial has a constant term, which reflected is the highest bit (`shift_injective`). Symbols
that fit the register together are taken in as if they were one word (`fold_eq`), so that two
streams which differ in such a window only leave different registers (`fold_window`).
-/

namespace Crc

variable {w k : Nat} {poly : BitVec w}

/-- One step of the division: the lowest bit goes out. -/
def shift (poly c : BitVec w) : BitVec w :=
  if c.getLsbD 0 then (c >>> 1) ^^^ poly else c >>> 1

/-- The register after one more symbol. -/
def feed (poly : BitVec w) (k : Nat) (c symbol : BitVec w) : BitVec w :=
  (shift poly)^[k] (c ^^^ symbol)

def fold (poly : BitVec w) (k : Nat) (c : BitVec w) (symbols : List (BitVec w)) : BitVec w :=
  symbols.foldl (feed poly k) c

/-- The word of some symbols of `k` bits, the first one lowest. -/
def word (k : Nat) : List (BitVec w) → BitVec w
  | [] => 0
  | symbol :: symbols => symbol ^^^ (word k symbols <<< k)

/-! ## One step -/

theorem shift_eq (c : BitVec w) :
    shift poly c = (c >>> 1) ^^^ (if c.getLsbD 0 then poly else 0) := by
  rw [shift]
  split
  · rfl
  · exact BitVec.xor_zero.symm

theorem shift_xor (a b : BitVec w) : shift poly (a ^^^ b) = shift poly a ^^^ shift poly b := by
  simp only [shift_eq, BitVec.getLsbD_xor, BitVec.ushiftRight_xor_distrib]
  cases a.getLsbD 0 <;> cases b.getLsbD 0
  · simp
  · simp [BitVec.xor_assoc]
  · simp only [Bool.xor_false, if_true, Bool.false_eq_true, if_false]
    ac_rfl
  · have hcancel : (a >>> 1) ^^^ poly ^^^ ((b >>> 1) ^^^ poly) =
        (a >>> 1) ^^^ (b >>> 1) ^^^ (poly ^^^ poly) := by ac_rfl
    simp [hcancel]

theorem shift_eq_zero (hpoly : poly.getLsbD (w - 1) = true) {c : BitVec w}
    (h : shift poly c = 0) : c = 0 := by
  rw [shift] at h
  split at h
  case isTrue =>
    -- the highest bit comes from the polynomial only
    have hbit := congrArg (fun x : BitVec w => x.getLsbD (w - 1)) h
    have hw : w - 1 < w := BitVec.lt_of_getLsbD hpoly
    have hhigh : c.getLsbD (1 + (w - 1)) = false := BitVec.getLsbD_of_ge c _ (by omega)
    simp [hpoly, hhigh] at hbit
  case isFalse hlow =>
    refine BitVec.eq_of_getLsbD_eq fun i hi => ?_
    change c.getLsbD i = (0#w).getLsbD i
    rw [BitVec.getLsbD_zero]
    cases i with
    | zero => exact Bool.eq_false_iff.mpr hlow
    | succ i =>
      have hbit := congrArg (fun x : BitVec w => x.getLsbD i) h
      simpa [Nat.add_comm] using hbit

theorem shift_injective (hpoly : poly.getLsbD (w - 1) = true) :
    Function.Injective (shift poly) := by
  intro a b h
  have hzero : a ^^^ b = 0 := by
    refine shift_eq_zero hpoly ?_
    rw [shift_xor, h]
    exact BitVec.xor_self
  exact BitVec.xor_eq_zero_iff.mp hzero

theorem iterate_shift_xor (n : Nat) (a b : BitVec w) :
    (shift poly)^[n] (a ^^^ b) = (shift poly)^[n] a ^^^ (shift poly)^[n] b := by
  induction n generalizing a b with
  | zero => rfl
  | succ n ih => rw [Function.iterate_succ_apply, shift_xor, ih]; rfl

/-- What stands above the lowest `n` bits only moves down in `n` steps. -/
theorem iterate_shift_of_clear {c : BitVec w} {n : Nat} (h : ∀ i < n, c.getLsbD i = false) :
    (shift poly)^[n] c = c >>> n := by
  induction n with
  | zero => exact (BitVec.ushiftRight_zero c).symm
  | succ n ih =>
    have hlow : (c >>> n).getLsbD 0 = false := by simpa using h n (Nat.lt_succ_self n)
    rw [Function.iterate_succ_apply', ih fun i hi => h i (Nat.lt_succ_of_lt hi), shift, hlow,
      if_neg Bool.false_ne_true, BitVec.shiftRight_add]

theorem iterate_shift_shiftLeft {c : BitVec w} {n m : Nat} (hc : c.toNat < 2 ^ m)
    (hfit : n + m ≤ w) : (shift poly)^[n] (c <<< n) = c := by
  rw [iterate_shift_of_clear fun i hi => by simp [hi]]
  refine BitVec.eq_of_getLsbD_eq fun i hi => ?_
  rw [BitVec.getLsbD_ushiftRight, BitVec.getLsbD_shiftLeft]
  rcases Nat.lt_or_ge i m with him | him
  · have hin : n + i < w := by omega
    simp [hin]
  · have hhigh : c.getLsbD i = false :=
      Nat.testBit_lt_two_pow (hc.trans_le (Nat.pow_le_pow_right Nat.two_pos him))
    simp [hhigh]

/-! ## Symbols that fit the register -/

theorem word_lt {symbols : List (BitVec w)} (hsmall : ∀ s ∈ symbols, s.toNat < 2 ^ k) :
    (word k symbols).toNat < 2 ^ (symbols.length * k) := by
  induction symbols with
  | nil => simp [word]
  | cons s symbols ih =>
    have hs : s.toNat < 2 ^ ((s :: symbols).length * k) := by
      refine (hsmall s List.mem_cons_self).trans_le (Nat.pow_le_pow_right Nat.two_pos ?_)
      exact Nat.le_mul_of_pos_left k (Nat.succ_pos _)
    have hrest : (word k symbols <<< k).toNat < 2 ^ ((s :: symbols).length * k) := by
      have hle := Nat.mod_le ((word k symbols).toNat <<< k) (2 ^ w)
      refine hle.trans_lt ?_
      rw [Nat.shiftLeft_eq, List.length_cons, Nat.succ_mul, Nat.pow_add]
      exact Nat.mul_lt_mul_of_pos_right
        (ih fun s hs => hsmall s (List.mem_cons_of_mem _ hs)) (Nat.two_pow_pos k)
    exact Nat.xor_lt_two_pow hs hrest

/-- Symbols that fit the register are taken in like their word. -/
theorem fold_eq {symbols : List (BitVec w)} (hsmall : ∀ s ∈ symbols, s.toNat < 2 ^ k)
    (hfit : symbols.length * k ≤ w) (c : BitVec w) :
    fold poly k c symbols = (shift poly)^[symbols.length * k] (c ^^^ word k symbols) := by
  induction symbols generalizing c with
  | nil => simp [fold, word]
  | cons s symbols ih =>
    have hrest : ∀ s ∈ symbols, s.toNat < 2 ^ k := fun s hs =>
      hsmall s (List.mem_cons_of_mem _ hs)
    rw [List.length_cons, Nat.succ_mul] at hfit
    have hback : (shift poly)^[k] (word k symbols <<< k) = word k symbols :=
      iterate_shift_shiftLeft (word_lt hrest) (by omega)
    calc fold poly k c (s :: symbols)
        = fold poly k ((shift poly)^[k] (c ^^^ s)) symbols := rfl
      _ = (shift poly)^[symbols.length * k]
            ((shift poly)^[k] (c ^^^ s) ^^^ (shift poly)^[k] (word k symbols <<< k)) := by
          rw [ih hrest (by omega), hback]
      _ = (shift poly)^[(s :: symbols).length * k] (c ^^^ word k (s :: symbols)) := by
          rw [← iterate_shift_xor, ← Function.iterate_add_apply, BitVec.xor_assoc,
            List.length_cons, Nat.succ_mul, word]

theorem word_injective {xs ys : List (BitVec w)} (hlen : xs.length = ys.length)
    (hfit : xs.length * k ≤ w) (hxs : ∀ s ∈ xs, s.toNat < 2 ^ k) (hys : ∀ s ∈ ys, s.toNat < 2 ^ k)
    (h : word k xs = word k ys) : xs = ys := by
  induction xs generalizing ys with
  | nil => exact (List.eq_nil_of_length_eq_zero hlen.symm).symm
  | cons x xs ih =>
    obtain ⟨y, ys, rfl⟩ := List.exists_cons_of_length_eq_add_one hlen.symm
    rw [List.length_cons, Nat.succ_mul] at hfit
    have hlen' : xs.length = ys.length := Nat.succ.inj hlen
    have hxs' : ∀ s ∈ xs, s.toNat < 2 ^ k := fun s hs => hxs s (List.mem_cons_of_mem _ hs)
    have hys' : ∀ s ∈ ys, s.toNat < 2 ^ k := fun s hs => hys s (List.mem_cons_of_mem _ hs)
    have hhead : x = y := by
      refine BitVec.eq_of_getLsbD_eq fun i hi => ?_
      rcases Nat.lt_or_ge i k with hik | hik
      · have hbit := congrArg (fun x : BitVec w => x.getLsbD i) h
        simpa [word, hik] using hbit
      · have hhigh : ∀ s : BitVec w, s.toNat < 2 ^ k → s.getLsbD i = false := fun s hs =>
          Nat.testBit_lt_two_pow (hs.trans_le (Nat.pow_le_pow_right Nat.two_pos hik))
        rw [hhigh x (hxs x List.mem_cons_self), hhigh y (hys y List.mem_cons_self)]
    subst hhead
    have htail : word k xs <<< k = word k ys <<< k := by
      have hcancel := congrArg (x ^^^ ·) h
      simpa [word, ← BitVec.xor_assoc] using hcancel
    -- the steps by the zero polynomial shift back
    have hback : (shift 0#w)^[k] (word k ys <<< k) = word k ys :=
      iterate_shift_shiftLeft (word_lt hys') (by rw [← hlen']; omega)
    have hwords : word k xs = word k ys := by
      rw [← hback, ← htail]
      exact (iterate_shift_shiftLeft (word_lt hxs') (by omega)).symm
    rw [ih hlen' (by omega) hxs' hys' hwords]

/-! ## Streams -/

theorem feed_injective (hpoly : poly.getLsbD (w - 1) = true) (k : Nat) (symbol : BitVec w) :
    Function.Injective fun c => feed poly k c symbol := by
  intro a b h
  exact (BitVec.xor_left_inj symbol).mp ((shift_injective hpoly).iterate k h)

/-- The same symbols keep different registers apart. -/
theorem fold_injective (hpoly : poly.getLsbD (w - 1) = true) (k : Nat)
    (symbols : List (BitVec w)) : Function.Injective fun c => fold poly k c symbols := by
  induction symbols with
  | nil => exact fun _ _ h => h
  | cons symbol symbols ih => exact fun a b h => feed_injective hpoly k symbol (ih h)

theorem fold_append (c : BitVec w) (xs ys : List (BitVec w)) :
    fold poly k c (xs ++ ys) = fold poly k (fold poly k c xs) ys :=
  List.foldl_append

/-- Streams that agree but for a window that fits the register, and leave the same register, agree
in the window. -/
theorem fold_window (hpoly : poly.getLsbD (w - 1) = true) {c : BitVec w}
    {before xs ys after : List (BitVec w)} (hlen : xs.length = ys.length)
    (hfit : xs.length * k ≤ w) (hxs : ∀ s ∈ xs, s.toNat < 2 ^ k) (hys : ∀ s ∈ ys, s.toNat < 2 ^ k)
    (h : fold poly k c (before ++ xs ++ after) = fold poly k c (before ++ ys ++ after)) :
    xs = ys := by
  simp only [fold_append] at h
  have hwindow := fold_injective hpoly k after h
  rw [fold_eq hxs hfit, fold_eq hys (hlen ▸ hfit), ← hlen] at hwindow
  have hwords := (shift_injective hpoly).iterate _ hwindow
  exact word_injective hlen hfit hxs hys ((BitVec.xor_right_inj _).mp hwords)

end Crc
