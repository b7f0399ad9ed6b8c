import Saci.Library.BigEndian

/-!
# Fixed-width decimal numbers

Zero-padded decimal digits in ASCII, the most significant first. At one width the lexicographic
order of the digits is the order of the numbers (`decimal_lt_iff`), also between a common front and
a common back (`append_decimal_lt_iff`), so an ordered store keeps keys with such a segment in the
order of their numbers.
-/

/-- The digit of a number below ten. -/
def digitByte (d : Nat) : UInt8 := UInt8.ofNat (48 + d)

/-- `b.is_ascii_digit()`. -/
def isAsciiDigit (b : UInt8) : Bool := 48 ≤ b ∧ b ≤ 57

/-- The `w` low-order decimal digits of a number. -/
def decimal : Nat → Nat → Bytes
  | 0, _ => []
  | w + 1, n => digitByte (n / 10 ^ w % 10) :: decimal w (n % 10 ^ w)

/-- The number that digits denote. -/
def decimalValue : Bytes → Nat
  | [] => 0
  | b :: l => (b.toNat - 48) * 10 ^ l.length + decimalValue l

@[simp] theorem length_decimal (w n : Nat) : (decimal w n).length = w := by
  induction w generalizing n with
  | zero => rfl
  | succ w ih => rw [decimal, List.length_cons, ih]

theorem toNat_digitByte {d : Nat} (h : d < 10) : (digitByte d).toNat = 48 + d := by
  rw [digitByte, UInt8.toNat_ofNat']
  omega

theorem isAsciiDigit_iff {b : UInt8} : isAsciiDigit b = true ↔ 48 ≤ b.toNat ∧ b.toNat ≤ 57 := by
  rw [isAsciiDigit, decide_eq_true_eq, UInt8.le_iff_toNat_le, UInt8.le_iff_toNat_le]
  rfl

theorem isAsciiDigit_of_mem_decimal {w n : Nat} {b : UInt8} (h : b ∈ decimal w n) :
    isAsciiDigit b = true := by
  induction w generalizing n with
  | zero => cases h
  | succ w ih =>
    rcases List.mem_cons.mp h with rfl | h
    · have hlt : n / 10 ^ w % 10 < 10 := Nat.mod_lt _ (by decide)
      rw [isAsciiDigit_iff, toNat_digitByte hlt]
      omega
    · exact ih h

theorem decimalValue_decimal (w n : Nat) : decimalValue (decimal w n) = n % 10 ^ w := by
  induction w generalizing n with
  | zero => rw [pow_zero, Nat.mod_one]; rfl
  | succ w ih =>
    have hlt : n / 10 ^ w % 10 < 10 := Nat.mod_lt _ (by decide)
    rw [decimal, decimalValue, ih, length_decimal, toNat_digitByte hlt, Nat.mod_mod, Nat.pow_succ,
      Nat.mod_mul, Nat.add_sub_cancel_left]
    ring

theorem decimalValue_lt {l : Bytes} (h : ∀ b ∈ l, isAsciiDigit b = true) :
    decimalValue l < 10 ^ l.length := by
  induction l with
  | nil => exact Nat.one_pos
  | cons b l ih =>
    obtain ⟨hb, hl⟩ := List.forall_mem_cons.mp h
    have hb := isAsciiDigit_iff.mp hb
    calc decimalValue (b :: l) < (b.toNat - 48) * 10 ^ l.length + 10 ^ l.length :=
          Nat.add_lt_add_left (ih hl) _
      _ = (b.toNat - 48 + 1) * 10 ^ l.length := by ring
      _ ≤ 10 * 10 ^ l.length := Nat.mul_le_mul_right _ (by omega)
      _ = 10 ^ (b :: l).length := by rw [List.length_cons, Nat.pow_succ, Nat.mul_comm]

/-- Digits are those of the number they denote. -/
theorem decimal_decimalValue {l : Bytes} (h : ∀ b ∈ l, isAsciiDigit b = true) :
    decimal l.length (decimalValue l) = l := by
  induction l with
  | nil => rfl
  | cons b l ih =>
    obtain ⟨hb, hl⟩ := List.forall_mem_cons.mp h
    have hb := isAsciiDigit_iff.mp hb
    have hlt := decimalValue_lt hl
    have hdiv : decimalValue (b :: l) / 10 ^ l.length = b.toNat - 48 := by
      rw [decimalValue, Nat.mul_comm, Nat.mul_add_div (Nat.pow_pos (by decide)),
        Nat.div_eq_of_lt hlt, Nat.add_zero]
    have hmod : decimalValue (b :: l) % 10 ^ l.length = decimalValue l := by
      rw [decimalValue, Nat.mul_add_mod_self_right, Nat.mod_eq_of_lt hlt]
    have hdigit : digitByte (b.toNat - 48) = b := by
      refine UInt8.toNat_inj.mp ?_
      rw [toNat_digitByte (by omega)]
      omega
    rw [List.length_cons, decimal, hdiv, hmod, ih hl, Nat.mod_eq_of_lt (by omega), hdigit]

/-! ## Order -/

theorem decimal_lt_iff {w m n : Nat} (hm : m < 10 ^ w) (hn : n < 10 ^ w) :
    decimal w m < decimal w n ↔ m < n := by
  induction w generalizing m n with
  | zero =>
    rw [pow_zero] at hm hn
    simp [decimal]
    omega
  | succ w ih =>
    have hpos : 0 < 10 ^ w := Nat.pow_pos (by decide)
    have hdigit : ∀ {k : Nat}, k < 10 ^ (w + 1) → k / 10 ^ w < 10 := fun hk =>
      Nat.div_lt_of_lt_mul (by rwa [← Nat.pow_succ])
    have hm' := hdigit hm
    have hn' := hdigit hn
    rw [decimal, decimal, List.cons_lt_cons_iff, ih (Nat.mod_lt _ hpos) (Nat.mod_lt _ hpos),
      UInt8.lt_iff_toNat_lt, ← UInt8.toNat_inj, Nat.mod_eq_of_lt hm', Nat.mod_eq_of_lt hn',
      toNat_digitByte hm', toNat_digitByte hn']
    have hdm := Nat.div_add_mod m (10 ^ w)
    have hdn := Nat.div_add_mod n (10 ^ w)
    have hmm := Nat.mod_lt m hpos
    have hnm := Nat.mod_lt n hpos
    generalize m / 10 ^ w = dm at *
    generalize n / 10 ^ w = dn at *
    generalize m % 10 ^ w = rm at *
    generalize n % 10 ^ w = rn at *
    generalize 10 ^ w = p at *
    subst hdm hdn
    constructor
    · rintro (hlt | ⟨heq, hlt⟩)
      · have : p * (dm + 1) ≤ p * dn := Nat.mul_le_mul_left p (by omega)
        rw [Nat.mul_add] at this
        omega
      · obtain rfl : dm = dn := by omega
        omega
    · intro hlt
      rcases Nat.lt_trichotomy dm dn with hd | rfl | hd
      · exact .inl (by omega)
      · exact .inr ⟨rfl, by omega⟩
      · have : p * (dn + 1) ≤ p * dm := Nat.mul_le_mul_left p (by omega)
        rw [Nat.mul_add] at this
        omega

/-- Behind fronts of one length the fronts decide first. -/
theorem append_lt_append_iff {α : Type*} [LinearOrder α] {l l' : List α}
    (h : l.length = l'.length) (t t' : List α) :
    l ++ t < l' ++ t' ↔ l < l' ∨ l = l' ∧ t < t' := by
  induction l generalizing l' with
  | nil =>
    obtain rfl := List.length_eq_zero_iff.mp h.symm
    simp
  | cons a l ih =>
    cases l' with
    | nil => simp at h
    | cons b l' =>
      rw [List.cons_append, List.cons_append, List.cons_lt_cons_iff, List.cons_lt_cons_iff,
        ih (Nat.succ.inj h), List.cons.injEq]
      tauto

/-- Between a common front and a common back the digits decide. -/
theorem append_decimal_lt_iff {w m n : Nat} (hm : m < 10 ^ w) (hn : n < 10 ^ w)
    (front back : Bytes) :
    front ++ decimal w m ++ back < front ++ decimal w n ++ back ↔ m < n := by
  have hlen : (front ++ decimal w m).length = (front ++ decimal w n).length := by simp
  rw [append_lt_append_iff hlen, append_lt_append_iff rfl, ← decimal_lt_iff hm hn]
  simp
