import Mathlib

/-!
# Machine integers and big-endian byte strings

The linear order of the fixed-width integers, and their big-endian encodings. Byte strings are
compared lexicographically, as an ordered store compares its keys; at one width this is the order
of the encoded numbers (`beBytes_lt_iff`), so a scan bounded by two fixed-width prefixes selects
exactly the keys whose prefix is in between (`le_append_iff`, `append_lt_iff`).
-/

instance linearOrderUInt8 : LinearOrder UInt8 where
  le_refl := UInt8.le_refl
  le_trans _ _ _ := UInt8.le_trans
  le_antisymm _ _ := UInt8.le_antisymm
  le_total := UInt8.le_total
  lt_iff_le_not_ge a b := by simp only [UInt8.lt_iff_toNat_lt, UInt8.le_iff_toNat_le]; omega
  toMin := inferInstance
  toMax := inferInstance
  min_def _ _ := rfl
  max_def _ _ := rfl
  toDecidableLE := inferInstance
  toDecidableEq := inferInstance
  toDecidableLT := inferInstance

instance linearOrderUInt32 : LinearOrder UInt32 where
  le_refl := UInt32.le_refl
  le_trans _ _ _ := UInt32.le_trans
  le_antisymm _ _ := UInt32.le_antisymm
  le_total := UInt32.le_total
  lt_iff_le_not_ge a b := by simp only [UInt32.lt_iff_toNat_lt, UInt32.le_iff_toNat_le]; omega
  toMin := inferInstance
  toMax := inferInstance
  min_def _ _ := rfl
  max_def _ _ := rfl
  toDecidableLE := inferInstance
  toDecidableEq := inferInstance
  toDecidableLT := inferInstance

instance linearOrderUInt64 : LinearOrder UInt64 where
  le_refl := UInt64.le_refl
  le_trans _ _ _ := UInt64.le_trans
  le_antisymm _ _ := UInt64.le_antisymm
  le_total := UInt64.le_total
  lt_iff_le_not_ge a b := by simp only [UInt64.lt_iff_toNat_lt, UInt64.le_iff_toNat_le]; omega
  toMin := inferInstance
  toMax := inferInstance
  min_def _ _ := rfl
  max_def _ _ := rfl
  toDecidableLE := inferInstance
  toDecidableEq := inferInstance
  toDecidableLT := inferInstance

/-- A byte string. -/
abbrev Bytes := List UInt8

/-- A byte string of a fixed length. -/
abbrev Octets (n : Nat) := { l : Bytes // l.length = n }

/-- The `w` low-order base-256 digits of a number, the most significant first. -/
def beBytes : Nat → Nat → Bytes
  | 0, _ => []
  | w + 1, n => UInt8.ofNat (n / 256 ^ w) :: beBytes w n

/-- The number a big-endian byte string denotes. -/
def beValue : Bytes → Nat
  | [] => 0
  | b :: l => b.toNat * 256 ^ l.length + beValue l

@[simp] theorem length_beBytes (w n : Nat) : (beBytes w n).length = w := by
  induction w with
  | zero => rfl
  | succ w ih => simp [beBytes, ih]

theorem beValue_lt (l : Bytes) : beValue l < 256 ^ l.length := by
  induction l with
  | nil => simp [beValue]
  | cons b l ih =>
    have hb : b.toNat + 1 ≤ 256 := b.toNat_lt
    calc beValue (b :: l) < b.toNat * 256 ^ l.length + 256 ^ l.length := by
          simp only [beValue]; omega
      _ = (b.toNat + 1) * 256 ^ l.length := by ring
      _ ≤ 256 * 256 ^ l.length := Nat.mul_le_mul_right _ hb
      _ = 256 ^ (b :: l).length := by simp only [List.length_cons]; ring

theorem beValue_beBytes (w n : Nat) : beValue (beBytes w n) = n % 256 ^ w := by
  induction w with
  | zero => simp [beBytes, beValue, Nat.mod_one]
  | succ w ih =>
    have hdigit : (UInt8.ofNat (n / 256 ^ w)).toNat = n / 256 ^ w % 256 := by simp
    rw [beBytes, beValue, ih, length_beBytes, hdigit, Nat.pow_succ, Nat.mod_mul]
    ring

theorem beBytes_injOn {w m n : Nat} (hm : m < 256 ^ w) (hn : n < 256 ^ w)
    (h : beBytes w m = beBytes w n) : m = n := by
  have := congrArg beValue h
  rwa [beValue_beBytes, beValue_beBytes, Nat.mod_eq_of_lt hm, Nat.mod_eq_of_lt hn] at this

/-! ## Order -/

/-- At equal lengths the lexicographic order is the order of the denoted numbers. -/
theorem lt_iff_beValue_lt {l l' : Bytes} (h : l.length = l'.length) :
    l < l' ↔ beValue l < beValue l' := by
  induction l generalizing l' with
  | nil =>
    cases l' with
    | nil => simp
    | cons => simp at h
  | cons a l ih =>
    cases l' with
    | nil => simp at h
    | cons b l' =>
      have hlen : l.length = l'.length := by simpa using h
      have hl := beValue_lt l
      have hl' := beValue_lt l'
      rw [List.cons_lt_cons_iff, ih hlen, UInt8.lt_iff_toNat_lt, ← UInt8.toNat_inj]
      simp only [beValue, hlen] at hl ⊢
      generalize 256 ^ l'.length = p at hl hl'
      constructor
      · rintro (hlt | ⟨heq, hlt⟩)
        · have : (a.toNat + 1) * p ≤ b.toNat * p := Nat.mul_le_mul_right p hlt
          rw [Nat.add_mul] at this
          omega
        · rw [heq]; omega
      · intro hlt
        rcases Nat.lt_trichotomy a.toNat b.toNat with hab | hab | hab
        · exact .inl hab
        · rw [hab] at hlt; exact .inr ⟨hab, by omega⟩
        · have : (b.toNat + 1) * p ≤ a.toNat * p := Nat.mul_le_mul_right p hab
          rw [Nat.add_mul] at this
          omega

/-- Byte strings of one length that denote the same number are equal. -/
theorem beValue_inj {l l' : Bytes} (h : l.length = l'.length) (heq : beValue l = beValue l') :
    l = l' := by
  rcases lt_trichotomy l l' with hlt | rfl | hlt
  · exact absurd heq ((lt_iff_beValue_lt h).mp hlt).ne
  · rfl
  · exact absurd heq ((lt_iff_beValue_lt h.symm).mp hlt).ne'

theorem beBytes_beValue (l : Bytes) : beBytes l.length (beValue l) = l := by
  refine beValue_inj (length_beBytes ..) ?_
  rw [beValue_beBytes, Nat.mod_eq_of_lt (beValue_lt l)]

theorem beBytes_lt_iff {w m n : Nat} (hm : m < 256 ^ w) (hn : n < 256 ^ w) :
    beBytes w m < beBytes w n ↔ m < n := by
  rw [lt_iff_beValue_lt (by simp), beValue_beBytes, beValue_beBytes, Nat.mod_eq_of_lt hm,
    Nat.mod_eq_of_lt hn]

/-- A bound of the prefix's length sees the prefix only. -/
theorem append_lt_iff {l l' : Bytes} (h : l.length = l'.length) (tail : Bytes) :
    l ++ tail < l' ↔ l < l' := by
  induction l generalizing l' with
  | nil =>
    cases l' with
    | nil => simp
    | cons => simp at h
  | cons a l ih =>
    cases l' with
    | nil => simp at h
    | cons b l' =>
      rw [List.cons_append, List.cons_lt_cons_iff, List.cons_lt_cons_iff, ih (by simpa using h)]

theorem le_append_iff {l l' : Bytes} (h : l.length = l'.length) (tail : Bytes) :
    l' ≤ l ++ tail ↔ l' ≤ l := by
  rw [← not_lt, ← not_lt, append_lt_iff h]
