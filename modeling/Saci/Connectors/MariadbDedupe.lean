import Mathlib
import Saci.Connectors.MariadbSink

/-!
# The rows that `dedupe` keeps

Two keys have one encoding where their parts are the same, a float's zero counted once (`encodeKey_inj`). The
loop holds, for each key met so far, the row that beats the others of the key (`Race.Leads`), so at the end a
row stays where it beats every other row of its key.
-/

namespace Saci.Mariadb.Sink

/-! ## Keys -/

/-- A value with one zero. -/
def Value.exact : Value → Value
  | .float v => .float (.ofNat (plusZero (2 ^ 31) v.toNat))
  | .double v => .double (.ofNat (plusZero (2 ^ 63) v.toNat))
  | v => v

theorem plusZero_le (signBit bits : Nat) : plusZero signBit bits ≤ bits := by
  rw [plusZero]
  split_ifs
  · exact Nat.zero_le _
  · exact le_rfl

theorem leBytes_append_inj {w m n : Nat} {s t : Bytes} (hm : m < 256 ^ w) (hn : n < 256 ^ w)
    (h : leBytes w m ++ s = leBytes w n ++ t) : m = n ∧ s = t := by
  obtain ⟨hbytes, hrest⟩ := List.append_inj h (by simp)
  refine ⟨?_, hrest⟩
  rw [← leValue_leBytes_of_lt hm, ← leValue_leBytes_of_lt hn, hbytes]

/-- The encoding of a part ends where the part does. -/
theorem encodePart_inj {v w : Value} {s t : Bytes} (hv : v ≠ .null) (hw : w ≠ .null)
    (h : encodePart v ++ s = encodePart w ++ t) : v.exact = w.exact ∧ s = t := by
  cases v <;> cases w <;> simp only [encodePart, List.cons_append, List.append_assoc, List.cons.injEq] at h <;>
    first
    | exact absurd rfl hv
    | exact absurd rfl hw
    | exact absurd h.1 (by decide)
    | skip
  case bytes.bytes v w =>
    obtain ⟨hlength, hrest⟩ := leBytes_append_inj v.property w.property h.2
    obtain ⟨hbytes, hrest⟩ := List.append_inj hrest hlength
    exact ⟨congrArg Value.bytes (Subtype.ext hbytes), hrest⟩
  case int.int v w =>
    obtain ⟨hv, hrest⟩ := leBytes_append_inj v.toUInt64.toNat_lt w.toUInt64.toNat_lt h.2
    exact ⟨congrArg (fun bits => Value.int (.ofUInt64 bits)) (UInt64.toNat_inj.mp hv), hrest⟩
  case uint.uint v w =>
    obtain ⟨hv, hrest⟩ := leBytes_append_inj v.toNat_lt w.toNat_lt h.2
    exact ⟨congrArg Value.uint (UInt64.toNat_inj.mp hv), hrest⟩
  case float.float v w =>
    obtain ⟨hv, hrest⟩ := leBytes_append_inj ((plusZero_le _ _).trans_lt v.toNat_lt)
      ((plusZero_le _ _).trans_lt w.toNat_lt) h.2
    exact ⟨congrArg (fun bits => Value.float (.ofNat bits)) hv, hrest⟩
  case double.double v w =>
    obtain ⟨hv, hrest⟩ := leBytes_append_inj ((plusZero_le _ _).trans_lt v.toNat_lt)
      ((plusZero_le _ _).trans_lt w.toNat_lt) h.2
    exact ⟨congrArg (fun bits => Value.double (.ofNat bits)) hv, hrest⟩
  case date.date y mo d hh mi s us y' mo' d' hh' mi' s' us' =>
    obtain ⟨hy, hrest⟩ := leBytes_append_inj y.toNat_lt y'.toNat_lt h.2
    simp only [List.nil_append, List.cons.injEq] at hrest
    obtain ⟨rfl, rfl, rfl, rfl, rfl, hrest⟩ := hrest
    obtain ⟨hus, hrest⟩ := leBytes_append_inj us.toNat_lt us'.toNat_lt hrest
    rw [UInt16.toNat_inj.mp hy, UInt32.toNat_inj.mp hus]
    exact ⟨rfl, hrest⟩
  case time.time neg days hh mi s us neg' days' hh' mi' s' us' =>
    obtain ⟨hdays, hrest⟩ := leBytes_append_inj days.toNat_lt days'.toNat_lt h.2.2
    simp only [List.nil_append, List.cons.injEq] at hrest
    obtain ⟨rfl, rfl, rfl, hrest⟩ := hrest
    obtain ⟨hus, hrest⟩ := leBytes_append_inj us.toNat_lt us'.toNat_lt hrest
    have hneg : neg = neg' := by
      have hsign := h.2.1
      cases neg <;> cases neg' <;> first | rfl | exact absurd hsign (by decide)
    rw [hneg, UInt32.toNat_inj.mp hdays, UInt32.toNat_inj.mp hus]
    exact ⟨rfl, hrest⟩

theorem encodePart_exact (v : Value) : encodePart v.exact = encodePart v := by
  cases v with
  | float v =>
    have hlt : plusZero (2 ^ 31) v.toNat < UInt32.size := (plusZero_le _ _).trans_lt v.toNat_lt
    rw [Value.exact, encodePart, encodePart, UInt32.toNat_ofNat_of_lt' hlt, plusZero, plusZero]
    split_ifs <;> simp_all
  | double v =>
    have hlt : plusZero (2 ^ 63) v.toNat < UInt64.size := (plusZero_le _ _).trans_lt v.toNat_lt
    rw [Value.exact, encodePart, encodePart, UInt64.toNat_ofNat_of_lt' hlt, plusZero, plusZero]
    split_ifs <;> simp_all
  | _ => rfl

theorem flatMap_encodePart_inj {a b : List Value} (ha : .null ∉ a) (hb : .null ∉ b)
    (h : a.flatMap encodePart = b.flatMap encodePart) : a.map Value.exact = b.map Value.exact := by
  have hfilled : ∀ {v : Value} {l : List Value}, .null ∉ v :: l → (v :: l).flatMap encodePart ≠ [] := by
    intro v l hnull hnil
    rw [List.flatMap_cons, List.append_eq_nil_iff] at hnil
    cases v <;> first | exact hnull List.mem_cons_self | exact nomatch hnil.1
  induction a generalizing b with
  | nil =>
    cases b with
    | nil => rfl
    | cons w b => exact absurd h.symm (hfilled hb)
  | cons v a ih =>
    cases b with
    | nil => exact absurd h (hfilled ha)
    | cons w b =>
      rw [List.mem_cons, not_or] at ha hb
      rw [List.flatMap_cons, List.flatMap_cons] at h
      obtain ⟨hpart, hrest⟩ := encodePart_inj (Ne.symm ha.1) (Ne.symm hb.1) h
      rw [List.map_cons, List.map_cons, hpart, ih ha.2 hb.2 hrest]

theorem flatMap_encodePart_exact (a : List Value) :
    (a.map Value.exact).flatMap encodePart = a.flatMap encodePart := by
  rw [List.flatMap_map]
  exact List.flatMap_congr fun v _ => encodePart_exact v

theorem encodeKey_eq_none_iff {a : List Value} : encodeKey a = none ↔ .null ∈ a := by
  rw [encodeKey]
  split_ifs with h <;> simp [h]

/-- **Keys are told apart.** Two keys without a `NULL` have one encoding where their parts are the same. -/
theorem encodeKey_inj {a b : List Value} (ha : .null ∉ a) (hb : .null ∉ b) :
    encodeKey a = encodeKey b ↔ a.map Value.exact = b.map Value.exact := by
  rw [encodeKey, encodeKey, if_neg ha, if_neg hb, Option.some_inj]
  refine ⟨flatMap_encodePart_inj ha hb, fun h => ?_⟩
  rw [← flatMap_encodePart_exact a, ← flatMap_encodePart_exact b, h]

/-! ## The race for a key -/

/-- An entry: the key of a row, none where a part is `NULL`, and its order. -/
abbrev Entry := Option Bytes × Order

section
variable {ρ : Type} [LinearOrder ρ] {rank : Order → ρ} {entries : List Entry} {i j : Nat} {race race' : Race}
  {key key' : Option Bytes} {value value' : Order} {k : Bytes}

/-- `j` does not take the key of `i`, of this order: it is lower, or as high and earlier. -/
def Yields (rank : Order → ρ) (i j : Nat) (value other : Order) : Prop :=
  if j < i then rank other ≤ rank value else rank other < rank value

/-- The row beats every other row of its key. -/
def Wins (rank : Order → ρ) (entries : List Entry) (i : Nat) : Prop :=
  ∀ k value, entries[i]? = some (some k, value) →
    ∀ j other, entries[j]? = some (some k, other) → j ≠ i → Yields rank i j value other

/-- Two rows cannot both beat each other. -/
theorem wins_unique (hi : Wins rank entries i) (hj : Wins rank entries j)
    (hentry : entries[i]? = some (some k, value)) (hother : entries[j]? = some (some k, value')) : i = j := by
  by_contra hne
  have hij := hi k value hentry j value' hother (Ne.symm hne)
  have hji := hj k value' hother i value hentry hne
  rw [Yields] at hij hji
  rcases Nat.lt_or_gt_of_ne hne with hlt | hlt
  · rw [if_neg hlt.not_gt] at hij
    rw [if_pos hlt] at hji
    exact absurd hij hji.not_gt
  · rw [if_pos hlt] at hij
    rw [if_neg hlt.not_gt] at hji
    exact absurd hji hij.not_gt

/-- What the loop knows after these rows of so many. -/
structure Race.Leads (rank : Order → ρ) (n : Nat) (entries : List Entry) (race : Race) : Prop where
  length : race.keep.length = n
  kept : ∀ i < entries.length, race.keep[i]? = some true ↔ Wins rank entries i
  ahead : ∀ i < n, entries.length ≤ i → race.keep[i]? = some true
  free : ∀ k, race.winners k = none → ∀ (i : Nat) (value : Order), entries[i]? ≠ some (some k, value)
  held : ∀ k i value, race.winners k = some (i, value) → entries[i]? = some (some k, value) ∧ Wins rank entries i

theorem getElem?_concat_eq {entry : Entry} (h : (entries ++ [entry])[i]? = some (key, value)) :
    entries[i]? = some (key, value) ∨ i = entries.length ∧ entry = (key, value) := by
  rcases Nat.lt_trichotomy i entries.length with hlt | heq | hgt
  · rw [List.getElem?_append_left hlt] at h
    exact .inl h
  · rw [heq, List.getElem?_concat_length] at h
    exact .inr ⟨heq, Option.some.inj h⟩
  · rw [List.getElem?_eq_none (by simp; omega)] at h
    exact nomatch h

theorem getElem?_concat_of_some {entry : Entry} (h : entries[i]? = some (key, value)) :
    (entries ++ [entry])[i]? = some (key, value) := by
  rw [List.getElem?_append_left (List.getElem?_eq_some_iff.mp h).1, h]

/-- A row met later leaves the keys of others alone. -/
theorem wins_concat_of_ne (hi : i < entries.length)
    (hne : ∀ k value, entries[i]? = some (some k, value) → key' ≠ some k) :
    Wins rank (entries ++ [(key', value')]) i ↔ Wins rank entries i := by
  refine ⟨fun hwins k value hentry j other hother hji => ?_, fun hwins k value hentry j other hother hji => ?_⟩
  · exact hwins k value (getElem?_concat_of_some hentry) j other (getElem?_concat_of_some hother) hji
  · rcases getElem?_concat_eq hentry with hentry | ⟨rfl, -⟩
    · rcases getElem?_concat_eq hother with hother | ⟨-, heq⟩
      · exact hwins k value hentry j other hother hji
      · exact absurd (congrArg Prod.fst heq) (hne k value hentry)
    · exact absurd hi (lt_irrefl _)

/-- A row met later takes the key, unless it is lower. -/
theorem wins_concat_of_eq (hentry : entries[i]? = some (some k, value)) :
    Wins rank (entries ++ [(some k, value')]) i ↔ Wins rank entries i ∧ rank value' < rank value := by
  have hi := (List.getElem?_eq_some_iff.mp hentry).1
  constructor
  · intro hwins
    refine ⟨fun k₁ value₁ hentry₁ j other hother hji => ?_, ?_⟩
    · exact hwins k₁ value₁ (getElem?_concat_of_some hentry₁) j other (getElem?_concat_of_some hother) hji
    · have hyields := hwins k value (getElem?_concat_of_some hentry) entries.length value'
        List.getElem?_concat_length hi.ne'
      rw [Yields, if_neg hi.not_gt] at hyields
      exact hyields
  · rintro ⟨hwins, hlower⟩ k₁ value₁ hentry₁ j other hother hji
    cases (getElem?_concat_of_some hentry).symm.trans hentry₁
    rcases getElem?_concat_eq hother with hother | ⟨rfl, heq⟩
    · exact hwins k value hentry j other hother hji
    · cases heq
      rw [Yields, if_neg hi.not_gt]
      exact hlower

/-- A row that beats what held its key beats every row of it. -/
theorem wins_last {held : Nat} (hheld : entries[held]? = some (some k, value)) (hwins : Wins rank entries held)
    (hle : rank value ≤ rank value') : Wins rank (entries ++ [(some k, value')]) entries.length := by
  intro k₁ value₁ hentry j other hother hj
  rw [List.getElem?_concat_length] at hentry
  cases hentry
  rcases getElem?_concat_eq hother with hother | ⟨rfl, -⟩
  · have hlt := (List.getElem?_eq_some_iff.mp hother).1
    rw [Yields, if_pos hlt]
    by_cases hsame : j = held
    · subst hsame
      cases hheld.symm.trans hother
      exact hle
    · have hyields := hwins k value hheld j other hother hsame
      rw [Yields] at hyields
      split_ifs at hyields
      · exact hyields.trans hle
      · exact hyields.le.trans hle
  · exact absurd rfl hj

variable {n : Nat}

theorem Race.Leads.skip (h : race.Leads rank n entries) (hn : entries.length < n) :
    race.Leads rank n (entries ++ [(none, value)]) where
  length := h.length
  kept i hi := by
    rw [List.length_append, List.length_singleton] at hi
    rcases Nat.lt_succ_iff_lt_or_eq.mp hi with hlt | rfl
    · rw [wins_concat_of_ne hlt fun k _ _ => (Option.some_ne_none k).symm]
      exact h.kept i hlt
    · refine iff_of_true (h.ahead _ hn le_rfl) fun k value' hentry => ?_
      rw [List.getElem?_concat_length] at hentry
      exact nomatch hentry
  ahead i hi hle := h.ahead i hi (Nat.le_of_succ_le (by simpa using hle))
  free k hk i value' hentry := by
    rcases getElem?_concat_eq hentry with hentry | ⟨-, heq⟩
    · exact h.free k hk i value' hentry
    · exact nomatch heq
  held k i value' hk := by
    obtain ⟨hentry, hwins⟩ := h.held k i value' hk
    refine ⟨getElem?_concat_of_some hentry, ?_⟩
    refine (wins_concat_of_ne ?_ fun k _ _ => (Option.some_ne_none k).symm).mpr hwins
    exact (List.getElem?_eq_some_iff.mp hentry).1

theorem Race.Leads.first (h : race.Leads rank n entries) (hn : entries.length < n) (hk : race.winners k = none) :
    Race.Leads rank n (entries ++ [(some k, value)])
      { race with winners := Function.update race.winners k (some (entries.length, value)) } := by
  have hne : ∀ (i : Nat) (k' : Bytes) (value' : Order), entries[i]? = some (some k', value') → some k ≠ some k' := by
    rintro i k' value' hentry ⟨⟩
    exact h.free k hk i value' hentry
  have hlast : Wins rank (entries ++ [(some k, value)]) entries.length := by
    intro k' value' hentry j other hother hj
    rw [List.getElem?_concat_length] at hentry
    cases hentry
    rcases getElem?_concat_eq hother with hother | ⟨rfl, -⟩
    · exact absurd hother (h.free k hk j other)
    · exact absurd rfl hj
  refine ⟨h.length, fun i hi => ?_, fun i hi hle => h.ahead i hi (Nat.le_of_succ_le (by simpa using hle)),
    fun k' hk' i value' hentry => ?_, fun k' i value' hk' => ?_⟩
  · rw [List.length_append, List.length_singleton] at hi
    rcases Nat.lt_succ_iff_lt_or_eq.mp hi with hlt | rfl
    · rw [wins_concat_of_ne hlt (hne i)]
      exact h.kept i hlt
    · exact iff_of_true (h.ahead _ hn le_rfl) hlast
  · dsimp only at hk'
    rw [Function.update_apply] at hk'
    split_ifs at hk' with hkk
    rcases getElem?_concat_eq hentry with hentry | ⟨-, heq⟩
    · exact h.free k' hk' i value' hentry
    · exact hkk (Option.some.inj (congrArg Prod.fst heq)).symm
  · dsimp only at hk'
    rw [Function.update_apply] at hk'
    split_ifs at hk' with hkk
    · cases hk'
      rw [hkk]
      exact ⟨List.getElem?_concat_length, hlast⟩
    · obtain ⟨hentry, hwins⟩ := h.held k' i value' hk'
      refine ⟨getElem?_concat_of_some hentry, (wins_concat_of_ne ?_ (hne i)).mpr hwins⟩
      exact (List.getElem?_eq_some_iff.mp hentry).1

/-- A row lower than what holds its key goes. -/
theorem Race.Leads.lower {held : Nat} (h : race.Leads rank n entries) (hn : entries.length < n)
    (hk : race.winners k = some (held, value)) (hlt : rank value' < rank value) :
    Race.Leads rank n (entries ++ [(some k, value')]) { race with keep := race.keep.set entries.length false } := by
  obtain ⟨hheld, hwins⟩ := h.held k held value hk
  have hheldlt := (List.getElem?_eq_some_iff.mp hheld).1
  have hold : ∀ i < entries.length, Wins rank (entries ++ [(some k, value')]) i ↔ Wins rank entries i := by
    intro i hi
    by_cases hkey : ∃ other, entries[i]? = some (some k, other)
    · obtain ⟨other, hother⟩ := hkey
      rw [wins_concat_of_eq hother]
      refine ⟨And.left, fun hwinsi => ⟨hwinsi, ?_⟩⟩
      cases wins_unique hwinsi hwins hother hheld
      cases hother.symm.trans hheld
      exact hlt
    · refine wins_concat_of_ne hi fun k' other hother heq => hkey ⟨other, ?_⟩
      rw [hother, Option.some.inj heq]
  refine ⟨by simpa using h.length, fun i hi => ?_, fun i hi hle => ?_, fun k' hk' i other hentry => ?_,
    fun k' i other hk' => ?_⟩
  · rw [List.length_append, List.length_singleton] at hi
    rcases Nat.lt_succ_iff_lt_or_eq.mp hi with hilt | rfl
    · rw [hold i hilt, List.getElem?_set_ne (Ne.symm hilt.ne)]
      exact h.kept i hilt
    · refine iff_of_false ?_ fun hwinslast => ?_
      · rw [List.getElem?_set_self (h.length ▸ hn)]
        nofun
      · have hyields := hwinslast k value' List.getElem?_concat_length held value (getElem?_concat_of_some hheld)
          hheldlt.ne
        rw [Yields, if_pos hheldlt] at hyields
        exact absurd hlt hyields.not_gt
  · have hgt : entries.length < i := Nat.lt_of_succ_le (by simpa using hle)
    rw [List.getElem?_set_ne hgt.ne]
    exact h.ahead i hi hgt.le
  · rcases getElem?_concat_eq hentry with hentry | ⟨-, heq⟩
    · exact h.free k' hk' i other hentry
    · rw [← Option.some.inj (congrArg Prod.fst heq), hk] at hk'
      exact nomatch hk'
  · obtain ⟨hentry, hwinsi⟩ := h.held k' i other hk'
    exact ⟨getElem?_concat_of_some hentry, (hold i (List.getElem?_eq_some_iff.mp hentry).1).mpr hwinsi⟩

/-- A row as high as what holds its key takes its place. -/
theorem Race.Leads.take {held : Nat} (h : race.Leads rank n entries) (hn : entries.length < n)
    (hk : race.winners k = some (held, value)) (hle : rank value ≤ rank value') :
    Race.Leads rank n (entries ++ [(some k, value')])
      ⟨race.keep.set held false, Function.update race.winners k (some (entries.length, value'))⟩ := by
  obtain ⟨hheld, hwins⟩ := h.held k held value hk
  have hheldlt := (List.getElem?_eq_some_iff.mp hheld).1
  have hlast := wins_last hheld hwins hle
  refine ⟨by simpa using h.length, fun i hi => ?_, fun i hi hge => ?_, fun k' hk' i other hentry => ?_,
    fun k' i other hk' => ?_⟩
  · rw [List.length_append, List.length_singleton] at hi
    rcases Nat.lt_succ_iff_lt_or_eq.mp hi with hilt | rfl
    · by_cases hsame : i = held
      · subst hsame
        refine iff_of_false ?_ fun hstill => ?_
        · rw [List.getElem?_set_self (by rw [h.length]; omega)]
          nofun
        · exact absurd ((wins_concat_of_eq hheld).mp hstill).2 hle.not_gt
      · rw [List.getElem?_set_ne (Ne.symm hsame), h.kept i hilt]
        by_cases hkey : ∃ other, entries[i]? = some (some k, other)
        · obtain ⟨other, hother⟩ := hkey
          have hlost : ¬Wins rank entries i := fun hwinsi => hsame (wins_unique hwinsi hwins hother hheld)
          exact iff_of_false hlost fun hstill => hlost ((wins_concat_of_eq hother).mp hstill).1
        · refine (wins_concat_of_ne hilt fun k' other hother heq => hkey ⟨other, ?_⟩).symm
          rw [hother, Option.some.inj heq]
    · rw [List.getElem?_set_ne hheldlt.ne]
      exact iff_of_true (h.ahead _ hn le_rfl) hlast
  · have hgt : entries.length < i := Nat.lt_of_succ_le (by simpa using hge)
    rw [List.getElem?_set_ne (hheldlt.trans hgt).ne]
    exact h.ahead i hi hgt.le
  · dsimp only at hk'
    rw [Function.update_apply] at hk'
    split_ifs at hk' with hkk
    rcases getElem?_concat_eq hentry with hentry | ⟨-, heq⟩
    · exact h.free k' hk' i other hentry
    · exact hkk (Option.some.inj (congrArg Prod.fst heq)).symm
  · dsimp only at hk'
    rw [Function.update_apply] at hk'
    split_ifs at hk' with hkk
    · cases hk'
      rw [hkk]
      exact ⟨List.getElem?_concat_length, hlast⟩
    · obtain ⟨hentry, hwinsi⟩ := h.held k' i other hk'
      refine ⟨getElem?_concat_of_some hentry, (wins_concat_of_ne ?_ fun k₁ other₁ hentry₁ heq => ?_).mpr hwinsi⟩
      · exact (List.getElem?_eq_some_iff.mp hentry).1
      · cases hentry.symm.trans hentry₁
        exact hkk (Option.some.inj heq).symm

/-- **A turn of the loop.** -/
theorem Race.Leads.turn (h : race.Leads rank n entries) (hn : entries.length < n)
    (hrank : ∀ (i : Nat) (key' : Option Bytes) (other : Order), entries[i]? = some (key', other) →
      (value.compare other = .lt ↔ rank value < rank other)) :
    (race.turn entries.length key value).Leads rank n (entries ++ [(key, value)]) := by
  cases key with
  | none => exact h.skip hn
  | some k =>
    rw [Race.turn]
    cases hk : race.winners k with
    | none => exact h.first hn hk
    | some winner =>
      obtain ⟨held, heldValue⟩ := winner
      have hcompare := hrank held (some k) heldValue (h.held k held heldValue hk).1
      dsimp only
      split_ifs with hlt
      · exact h.lower hn hk (hcompare.mp hlt)
      · exact h.take hn hk (not_lt.mp fun hlt' => hlt (hcompare.mpr hlt'))

end

/-! ## Orders -/

inductive OrderKind
  | int
  | float
  | bytes

/-- The order of a value of this kind, or of a null. -/
def Order.Of : OrderKind → Order → Prop
  | _, .null => True
  | .int, .int _ => True
  | .float, .float _ => True
  | .bytes, .bytes _ => True
  | _, _ => False

/-- The kind of a declared type. -/
def FieldType.orderKind : FieldType → OrderKind
  | .float32 | .float64 => .float
  | .utf8 | .json | .binary => .bytes
  | _ => .int

/-- The place of an order among those of its kind. -/
def Order.rank : Order → WithBot (Lex (ℤ ⊕ Bytes))
  | .null => ⊥
  | .int v => (toLex (.inl v) : Lex (ℤ ⊕ Bytes))
  | .float bits => (toLex (.inl (totalPlace bits)) : Lex (ℤ ⊕ Bytes))
  | .bytes v => (toLex (.inr v) : Lex (ℤ ⊕ Bytes))

theorem compare_bytes_eq_lt_iff (a b : Bytes) : (Order.bytes a).compare (.bytes b) = .lt ↔ a < b := by
  rw [Order.compare, cmp, cmpUsing]
  split_ifs with hlt hgt
  · exact iff_of_true rfl hlt
  · exact iff_of_false nofun hlt
  · exact iff_of_false nofun hlt

theorem Order.compare_eq_lt_iff {kind : OrderKind} {a b : Order} (ha : a.Of kind) (hb : b.Of kind) :
    a.compare b = .lt ↔ a.rank < b.rank := by
  cases kind <;> cases a <;> cases b <;>
    first
    | exact ha.elim
    | exact hb.elim
    | skip
  case bytes.bytes.bytes a b =>
    rw [compare_bytes_eq_lt_iff, Order.rank, Order.rank, WithBot.coe_lt_coe, Sum.Lex.inr_lt_inr_iff]
  all_goals
    simp only [Order.compare, Order.rank, WithBot.coe_lt_coe, WithBot.bot_lt_coe, cmp_eq_lt_iff,
      Sum.Lex.inl_lt_inl_iff, lt_irrefl, not_lt_bot, reduceCtorEq]

theorem orderOf_of {α : Type} {kind : OrderKind} {values : List (Option α)} {row : Nat} {order : α → Order}
    (h : ∀ v, (order v).Of kind) : (orderOf values row order).Of kind := by
  rw [orderOf]
  split
  · cases kind <;> trivial
  · exact h _

/-- An array of a declared type has orders of one kind. -/
theorem orderValue_of {array : Column} {ty : FieldType} (h : array.isA ty = true) (row : Nat) :
    (orderValue array row).Of ty.orderKind := by
  cases ty <;> rcases array with _ | ⟨_ | _ | _ | _⟩ | ⟨_ | _ | _ | _⟩ | _ | _ | _ | _ | _ | _ | _ | _ | _ <;>
    first
    | exact absurd h Bool.false_ne_true
    | exact orderOf_of fun _ => trivial

/-! ## What stays -/

/-- Every row, by its batch and its place there, in the order of arrival. -/
def arrival (batches : List Batch) : List Position :=
  batches.zipIdx.flatMap fun (batch, b) => (List.range batch.numRows).map fun r => (b, r)

/-- Positions fit `u32`. -/
def Addressable (batches : List Batch) : Prop :=
  batches.length ≤ 2 ^ 32 ∧ ∀ batch ∈ batches, batch.numRows ≤ 2 ^ 32

theorem everything_eq_map (batches : List Batch) :
    everything batches = (arrival batches).map fun p => (asU32 p.1, asU32 p.2) := by
  rw [everything, arrival, List.map_flatMap]
  simp [Function.comp_def]

theorem mem_arrival {batches : List Batch} {p : Position} :
    p ∈ arrival batches ↔ ∃ batch, batches[p.1]? = some batch ∧ p.2 < batch.numRows := by
  simp only [arrival, List.mem_flatMap, List.mem_map, List.mem_range, Prod.exists, List.mem_zipIdx_iff_getElem?]
  constructor
  · rintro ⟨batch, b, hbatch, r, hr, rfl⟩
    exact ⟨batch, hbatch, hr⟩
  · rintro ⟨batch, hbatch, hr⟩
    exact ⟨batch, p.1, hbatch, p.2, hr, rfl⟩

theorem everything_eq_arrival {batches : List Batch} (h : Addressable batches) :
    everything batches = arrival batches := by
  rw [everything_eq_map]
  refine (List.map_congr_left fun p hp => ?_).trans (List.map_id _)
  obtain ⟨batch, hbatch, hr⟩ := mem_arrival.mp hp
  obtain ⟨hb, rfl⟩ := List.getElem?_eq_some_iff.mp hbatch
  have hrows := h.2 _ (List.getElem_mem hb)
  rw [asU32, asU32, Nat.mod_eq_of_lt (hb.trans_le h.1), Nat.mod_eq_of_lt (hr.trans_le hrows)]
  rfl

/-- A row arrives before another. -/
def Before (q p : Position) : Prop := q.1 < p.1 ∨ q.1 = p.1 ∧ q.2 < p.2

instance (q p : Position) : Decidable (Before q p) := inferInstanceAs (Decidable (_ ∨ _))

theorem Before.asymm {q p : Position} (h : Before q p) : ¬Before p q := by
  rw [Before] at h ⊢
  omega

theorem pairwise_before_arrival (batches : List Batch) : (arrival batches).Pairwise Before := by
  rw [arrival, List.pairwise_flatMap]
  constructor
  · rintro ⟨batch, b⟩ -
    exact List.pairwise_map.mpr (List.pairwise_lt_range.imp fun hlt => .inr ⟨rfl, hlt⟩)
  · refine List.pairwise_iff_getElem.mpr fun i j hi hj hlt p hp q hq => ?_
    rw [List.getElem_zipIdx] at hp hq
    obtain ⟨r, -, rfl⟩ := List.mem_map.mp hp
    obtain ⟨r', -, rfl⟩ := List.mem_map.mp hq
    exact .inl (Nat.add_lt_add_left hlt 0)

theorem nodup_arrival (batches : List Batch) : (arrival batches).Nodup :=
  (pairwise_before_arrival batches).imp fun h heq => (heq ▸ h).asymm (heq ▸ h)

theorem before_iff {batches : List Batch} {i j : Nat} {p q : Position} (hp : (arrival batches)[i]? = some p)
    (hq : (arrival batches)[j]? = some q) (hne : j ≠ i) : Before q p ↔ j < i := by
  obtain ⟨hi, rfl⟩ := List.getElem?_eq_some_iff.mp hp
  obtain ⟨hj, rfl⟩ := List.getElem?_eq_some_iff.mp hq
  have hpairwise := List.pairwise_iff_getElem.mp (pairwise_before_arrival batches)
  rcases Nat.lt_or_gt_of_ne hne with hlt | hlt
  · exact iff_of_true (hpairwise j i hj hi hlt) hlt
  · exact iff_of_false (hpairwise i j hi hj hlt).asymm hlt.not_gt

/-! ## The loop -/

/-- What the loop reads of a row. -/
def entryAt (readers : List (List ColumnReader × Column)) (p : Position) : Except Failure Entry := do
  let values ← encoding (rowValues (readers.getD p.1 ([], .other "")).1 p.2)
  return (encodeKey values, orderValue (readers.getD p.1 ([], .other "")).2 p.2)

theorem dedupeLoop_leads {readers : List (List ColumnReader × Column)} {rows : List Position} {entries : List Entry}
    {race race' : Race} {n : Nat} {kind : OrderKind}
    (hkind : ∀ p ∈ rows, (orderValue (readers.getD p.1 ([], .other "")).2 p.2).Of kind)
    (hentries : ∀ entry ∈ entries, entry.2.Of kind) (hleads : race.Leads Order.rank n entries)
    (hn : entries.length + rows.length ≤ n)
    (h : MariadbSink.dedupeLoop readers rows entries.length race = .ok race') :
    ∃ more, rows.mapM (entryAt readers) = .ok more ∧ race'.Leads Order.rank n (entries ++ more) := by
  induction rows generalizing entries race with
  | nil =>
    cases h
    exact ⟨[], rfl, by rwa [List.append_nil]⟩
  | cons p rows ih =>
    obtain ⟨b, r⟩ := p
    obtain ⟨hfirst, hrest⟩ := List.forall_mem_cons.mp hkind
    obtain ⟨values, hvalues, h⟩ := bind_eq_ok_iff.mp h
    rw [List.length_cons] at hn
    have hturn : Race.Leads Order.rank n
        (entries ++ [(encodeKey values, orderValue (readers.getD b ([], .other "")).2 r)])
        (race.turn entries.length (encodeKey values) (orderValue (readers.getD b ([], .other "")).2 r)) :=
      hleads.turn (by omega) fun i key other hother =>
        Order.compare_eq_lt_iff hfirst (hentries _ (List.mem_of_getElem? hother))
    have hnext : ∀ entry ∈ entries ++ [(encodeKey values, orderValue (readers.getD b ([], .other "")).2 r)],
        entry.2.Of kind := by
      intro entry hmem
      rcases List.mem_append.mp hmem with hmem | hmem
      · exact hentries entry hmem
      · rw [List.mem_singleton.mp hmem]
        exact hfirst
    have hlength : (entries ++ [(encodeKey values, orderValue (readers.getD b ([], .other "")).2 r)]).length =
        entries.length + 1 := by simp
    obtain ⟨more, hmore, hleads'⟩ := ih hrest hnext hturn (by omega) (hlength ▸ h)
    refine ⟨(encodeKey values, orderValue (readers.getD b ([], .other "")).2 r) :: more, ?_, ?_⟩
    · have hentry : entryAt readers (b, r) =
          .ok (encodeKey values, orderValue (readers.getD b ([], .other "")).2 r) := by
        rw [entryAt, hvalues]
        rfl
      rw [List.mapM_cons, hentry, ok_bind, hmore]
      rfl
    · rw [List.append_cons]
      exact hleads'

theorem mem_map_fst_filter_zip {α : Type} {rows : List α} {mask : List Bool} {a : α} :
    a ∈ ((rows.zip mask).filter Prod.snd).map Prod.fst ↔ ∃ i : Nat, rows[i]? = some a ∧ mask[i]? = some true := by
  constructor
  · intro h
    obtain ⟨⟨b, keep⟩, hmem, rfl⟩ := List.mem_map.mp h
    obtain ⟨hmem, rfl⟩ := List.mem_filter.mp hmem
    obtain ⟨i, hi⟩ := List.mem_iff_getElem?.mp hmem
    exact ⟨i, List.getElem?_zip_eq_some.mp hi⟩
  · rintro ⟨i, ha, hkeep⟩
    refine List.mem_map.mpr ⟨(a, true), List.mem_filter.mpr ⟨?_, rfl⟩, rfl⟩
    exact List.mem_of_getElem? (List.getElem?_zip_eq_some.mpr ⟨ha, hkeep⟩)

namespace MariadbSink

/-- The conflict key of a row. -/
def keyOf (sink : MariadbSink) (batch : Batch) (row : Nat) : SaciResult (List Value) := do
  let readers ← resolveColumns what batch (keyFields sink.fields sink.conflictColumns)
  rowValues readers row

/-- A row has this key and this order. -/
def Reads (sink : MariadbSink) (batches : List Batch) (order : String) (p : Position) (key : List Value)
    (value : Order) : Prop :=
  ∃ batch array, batches[p.1]? = some batch ∧ sink.keyOf batch p.2 = .ok key ∧
    batch.columnByName order = some array ∧ orderValue array p.2 = value

/-- A row beats the others of its key, unless a part of that is `NULL`: those before it are not higher, and those
after it are lower. -/
def Survives (sink : MariadbSink) (batches : List Batch) (order : String) (p : Position) : Prop :=
  ∀ key value, sink.Reads batches order p key value → .null ∉ key →
    ∀ q ∈ arrival batches, q ≠ p → ∀ key' value', sink.Reads batches order q key' value' → .null ∉ key' →
      key'.map Value.exact = key.map Value.exact →
        if Before q p then value.compare value' ≠ .lt else value'.compare value = .lt

variable {sink : MariadbSink} {batches : List Batch} {order : String}
  {readers : List (List ColumnReader × Column)} {kind : OrderKind}

theorem encoding_eq_ok_iff {α : Type} {x : SaciResult α} {a : α} : encoding x = .ok a ↔ x = .ok a := by
  cases x with
  | error e => exact ⟨nofun, nofun⟩
  | ok b => simp [encoding, Except.mapError]

theorem dedupeReaders_spec (h : sink.dedupeReaders batches order = .ok readers) {b : Nat} {batch : Batch}
    (hbatch : batches[b]? = some batch) :
    ∃ keyReaders array, readers[b]? = some (keyReaders, array) ∧
      resolveColumns what batch (keyFields sink.fields sink.conflictColumns) = .ok keyReaders ∧
      batch.columnByName order = some array := by
  obtain ⟨⟨keyReaders, array⟩, hreaders, hread⟩ := getElem?_of_forall₂ (forall₂_of_mapM_eq_ok h) hbatch
  obtain ⟨keyReaders', hresolve, hread⟩ := bind_eq_ok_iff.mp hread
  split at hread
  · exact nomatch hread
  · rename_i harray
    cases hread
    exact ⟨keyReaders, array, hreaders, encoding_eq_ok_iff.mp hresolve, harray⟩

theorem reads_iff (h : sink.dedupeReaders batches order = .ok readers) {p : Position} (hp : p ∈ arrival batches)
    {key : List Value} {value : Order} :
    sink.Reads batches order p key value ↔
      rowValues (readers.getD p.1 ([], .other "")).1 p.2 = .ok key ∧
        orderValue (readers.getD p.1 ([], .other "")).2 p.2 = value := by
  obtain ⟨batch, hbatch, -⟩ := mem_arrival.mp hp
  obtain ⟨keyReaders, array, hreaders, hresolve, harray⟩ := dedupeReaders_spec h hbatch
  rw [List.getD_eq_getElem?_getD, hreaders, Option.getD_some]
  constructor
  · rintro ⟨batch', array', hbatch', hkey, harray', hvalue⟩
    cases hbatch.symm.trans hbatch'
    cases harray.symm.trans harray'
    rw [keyOf, hresolve, ok_bind] at hkey
    exact ⟨hkey, hvalue⟩
  · rintro ⟨hkey, hvalue⟩
    refine ⟨batch, array, hbatch, ?_, harray, hvalue⟩
    rw [keyOf, hresolve, ok_bind, hkey]

/-- The orders of a column are of one kind. -/
def OfKind (batches : List Batch) (order : String) (kind : OrderKind) : Prop :=
  ∀ batch ∈ batches, ∀ array, batch.columnByName order = some array → ∀ row, (orderValue array row).Of kind

theorem wins_iff_survives (h : sink.dedupeReaders batches order = .ok readers) (hkind : OfKind batches order kind)
    {entries : List Entry} (hentries : (arrival batches).mapM (entryAt readers) = .ok entries) {i : Nat}
    {p : Position} (hp : (arrival batches)[i]? = some p) :
    Wins Order.rank entries i ↔ sink.Survives batches order p := by
  have hall := forall₂_of_mapM_eq_ok hentries
  have hreads : ∀ {j : Nat} {q : Position} {key : List Value} {value : Order}, (arrival batches)[j]? = some q →
      sink.Reads batches order q key value → entries[j]? = some (encodeKey key, value) := by
    intro j q key value hq hread
    obtain ⟨hkey, hvalue⟩ := (reads_iff h (List.mem_of_getElem? hq)).mp hread
    obtain ⟨entry, hentry, heq⟩ := getElem?_of_forall₂ hall hq
    rw [entryAt, hkey, hvalue] at heq
    cases heq
    exact hentry
  have hentry : ∀ {j : Nat} {k : Bytes} {value : Order}, entries[j]? = some (some k, value) →
      ∃ q key, (arrival batches)[j]? = some q ∧ sink.Reads batches order q key value ∧ .null ∉ key ∧
        encodeKey key = some k := by
    intro j k value hj
    obtain ⟨q, hq, heq⟩ := getElem?_of_forall₂ hall.flip hj
    obtain ⟨key, hkey, heq⟩ := bind_eq_ok_iff.mp heq
    obtain ⟨hencoded, hvalue⟩ := Prod.mk.inj (Except.ok.inj heq)
    have hread := (reads_iff h (List.mem_of_getElem? hq)).mpr ⟨encoding_eq_ok_iff.mp hkey, hvalue⟩
    refine ⟨q, key, hq, hread, ?_, hencoded⟩
    exact fun hnull => nomatch (encodeKey_eq_none_iff.mpr hnull).symm.trans hencoded
  have hkinds : ∀ {q : Position} {key : List Value} {value : Order}, sink.Reads batches order q key value →
      value.Of kind := by
    rintro q key value ⟨batch, array, hbatch, -, harray, rfl⟩
    exact hkind batch (List.mem_of_getElem? hbatch) array harray q.2
  constructor
  · intro hwins key value hread hnull q hq hne key' value' hread' hnull' hsame
    obtain ⟨j, hj⟩ := List.mem_iff_getElem?.mp hq
    have hji : j ≠ i := fun heq => hne (Option.some.inj (hj.symm.trans (heq ▸ hp)))
    obtain ⟨k, hk⟩ := Option.ne_none_iff_exists'.mp (mt encodeKey_eq_none_iff.mp hnull)
    have hyields := hwins k value (hk ▸ hreads hp hread) j value'
      (hk ▸ (encodeKey_inj hnull' hnull).mpr hsame ▸ hreads hj hread') hji
    rw [Yields] at hyields
    simp only [before_iff hp hj hji]
    split_ifs at hyields ⊢
    · exact fun hlt => hyields.not_gt ((Order.compare_eq_lt_iff (hkinds hread) (hkinds hread')).mp hlt)
    · exact (Order.compare_eq_lt_iff (hkinds hread') (hkinds hread)).mpr hyields
  · intro hsurvives k value hi j other hj hji
    obtain ⟨p', key, hp', hread, hnull, hk⟩ := hentry hi
    cases hp.symm.trans hp'
    obtain ⟨q, key', hq, hread', hnull', hk'⟩ := hentry hj
    have hqp : q ≠ p := fun heq =>
      hji ((List.getElem?_inj (List.getElem?_eq_some_iff.mp hq).1 (nodup_arrival batches)).mp
        (hq.trans (heq ▸ hp.symm)))
    have hbeats := hsurvives key value hread hnull q (List.mem_of_getElem? hq) hqp key' other hread' hnull'
      ((encodeKey_inj hnull' hnull).mp (hk'.trans hk.symm))
    rw [Yields]
    simp only [before_iff hp hq hji] at hbeats
    split_ifs at hbeats ⊢
    · exact not_lt.mp fun hlt => hbeats ((Order.compare_eq_lt_iff (hkinds hread) (hkinds hread')).mpr hlt)
    · exact (Order.compare_eq_lt_iff (hkinds hread') (hkinds hread)).mp hbeats

/-- **What `dedupe` keeps**, where positions fit: the rows that survive, in the order of arrival. -/
theorem dedupe_survives {kept : List Position} (hkind : OfKind batches order kind)
    (h : sink.dedupe batches (arrival batches) order = .ok kept) :
    kept.Sublist (arrival batches) ∧ ∀ p ∈ arrival batches, p ∈ kept ↔ sink.Survives batches order p := by
  obtain ⟨readers, hreaders, h⟩ := bind_eq_ok_iff.mp h
  obtain ⟨race, hrace, h⟩ := bind_eq_ok_iff.mp h
  cases h
  have hkinds : ∀ p ∈ arrival batches, (orderValue (readers.getD p.1 ([], .other "")).2 p.2).Of kind := by
    intro p hp
    obtain ⟨batch, hbatch, -⟩ := mem_arrival.mp hp
    obtain ⟨keyReaders, array, hreader, -, harray⟩ := dedupeReaders_spec hreaders hbatch
    rw [List.getD_eq_getElem?_getD, hreader]
    exact hkind batch (List.mem_of_getElem? hbatch) array harray p.2
  have hstart : Race.Leads Order.rank (arrival batches).length []
      ⟨List.replicate (arrival batches).length true, fun _ => none⟩ :=
    ⟨List.length_replicate, nofun, fun i hi _ => List.getElem?_replicate_of_lt hi, nofun, nofun⟩
  obtain ⟨entries, hentries, hleads⟩ := dedupeLoop_leads hkinds (fun _ h => absurd h List.not_mem_nil) hstart
    (Nat.zero_add _).le hrace
  rw [List.nil_append] at hleads
  have hlength := (forall₂_of_mapM_eq_ok hentries).length_eq
  refine ⟨?_, fun p hp => ?_⟩
  · refine (List.filter_sublist.map Prod.fst).trans ?_
    rw [List.map_fst_zip (hleads.length.ge)]
  · obtain ⟨i, hi⟩ := List.mem_iff_getElem?.mp hp
    have hlt := (List.getElem?_eq_some_iff.mp hi).1
    rw [mem_map_fst_filter_zip, ← wins_iff_survives hreaders hkind hentries hi, ← hleads.kept i (hlength ▸ hlt)]
    constructor
    · rintro ⟨j, hj, hkeep⟩
      have hji : j = i := (List.getElem?_inj (List.getElem?_eq_some_iff.mp hj).1 (nodup_arrival batches)).mp
        (hj.trans hi.symm)
      rwa [hji] at hkeep
    · exact fun hkeep => ⟨i, hi, hkeep⟩

end MariadbSink

end Saci.Mariadb.Sink
