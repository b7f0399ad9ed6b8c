import Mathlib

/-!
# Lists of intervals

A finite set of natural numbers as a list of closed intervals in ascending order, no two of which touch:
adding a range, containment and the number of elements, each on the list and on the set it stands for. Every
finite set has one such list at most (`Canonical.eq_of_covered_eq`).
-/

namespace Saci.Intervals

/-- The numbers from the first to the second. -/
abbrev Interval := Nat × Nat

variable {is js : List Interval} {i j : Interval} {lo hi n : Nat}

/-- In ascending order, none empty, no two touching. -/
structure Canonical (is : List Interval) : Prop where
  nonempty : ∀ i ∈ is, i.1 ≤ i.2
  apart : is.Pairwise fun i j => i.2 + 1 < j.1

/-- The set that the intervals stand for. -/
def covered : List Interval → Finset Nat
  | [] => ∅
  | i :: is => Finset.Icc i.1 i.2 ∪ covered is

theorem mem_covered : n ∈ covered is ↔ ∃ i ∈ is, i.1 ≤ n ∧ n ≤ i.2 := by
  induction is with
  | nil => simp [covered]
  | cons i is ih => rw [covered, Finset.mem_union, Finset.mem_Icc, ih, List.exists_mem_cons_iff]

theorem covered_append : covered (is ++ js) = covered is ∪ covered js := by
  induction is with
  | nil => rw [List.nil_append, covered, Finset.empty_union]
  | cons i is ih => rw [List.cons_append, covered, covered, ih, Finset.union_assoc]

theorem Canonical.nil : Canonical [] := ⟨nofun, .nil⟩

theorem Canonical.tail (h : Canonical (i :: is)) : Canonical is :=
  ⟨fun j hj => h.nonempty j (List.mem_cons_of_mem _ hj), h.apart.of_cons⟩

theorem canonical_append :
    Canonical (is ++ js) ↔
      Canonical is ∧ Canonical js ∧ ∀ i ∈ is, ∀ j ∈ js, i.2 + 1 < j.1 := by
  constructor
  · intro h
    obtain ⟨his, hjs, hacross⟩ := List.pairwise_append.mp h.apart
    exact ⟨⟨fun i hi => h.nonempty i (List.mem_append_left _ hi), his⟩,
      ⟨fun j hj => h.nonempty j (List.mem_append_right _ hj), hjs⟩, hacross⟩
  · rintro ⟨his, hjs, hacross⟩
    refine ⟨fun i hi => ?_, List.pairwise_append.mpr ⟨his.apart, hjs.apart, hacross⟩⟩
    exact (List.mem_append.mp hi).elim (his.nonempty i) (hjs.nonempty i)

theorem canonical_cons :
    Canonical (i :: is) ↔ i.1 ≤ i.2 ∧ Canonical is ∧ ∀ j ∈ is, i.2 + 1 < j.1 := by
  constructor
  · exact fun h => ⟨h.nonempty i List.mem_cons_self, h.tail, (List.pairwise_cons.mp h.apart).1⟩
  · rintro ⟨hi, his, hacross⟩
    refine ⟨fun j hj => ?_, List.pairwise_cons.mpr ⟨hacross, his.apart⟩⟩
    rcases List.mem_cons.mp hj with rfl | hj
    · exact hi
    · exact his.nonempty j hj

/-! ## The number of elements -/

/-- How many numbers the intervals hold. -/
def size (is : List Interval) : Nat := (is.map fun i => i.2 - i.1 + 1).sum

theorem Canonical.card_covered (h : Canonical is) : (covered is).card = size is := by
  induction is with
  | nil => rfl
  | cons i is ih =>
    obtain ⟨hi, his, hacross⟩ := canonical_cons.mp h
    have hdisjoint : Disjoint (Finset.Icc i.1 i.2) (covered is) := by
      rw [Finset.disjoint_left]
      intro n hn hcovered
      obtain ⟨j, hj, hle, -⟩ := mem_covered.mp hcovered
      have hlt := hacross j hj
      have hle' := (Finset.mem_Icc.mp hn).2
      omega
    rw [covered, Finset.card_union_of_disjoint hdisjoint, Nat.card_Icc, ih his, size, size, List.map_cons,
      List.sum_cons]
    omega

/-! ## Adding a range -/

/-- The range with every interval that it meets or touches, and the intervals past it. -/
def absorb (lo hi : Nat) : List Interval → List Interval
  | [] => [(lo, hi)]
  | i :: is => if i.1 ≤ hi + 1 then absorb (min lo i.1) (max hi i.2) is else (lo, hi) :: i :: is

/-- The numbers of a range added. -/
def addRange (is : List Interval) (lo hi : Nat) : List Interval :=
  is.takeWhile (fun i => i.2 + 1 < lo) ++ absorb lo hi (is.dropWhile fun i => i.2 + 1 < lo)

theorem covered_absorb (hle : lo ≤ hi) (h : ∀ i ∈ is, lo ≤ i.2 + 1) (hnonempty : ∀ i ∈ is, i.1 ≤ i.2) :
    covered (absorb lo hi is) = Finset.Icc lo hi ∪ covered is := by
  induction is generalizing lo hi with
  | nil => rfl
  | cons i is ih =>
    rw [absorb]
    have hmeets := h i List.mem_cons_self
    split_ifs with hnear
    · rw [ih (by omega) (fun j hj => by have := h j (List.mem_cons_of_mem _ hj); omega)
        (fun j hj => hnonempty j (List.mem_cons_of_mem _ hj)), covered, ← Finset.union_assoc]
      congr 1
      ext n
      have hi := hnonempty i List.mem_cons_self
      simp only [Finset.mem_union, Finset.mem_Icc]
      omega
    · rfl

theorem Canonical.absorb (h : Canonical is) (hle : lo ≤ hi) : Canonical (absorb lo hi is) := by
  induction is generalizing lo hi with
  | nil => exact canonical_cons.mpr ⟨hle, .nil, nofun⟩
  | cons i is ih =>
    rw [Intervals.absorb]
    obtain ⟨hi, his, hacross⟩ := canonical_cons.mp h
    split_ifs with hnear
    · exact ih his (by omega)
    · refine canonical_cons.mpr ⟨hle, h, fun j hj => ?_⟩
      rcases List.mem_cons.mp hj with rfl | hj
      · exact Nat.lt_of_not_le hnear
      · have := hacross j hj
        omega

/-- What is absorbed begins no earlier than the range or an interval of the list. -/
theorem le_absorb {m : Nat} (hlo : m ≤ lo) (h : ∀ i ∈ is, m ≤ i.1) :
    ∀ j ∈ Intervals.absorb lo hi is, m ≤ j.1 := by
  induction is generalizing lo hi with
  | nil => simpa [Intervals.absorb] using hlo
  | cons i is ih =>
    have hi := h i List.mem_cons_self
    rw [Intervals.absorb]
    split_ifs
    · exact ih (by omega) fun j hj => h j (List.mem_cons_of_mem _ hj)
    · intro j hj
      rcases List.mem_cons.mp hj with rfl | hj
      · exact hlo
      · exact h j hj

/-- The intervals past those that end before a number. -/
theorem Canonical.le_of_mem_dropWhile (h : Canonical is) (hi : i ∈ is.dropWhile fun i => i.2 + 1 < lo) :
    lo ≤ i.2 + 1 := by
  induction is with
  | nil => cases hi
  | cons j is ih =>
    obtain ⟨hj, his, hacross⟩ := canonical_cons.mp h
    rw [List.dropWhile_cons] at hi
    split_ifs at hi with hbefore
    · exact ih his hi
    · have hlo : lo ≤ j.2 + 1 := by simpa using hbefore
      rcases List.mem_cons.mp hi with rfl | hi
      · exact hlo
      · have := hacross i hi
        have := his.nonempty i hi
        omega

theorem Canonical.addRange (h : Canonical is) (hle : lo ≤ hi) : Canonical (addRange is lo hi) := by
  rw [← List.takeWhile_append_dropWhile (p := fun i => i.2 + 1 < lo) (l := is), canonical_append] at h
  refine canonical_append.mpr ⟨h.1, h.2.1.absorb hle, fun i hi j hj => ?_⟩
  have hbefore : i.2 + 1 < lo := by simpa using List.mem_takeWhile_imp hi
  exact le_absorb (m := i.2 + 2) hbefore (fun k hk => h.2.2 i hi k hk) j hj

theorem Canonical.covered_addRange (h : Canonical is) (hle : lo ≤ hi) :
    covered (Intervals.addRange is lo hi) = Finset.Icc lo hi ∪ covered is := by
  rw [Intervals.addRange, covered_append,
    covered_absorb hle (fun i hi => h.le_of_mem_dropWhile hi) fun i hi =>
      h.nonempty i (List.dropWhile_sublist _ |>.subset hi),
    Finset.union_left_comm, ← covered_append, List.takeWhile_append_dropWhile]

/-! ## Containment -/

/-- Whether an interval lies inside one of the intervals: the first that does not end before it. -/
def holds (js : List Interval) (i : Interval) : Bool :=
  match js.dropWhile fun j => j.2 < i.1 with
  | [] => false
  | j :: _ => j.1 ≤ i.1 ∧ i.2 ≤ j.2

theorem Canonical.holds_iff (h : Canonical js) (hi : i.1 ≤ i.2) :
    holds js i = true ↔ Finset.Icc i.1 i.2 ⊆ covered js := by
  induction js with
  | nil => simpa [holds, covered] using hi
  | cons j js ih =>
    obtain ⟨hj, hjs, hacross⟩ := canonical_cons.mp h
    have hiff : ∀ n, n ∈ covered (j :: js) ↔ j.1 ≤ n ∧ n ≤ j.2 ∨ n ∈ covered js := fun n => by
      rw [covered, Finset.mem_union, Finset.mem_Icc]
    by_cases hbefore : j.2 < i.1
    · have hsame : holds (j :: js) i = holds js i := by
        rw [holds, holds, List.dropWhile_cons_of_pos (by simpa using hbefore)]
      rw [hsame, ih hjs]
      refine forall₂_congr fun n hn => ?_
      have hn := Finset.mem_Icc.mp hn
      exact ((hiff n).trans (or_iff_right (by omega))).symm
    · have hholds : holds (j :: js) i = true ↔ j.1 ≤ i.1 ∧ i.2 ≤ j.2 := by
        rw [holds, List.dropWhile_cons_of_neg (by simpa using hbefore), decide_eq_true_eq]
      rw [hholds]
      constructor
      · intro hinside n hn
        have hn := Finset.mem_Icc.mp hn
        exact (hiff n).mpr (.inl (by omega))
      · intro hsubset
        -- an interval past `j` does not touch it, so none of them holds what follows its end
        have hpast : ∀ n ∈ covered js, j.2 + 1 < n := fun n hn => by
          obtain ⟨k, hk, hle, -⟩ := mem_covered.mp hn
          have := hacross k hk
          omega
        have hstart := (hiff i.1).mp (hsubset (Finset.mem_Icc.mpr ⟨le_rfl, hi⟩))
        have hfirst : j.1 ≤ i.1 := by
          rcases hstart with hstart | hstart
          · exact hstart.1
          · have := hpast i.1 hstart
            omega
        refine ⟨hfirst, Nat.le_of_not_lt fun hlt => ?_⟩
        have hnext := (hiff (j.2 + 1)).mp (hsubset (Finset.mem_Icc.mpr ⟨by omega, by omega⟩))
        rcases hnext with hnext | hnext
        · omega
        · have := hpast _ hnext
          omega

/-- Whether every interval lies inside one of the others. -/
def subset (is js : List Interval) : Bool := is.all (holds js)

theorem Canonical.subset_iff (his : Canonical is) (hjs : Canonical js) :
    subset is js = true ↔ covered is ⊆ covered js := by
  rw [subset, List.all_eq_true]
  constructor
  · intro h n hn
    obtain ⟨i, hi, hle⟩ := mem_covered.mp hn
    exact (hjs.holds_iff (his.nonempty i hi)).mp (h i hi) (Finset.mem_Icc.mpr hle)
  · intro h i hi
    refine (hjs.holds_iff (his.nonempty i hi)).mpr fun n hn => h ?_
    exact mem_covered.mpr ⟨i, hi, Finset.mem_Icc.mp hn⟩

/-! ## One list for each set -/

theorem Canonical.first_mem_covered (h : Canonical (i :: is)) : i.1 ∈ covered (i :: is) :=
  mem_covered.mpr ⟨i, List.mem_cons_self, le_rfl, (canonical_cons.mp h).1⟩

theorem Canonical.le_of_mem_covered (h : Canonical (i :: is)) (hn : n ∈ covered (i :: is)) : i.1 ≤ n := by
  obtain ⟨hi, -, hacross⟩ := canonical_cons.mp h
  obtain ⟨k, hk, hle, -⟩ := mem_covered.mp hn
  rcases List.mem_cons.mp hk with rfl | hk
  · exact hle
  · have := hacross k hk
    omega

/-- Past the first interval and the number behind it. -/
theorem Canonical.mem_covered_tail_iff (h : Canonical (i :: is)) :
    n ∈ covered is ↔ n ∈ covered (i :: is) ∧ i.2 + 1 < n := by
  obtain ⟨-, -, hacross⟩ := canonical_cons.mp h
  rw [covered, Finset.mem_union, Finset.mem_Icc]
  constructor
  · intro hn
    obtain ⟨k, hk, hle, -⟩ := mem_covered.mp hn
    have := hacross k hk
    exact ⟨.inr hn, by omega⟩
  · rintro ⟨hfirst | hrest, hpast⟩
    · omega
    · exact hrest

/-- The first interval ends where the set first has a gap. -/
theorem Canonical.end_le (h' : Canonical (j :: js)) (hstart : i.1 = j.1)
    (hcovered : covered (i :: is) = covered (j :: js)) : i.2 ≤ j.2 := by
  obtain ⟨hj, -, -⟩ := canonical_cons.mp h'
  by_contra hlt
  have hgap : j.2 + 1 ∈ covered (j :: js) := by
    rw [← hcovered, covered, Finset.mem_union, Finset.mem_Icc]
    exact .inl (by omega)
  rw [covered, Finset.mem_union, Finset.mem_Icc] at hgap
  rcases hgap with hfirst | hrest
  · omega
  · have := (h'.mem_covered_tail_iff.mp hrest).2
    omega

/-- **Canonical lists of one set are the same list.** -/
theorem Canonical.eq_of_covered_eq (h : Canonical is) (h' : Canonical js) (hcovered : covered is = covered js) :
    is = js := by
  induction is generalizing js with
  | nil =>
    cases js with
    | nil => rfl
    | cons j js => exact absurd (hcovered ▸ h'.first_mem_covered) (Finset.notMem_empty _)
  | cons i is ih =>
    cases js with
    | nil => exact absurd (hcovered ▸ h.first_mem_covered) (Finset.notMem_empty _)
    | cons j js =>
      have hstart : i.1 = j.1 :=
        le_antisymm (h.le_of_mem_covered (hcovered ▸ h'.first_mem_covered))
          (h'.le_of_mem_covered (hcovered ▸ h.first_mem_covered))
      have hend : i.2 = j.2 := le_antisymm (h'.end_le hstart hcovered) (h.end_le hstart.symm hcovered.symm)
      obtain rfl : i = j := Prod.ext hstart hend
      refine congrArg (i :: ·) (ih h.tail h'.tail (Finset.ext fun n => ?_))
      rw [h.mem_covered_tail_iff, h'.mem_covered_tail_iff, hcovered]

end Saci.Intervals
