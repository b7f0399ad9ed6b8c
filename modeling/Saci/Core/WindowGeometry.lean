import Saci.Core.WindowSessions

/-!
# The windows of a timestamp

`assign_tumbling` and `assign_sliding` (`window_spec.rs`) as arithmetic on integers: a window number is
the floor of a quotient, and the sliding windows of a timestamp are the newest one and those next to it.
The oldest of them need not hold the timestamp where the size is not a multiple of the slide
(`slidingExact_iff`).
-/

namespace Saci.WindowSpec

variable {ts size slide offset j k : Int}

/-! ## Quotients -/

/-- The quotient is the number of the slot that holds the dividend. -/
theorem ediv_eq_iff (hsize : 0 < size) : ts / size = k ↔ k * size ≤ ts ∧ ts < k * size + size := by
  rw [← Int.le_ediv_iff_mul_le hsize, ← Int.ediv_le_iff_le_mul hsize]
  omega

theorem ediv_bounds (hsize : 0 < size) (ts : Int) :
    ts / size * size ≤ ts ∧ ts < ts / size * size + size := (ediv_eq_iff hsize).mp rfl

/-- A quotient of an `i64` is one. -/
theorem ediv_mem (hsize : 0 < size) (hmin : I64_MIN ≤ ts) (hmax : ts ≤ I64_MAX) :
    I64_MIN ≤ ts / size ∧ ts / size ≤ I64_MAX := by
  rw [I64_MIN] at hmin ⊢
  rw [I64_MAX] at hmax ⊢
  refine ⟨Int.le_ediv_of_mul_le hsize (by omega), Int.ediv_le_of_le_mul hsize ?_⟩
  have hscale := Int.mul_le_mul_of_nonneg_left (show 1 ≤ size from hsize) (show 0 ≤ (2 ^ 63 - 1 : Int) by decide)
  omega

/-- The division of `assign_tumbling` is the floor of the quotient. -/
theorem assignTumbling_eq (hsize : 0 < size) (ts offset : Int) :
    assignTumbling ts size offset = wrapI64 (ts - offset) / size := by
  obtain ⟨hmin, hmax⟩ := wrapI64_mem (ts - offset)
  rw [assignTumbling]
  generalize wrapI64 (ts - offset) = value at hmin hmax ⊢
  have hrem := Int.emod_lt_of_pos value hsize
  have hpos := Int.emod_nonneg value hsize.ne'
  have hquot := ediv_mem hsize hmin hmax
  rw [Int.tdiv_eq_ediv, Int.tmod_eq_emod]
  by_cases hexact : 0 ≤ value ∨ size ∣ value
  · rw [if_pos hexact, if_pos hexact, if_neg (by omega), Int.add_zero]
  · rw [if_neg hexact, if_neg hexact, if_pos (by omega), Int.sign_eq_one_of_pos hsize,
      Int.add_sub_cancel, wrapI64_eq_self hquot.1 hquot.2]

/-! ## Sliding -/

/-- Where the sum that `k` is computed from fits, it is one more than the slides before the last
instant of a window. -/
theorem slides_eq (hslide : 0 < slide) (hle : slide ≤ size) (hfits : size + slide - 1 ≤ I64_MAX) :
    slides size slide = (size - 1) / slide + 1 := by
  rw [slides, wrapI64_eq_self (by rw [I64_MIN]; omega) hfits, Int.tdiv_eq_ediv_of_nonneg (by omega),
    show size + slide - 1 = size - 1 + 1 * slide by omega, Int.add_mul_ediv_right _ _ hslide.ne']

/-- Where it wraps, there are no windows. -/
theorem slides_of_wrap (hslide : 0 < slide) (hle : slide ≤ size) (hsize : size ≤ I64_MAX)
    (hwraps : I64_MAX < size + slide - 1) : slides size slide ≤ 0 := by
  obtain ⟨hmin, hmax⟩ := wrapI64_mem (size + slide - 1)
  obtain ⟨turns, hturns⟩ := exists_wrapI64 (size + slide - 1)
  rw [I64_MIN] at hmin
  rw [I64_MAX] at hmax hsize hwraps
  rw [slides]
  have hneg := Int.tdiv_le_tdiv hslide (show wrapI64 (size + slide - 1) ≤ 0 by omega)
  rwa [Int.zero_tdiv] at hneg

/-- The sliding windows of a timestamp: the one of the slot that it is in, and of slots before. -/
theorem assignSliding_eq (hslide : 0 < slide) (ts size offset : Int) :
    assignSliding ts size slide offset =
      (List.range (slides size slide).toNat).map fun j : Nat =>
        wrapI64 (ts - offset - j * slide) / slide := by
  have hcast : (do let a ← List.range (slides size slide).toNat; pure (a : Int)) =
      (List.range (slides size slide).toNat).map fun a : Nat => (a : Int) := List.map_eq_flatMap.symm
  rw [assignSliding, hcast, List.map_map]
  refine List.map_congr_left fun j _ => ?_
  rw [Function.comp_apply, assignTumbling_eq hslide]
  refine congrArg (· / slide) ?_
  simp only [wrapI64, Int.sub_bmod_bmod, Int.bmod_sub_bmod]
  rw [sub_right_comm]

/-- The sliding assignment is without duplicates, and is the windows that hold the timestamp. -/
def SlidingExact (ts size slide offset : Int) : Prop :=
  (assignSliding ts size slide offset).Nodup ∧
    ∀ k, k ∈ assignSliding ts size slide offset ↔
      k * slide + offset ≤ ts ∧ ts < k * slide + offset + size

/-- The arithmetic stays within `i64`, and either the slide divides the size or the timestamp is early
enough in its slot for the oldest window to reach it. -/
structure SlidingFits (ts size slide offset : Int) : Prop where
  count : size + slide - 1 ≤ I64_MAX
  newest : ts - offset ≤ I64_MAX
  oldest : I64_MIN ≤ ts - offset - (size - 1) / slide * slide
  aligned : slide ∣ size ∨ (ts - offset) % slide < size % slide

/-- The oldest of the windows reaches the timestamp. -/
theorem aligned_iff (hslide : 0 < slide) :
    slide ∣ size ∨ (ts - offset) % slide < size % slide ↔
      (ts - offset) % slide < size - (size - 1) / slide * slide := by
  have hlast := Int.ediv_mul_add_emod (size - 1) slide
  have hrem := Int.emod_lt_of_pos (ts - offset) hslide
  have hrem' := Int.emod_lt_of_pos (size - 1) hslide
  have hpos' := Int.emod_nonneg (size - 1) hslide.ne'
  by_cases hdvd : slide ∣ size
  · -- the last instant of a window is the last of its slot
    have hmod : (size - 1) % slide = slide - 1 := by
      obtain ⟨q, rfl⟩ := hdvd
      refine ((Int.ediv_emod_unique (q := q - 1) hslide).mpr ⟨?_, by omega, by omega⟩).2
      rw [Int.mul_sub, Int.mul_one]
      omega
    exact iff_of_true (.inl hdvd) (by omega)
  · have hmod : (size - 1) % slide = size % slide - 1 := by
      have hquot := Int.mul_ediv_add_emod size slide
      have hne : size % slide ≠ 0 := mt Int.dvd_of_emod_eq_zero hdvd
      have hpos := Int.emod_nonneg size hslide.ne'
      have hlt := Int.emod_lt_of_pos size hslide
      exact ((Int.ediv_emod_unique (q := size / slide) hslide).mpr
        ⟨by omega, by omega, by omega⟩).2
    rw [or_iff_right hdvd]
    omega

/-- A window holds a timestamp where it holds its slot. -/
theorem holds_iff : k * slide + offset ≤ ts ∧ ts < k * slide + offset + size ↔
    k * slide ≤ ts - offset ∧ ts - offset < k * slide + size := by omega

/-- Within `i64` the windows of a timestamp count down from that of its slot. -/
theorem wrap_slot (h : SlidingFits ts size slide offset) (hslide : 0 < slide) (hj : 0 ≤ j)
    (hle : j ≤ (size - 1) / slide) : wrapI64 (ts - offset - j * slide) / slide =
      (ts - offset) / slide - j := by
  have hfirst := Int.mul_nonneg hj hslide.le
  have hlast := Int.mul_le_mul_of_nonneg_right hle hslide.le
  rw [wrapI64_eq_self (h.oldest.trans (by omega)) (le_trans (by omega) h.newest),
    Int.sub_mul_ediv_right _ _ hslide.ne']

theorem slidingExact_of_fits (hslide : 0 < slide) (hle : slide ≤ size)
    (h : SlidingFits ts size slide offset) : SlidingExact ts size slide offset := by
  have hcount := slides_eq hslide hle h.count
  have hlast : 0 ≤ (size - 1) / slide := Int.ediv_nonneg (by omega) hslide.le
  have hids : assignSliding ts size slide offset =
      (List.range (slides size slide).toNat).map fun j : Nat => (ts - offset) / slide - j := by
    rw [assignSliding_eq hslide]
    refine List.map_congr_left fun j hj => ?_
    have hj := List.mem_range.mp hj
    exact wrap_slot h hslide (by omega) (by omega)
  have haligned := (aligned_iff hslide).mp h.aligned
  refine ⟨?_, fun k => ?_⟩
  · rw [hids]
    exact List.nodup_range.map fun i j hij => by simpa using hij
  · obtain ⟨hslot, hnext⟩ := ediv_bounds hslide (ts - offset)
    have hrem := Int.ediv_mul_add_emod (ts - offset) slide
    rw [holds_iff, hids, List.mem_map]
    constructor
    · rintro ⟨j, hj, rfl⟩
      have hj := List.mem_range.mp hj
      have hstep := Int.mul_le_mul_of_nonneg_right (show (j : Int) ≤ (size - 1) / slide by omega)
        hslide.le
      have hback := Int.mul_nonneg (Int.natCast_nonneg j) hslide.le
      rw [Int.sub_mul]
      omega
    · rintro ⟨hstart, hend⟩
      have hold : k ≤ (ts - offset) / slide := (Int.le_ediv_iff_mul_le hslide).mpr hstart
      have hback : (ts - offset) / slide - k ≤ (size - 1) / slide := by
        rw [Int.le_ediv_iff_mul_le hslide, Int.sub_mul]
        omega
      refine ⟨((ts - offset) / slide - k).toNat, List.mem_range.mpr (by omega), ?_⟩
      rw [Int.toNat_of_nonneg (by omega)]
      omega

/-- A window of the assignment that holds the timestamp is computed without a wrap. -/
theorem wrap_of_holds (hslide : 0 < slide)
    (hcount : size + slide - 1 ≤ I64_MAX) (hj : 0 ≤ j) (hlast : j ≤ (size - 1) / slide)
    (hholds : wrapI64 (ts - offset - j * slide) / slide * slide ≤ ts - offset ∧
      ts - offset < wrapI64 (ts - offset - j * slide) / slide * slide + size) :
    wrapI64 (ts - offset - j * slide) = ts - offset - j * slide := by
  obtain ⟨turns, hturns⟩ := exists_wrapI64 (ts - offset - j * slide)
  have hslot := ediv_bounds hslide (wrapI64 (ts - offset - j * slide))
  have hfirst := Int.mul_nonneg hj hslide.le
  have hstep := Int.mul_le_mul_of_nonneg_right hlast hslide.le
  have hback := Int.ediv_mul_le (size - 1) hslide.ne'
  rw [I64_MAX] at hcount
  omega

theorem fits_of_slidingExact (hslide : 0 < slide) (hle : slide ≤ size) (hsize : size ≤ I64_MAX)
    (h : SlidingExact ts size slide offset) : SlidingFits ts size slide offset := by
  obtain ⟨-, hmem⟩ := h
  simp only [holds_iff, assignSliding_eq hslide] at hmem
  -- some window holds the timestamp
  have hcount : size + slide - 1 ≤ I64_MAX := by
    by_contra hwraps
    have hnone := slides_of_wrap hslide hle hsize (not_le.mp hwraps)
    have hslot := ediv_bounds hslide (ts - offset)
    have hin := (hmem ((ts - offset) / slide)).mpr ⟨hslot.1, by omega⟩
    rw [Int.toNat_of_nonpos hnone] at hin
    cases hin
  have hslides := slides_eq hslide hle hcount
  have hnonneg : 0 ≤ (size - 1) / slide := Int.ediv_nonneg (by omega) hslide.le
  have hholds : ∀ j, 0 ≤ j → j ≤ (size - 1) / slide →
      wrapI64 (ts - offset - j * slide) / slide * slide ≤ ts - offset ∧
        ts - offset < wrapI64 (ts - offset - j * slide) / slide * slide + size := by
    intro j hj hlast
    refine (hmem _).mp (List.mem_map.mpr ⟨j.toNat, List.mem_range.mpr (by omega), ?_⟩)
    rw [Int.toNat_of_nonneg hj]
  have hfirst := wrap_of_holds hslide hcount (le_refl 0) hnonneg (hholds 0 (le_refl 0) hnonneg)
  have hlast := wrap_of_holds hslide hcount hnonneg (le_refl _) (hholds _ hnonneg (le_refl _))
  refine ⟨hcount, ?_, ?_, (aligned_iff hslide).mpr ?_⟩
  · have hmax := (wrapI64_mem (ts - offset - 0 * slide)).2
    rw [hfirst] at hmax
    omega
  · have hmin := (wrapI64_mem (ts - offset - (size - 1) / slide * slide)).1
    rwa [hlast] at hmin
  · have hend := (hholds _ hnonneg (le_refl _)).2
    rw [hlast, Int.sub_mul_ediv_right _ _ hslide.ne', Int.sub_mul] at hend
    have hrem := Int.ediv_mul_add_emod (ts - offset) slide
    omega

theorem sliding_valid (h : (sliding size slide offset).validate = .ok ()) :
    0 < slide ∧ slide ≤ size := by
  rw [validate] at h
  split_ifs at h with hsize hslide hle
  exact ⟨not_le.mp hslide, not_lt.mp hle⟩

/-- **Sliding windows** are exactly those that hold the timestamp where the arithmetic stays within
`i64`, and the slide divides the size or the timestamp comes early enough in its slot. -/
theorem slidingExact_iff (hvalid : (sliding size slide offset).validate = .ok ())
    (hsize : size ≤ I64_MAX) (ts : Int) :
    SlidingExact ts size slide offset ↔ SlidingFits ts size slide offset := by
  obtain ⟨hslide, hle⟩ := sliding_valid hvalid
  exact ⟨fits_of_slidingExact hslide hle hsize, slidingExact_of_fits hslide hle⟩

/-- A negative timestamp, windows of seven every three, and an offset. -/
theorem negative_exact : SlidingExact (-2) 7 3 1 :=
  (slidingExact_iff rfl (by decide) (-2)).mpr ⟨by decide, by decide, by decide, .inr (by decide)⟩

/-- The windows of 5 are said to be 1, 0 and -1, of which the last is from -3 to 4. -/
theorem oldest_too_old : ¬∀ ts size slide offset : Int,
    (sliding size slide offset).validate = .ok () → size ≤ I64_MAX →
      SlidingExact ts size slide offset := by
  intro h
  have hexact := ((h 5 7 3 0 rfl (by decide)).2 (-1)).mp (by decide)
  exact absurd hexact.2 (by decide)

end Saci.WindowSpec
