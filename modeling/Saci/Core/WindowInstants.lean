import Mathlib.Data.Rat.Floor
import Saci.Core.WindowGeometry

/-!
# The windows of exact instants

A timestamp is cut to milliseconds before its window is computed (`windows/time.rs`). Seconds may
wrap, and the cut truncates toward zero: an instant before the epoch that is not a whole millisecond
goes to the next one, which is in another window where that millisecond opens one
(`windowIds_exact_iff`).
-/

namespace Saci

/-- How many units there are in a millisecond. -/
def TimeUnit.perMs : TimeUnit → Int
  | .second | .millisecond => 1
  | .microsecond => 1000
  | .nanosecond => 1000000

/-- How many milliseconds there are in a unit, at least one. -/
def TimeUnit.msPer : TimeUnit → Int
  | .second => 1000
  | .millisecond | .microsecond | .nanosecond => 1

namespace WindowSpec

variable {unit : TimeUnit} {ts size offset : Int}

/-- The instant of a timestamp in milliseconds, exactly. -/
def instant (unit : TimeUnit) (ts : Int) : ℚ := ts * unit.msPer / unit.perMs

/-- The tumbling window that an instant lies in. -/
def exactWindow (unit : TimeUnit) (ts size offset : Int) : Int := ⌊(instant unit ts - offset) / size⌋

/-- The millisecond that a timestamp is cut to. -/
def truncatedMs (unit : TimeUnit) (ts : Int) : Int := (ts * unit.msPer).tdiv unit.perMs

/-- The timestamp in milliseconds past the offset is an `i64`, and one before the epoch that is not
a whole millisecond is not cut to the start of a window. -/
structure CutWithin (unit : TimeUnit) (ts size offset : Int) : Prop where
  lower : I64_MIN ≤ truncatedMs unit ts - offset
  upper : truncatedMs unit ts - offset ≤ I64_MAX
  inside : ts < 0 → ¬unit.perMs ∣ ts → ¬size ∣ truncatedMs unit ts - offset

theorem perMs_pos (unit : TimeUnit) : 0 < unit.perMs := by
  cases unit <;> decide

/-- The exact window by integers: the instant may be cut down to milliseconds first. -/
theorem exactWindow_eq (hsize : 0 < size) :
    exactWindow unit ts size offset = (ts * unit.msPer / unit.perMs - offset) / size := by
  have hinstant : ⌊instant unit ts⌋ = ts * unit.msPer / unit.perMs := by
    rw [instant, Int.floor_div_cast_of_nonneg (perMs_pos unit).le, ← Int.cast_mul,
      Int.floor_intCast]
  rw [exactWindow, Int.floor_div_cast_of_nonneg hsize.le, Int.floor_sub_intCast, hinstant]

/-- The cut goes up by one from the floor, before the epoch and between milliseconds. -/
theorem truncatedMs_eq (unit : TimeUnit) (ts : Int) :
    truncatedMs unit ts =
      ts * unit.msPer / unit.perMs + if ts < 0 ∧ ¬unit.perMs ∣ ts then 1 else 0 := by
  rw [truncatedMs, Int.tdiv_eq_ediv, Int.sign_eq_one_of_pos (perMs_pos unit)]
  refine congrArg _ ?_
  cases unit <;> simp only [TimeUnit.msPer, TimeUnit.perMs, Int.mul_one, Int.one_dvd, or_true,
    not_true, and_false, if_true, if_false]
  all_goals
    split_ifs <;> omega

/-- One less is in the same slot, except at the start of a slot. -/
theorem sub_one_ediv_eq_iff (hsize : 0 < size) : ts / size = (ts - 1) / size ↔ ¬size ∣ ts := by
  have hbounds := ediv_bounds hsize ts
  rw [eq_comm, ediv_eq_iff hsize]
  constructor
  · rintro ⟨hlow, -⟩ hdvd
    have := Int.ediv_mul_cancel hdvd
    omega
  · intro hdvd
    have hne : ts / size * size ≠ ts := fun heq => hdvd ⟨ts / size, by rw [Int.mul_comm, heq]⟩
    omega

/-- Wrapped milliseconds keep a slot only if they are not wrapped. -/
theorem wrapI64_ediv_eq_iff (hsize : 0 < size) (hmax : size ≤ I64_MAX) (ms : Int) {down : Int}
    (hdown : 0 ≤ down ∧ down ≤ 1) :
    wrapI64 ms / size = (ms - down) / size ↔
      I64_MIN ≤ ms ∧ ms ≤ I64_MAX ∧ ms / size = (ms - down) / size := by
  constructor
  · intro h
    obtain ⟨hlow, hhigh⟩ := wrapI64_mem ms
    obtain ⟨turns, hturns⟩ := exists_wrapI64 ms
    have hwrapped := ediv_bounds hsize (wrapI64 ms)
    have hexact := ediv_bounds hsize (ms - down)
    rw [h] at hwrapped
    -- two numbers of one slot are not `2 ^ 64` apart
    have hsame : wrapI64 ms = ms := by
      rw [I64_MAX] at hmax
      omega
    rw [hsame] at h hlow hhigh
    exact ⟨hlow, hhigh, h⟩
  · rintro ⟨hlow, hhigh, h⟩
    rwa [wrapI64_eq_self hlow hhigh]

/-- The milliseconds of `to_ms_array`, one timestamp at a time. -/
def msOf (unit : TimeUnit) (ts : Int) : Int := wrapI64 (truncatedMs unit ts)

theorem assignTumbling_msOf (hsize : 0 < size) :
    assignTumbling (msOf unit ts) size offset = wrapI64 (truncatedMs unit ts - offset) / size := by
  rw [assignTumbling_eq hsize, msOf, wrapI64, wrapI64, Int.bmod_sub_bmod]
  rfl

/-- A timestamp gets the window of its exact instant exactly if it is cut within it. -/
theorem assignTumbling_exact_iff (hsize : 0 < size) (hmax : size ≤ I64_MAX) :
    assignTumbling (msOf unit ts) size offset = exactWindow unit ts size offset ↔
      CutWithin unit ts size offset := by
  rw [assignTumbling_msOf hsize, exactWindow_eq hsize]
  have hcut := truncatedMs_eq unit ts
  by_cases hrounds : ts < 0 ∧ ¬unit.perMs ∣ ts
  · rw [if_pos hrounds] at hcut
    have hfloor : ts * unit.msPer / unit.perMs - offset = truncatedMs unit ts - offset - 1 := by
      omega
    rw [hfloor, wrapI64_ediv_eq_iff hsize hmax _ (by decide), sub_one_ediv_eq_iff hsize]
    exact ⟨fun h => ⟨h.1, h.2.1, fun _ _ => h.2.2⟩,
      fun h => ⟨h.lower, h.upper, h.inside hrounds.1 hrounds.2⟩⟩
  · rw [if_neg hrounds, Int.add_zero] at hcut
    have hwrap := wrapI64_ediv_eq_iff hsize hmax (truncatedMs unit ts - offset)
      (by decide : (0 : Int) ≤ 0 ∧ (0 : Int) ≤ 1)
    rw [Int.sub_zero] at hwrap
    rw [← hcut, hwrap]
    exact ⟨fun h => ⟨h.1, h.2.1, fun hneg hdvd => absurd ⟨hneg, hdvd⟩ hrounds⟩,
      fun h => ⟨h.lower, h.upper, rfl⟩⟩

/-! ## Columns -/

/-- A column of `i64` timestamps and nulls. -/
def I64Column (cells : List Cell) : Prop :=
  ∀ cell ∈ cells, ∀ ts, cell.toInt? = some ts → I64_MIN ≤ ts ∧ ts ≤ I64_MAX

/-- Cutting does not leave the range. -/
theorem truncatedMs_mem (hunit : unit.msPer = 1) (hlow : I64_MIN ≤ ts) (hhigh : ts ≤ I64_MAX) :
    I64_MIN ≤ truncatedMs unit ts ∧ truncatedMs unit ts ≤ I64_MAX := by
  rw [I64_MIN] at hlow ⊢
  rw [I64_MAX] at hhigh ⊢
  rw [truncatedMs_eq, hunit, Int.mul_one]
  cases unit <;> simp only [TimeUnit.perMs]
  all_goals
    split_ifs <;> omega

/-- Only seconds can wrap. -/
theorem msOf_eq (hlow : I64_MIN ≤ ts) (hhigh : ts ≤ I64_MAX) :
    msOf unit ts =
      match unit with
      | .second => wrapI64 (ts * 1000)
      | .millisecond => ts
      | .microsecond => ts.tdiv 1000
      | .nanosecond => ts.tdiv 1000000 := by
  have hmem : unit.msPer = 1 → msOf unit ts = ts.tdiv unit.perMs := by
    intro hunit
    obtain ⟨hmin, hmax⟩ := truncatedMs_mem hunit hlow hhigh
    rw [msOf, wrapI64_eq_self hmin hmax, truncatedMs, hunit, Int.mul_one]
  cases unit with
  | second => rw [msOf, truncatedMs, TimeUnit.perMs, Int.tdiv_one]; rfl
  | millisecond => exact (hmem rfl).trans (Int.tdiv_one ts)
  | microsecond => exact hmem rfl
  | nanosecond => exact hmem rfl

theorem toMsArray_timestamp {cells : List Cell} {timezone : Option String}
    (hcells : I64Column cells) :
    toMsArray ⟨.timestamp unit timezone, cells⟩ =
      .ok (cells.map fun cell => cell.toInt?.map (msOf unit)) := by
  have hmap : ∀ f : Int → Int, (∀ ts, I64_MIN ≤ ts → ts ≤ I64_MAX → msOf unit ts = f ts) →
      cells.map (fun cell => cell.toInt?.map (msOf unit)) =
        (cells.map Cell.toInt?).map (Option.map f) := by
    intro f hf
    rw [List.map_map]
    refine List.map_congr_left fun cell hcell => ?_
    cases hts : cell.toInt? with
    | none => rw [Function.comp_apply, hts]; rfl
    | some ts =>
      obtain ⟨hlow, hhigh⟩ := hcells cell hcell ts hts
      rw [Function.comp_apply, hts, Option.map_some, Option.map_some, hf ts hlow hhigh]
  cases unit with
  | second => rw [hmap _ fun ts hlow hhigh => msOf_eq hlow hhigh]; rfl
  | millisecond =>
    rw [hmap id fun ts hlow hhigh => msOf_eq hlow hhigh, Option.map_id, List.map_id]
    rfl
  | microsecond => rw [hmap _ fun ts hlow hhigh => msOf_eq hlow hhigh]; rfl
  | nanosecond => rw [hmap _ fun ts hlow hhigh => msOf_eq hlow hhigh]; rfl

/-- The tumbling windows of the rows of a time column, none for a null. -/
def windowIds (col : ArrayRef) (size offset : Int) : SaciResult (List (Option Int)) :=
  (toMsArray col).map (List.map (Option.map fun ms => assignTumbling ms size offset))

/-- Every row gets the window of its exact instant exactly if every timestamp is cut within it. -/
theorem windowIds_exact_iff (unit : TimeUnit) (timezone : Option String) (cells : List Cell)
    (size offset : Int) (hcells : I64Column cells) (hsize : 0 < size) (hmax : size ≤ I64_MAX) :
    windowIds ⟨.timestamp unit timezone, cells⟩ size offset =
        .ok (cells.map fun cell => cell.toInt?.map fun ts => exactWindow unit ts size offset) ↔
      ∀ cell ∈ cells, ∀ ts, cell.toInt? = some ts → CutWithin unit ts size offset := by
  rw [windowIds, toMsArray_timestamp hcells]
  change Except.ok _ = Except.ok _ ↔ _
  rw [Except.ok.injEq, List.map_map, List.map_inj_left]
  refine forall₂_congr fun cell _ => ?_
  rw [Function.comp_apply]
  cases cell.toInt? with
  | none => exact iff_of_true rfl nofun
  | some ts =>
    simp only [Option.map_some, Option.some.injEq, forall_eq']
    exact assignTumbling_exact_iff hsize hmax

namespace Instants.Sample

/-- A second and a half before the epoch. -/
def column : List Cell := [.int (-1500000), .null]

theorem second_and_half_before_epoch :
    windowIds ⟨.timestamp .microsecond none, column⟩ 10000 0 =
      .ok (column.map fun cell => cell.toInt?.map fun ts => exactWindow .microsecond ts 10000 0) := by
  have hrow : ∀ cell ∈ column, ∀ ts, cell.toInt? = some ts → ts = -1500000 := by
    simp [column, Cell.toInt?, eq_comm]
  refine (windowIds_exact_iff .microsecond none column 10000 0 (fun cell hcell ts hts => ?_)
    (by decide) (by decide)).mpr fun cell hcell ts hts => ?_
  · rw [hrow cell hcell ts hts]
    decide
  · rw [hrow cell hcell ts hts]
    exact ⟨by decide, by decide, by decide⟩

/-- Half a millisecond before the epoch is cut to the epoch. -/
theorem half_millisecond_before_epoch :
    windowIds ⟨.timestamp .microsecond none, [.int (-500)]⟩ 1000 0 = .ok [some 0] ∧
      exactWindow .microsecond (-500) 1000 0 = -1 := by
  refine ⟨rfl, ?_⟩
  rw [exactWindow_eq (by decide)]
  decide

end Instants.Sample

end WindowSpec
end Saci
