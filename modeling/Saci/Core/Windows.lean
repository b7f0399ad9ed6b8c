import Mathlib.Order.Bounds.Basic
import Saci.Core.RecordBatch

/-!
# Event time

Time columns in milliseconds and the watermark of a native pipeline (`saci-core/src/windows/time.rs`
and `watermark.rs`). An `i64` is an integer, and what can leave the range wraps, as a release build
does.
-/

namespace Saci

/-- `i64::MIN`. -/
def I64_MIN : Int := -2 ^ 63

/-- `i64::MAX`. -/
def I64_MAX : Int := 2 ^ 63 - 1

/-- The `i64` that a wrapping operation leaves. -/
def wrapI64 (value : Int) : Int := value.bmod (2 ^ 64)

theorem wrapI64_mem (value : Int) : I64_MIN ≤ wrapI64 value ∧ wrapI64 value ≤ I64_MAX := by
  have hlow := Int.le_bmod (x := value) (m := 2 ^ 64) (by decide)
  have hhigh := Int.bmod_lt (x := value) (m := 2 ^ 64) (by decide)
  rw [wrapI64, I64_MIN, I64_MAX]
  omega

/-- Wrapping takes away some multiple of the range. -/
theorem exists_wrapI64 (value : Int) : ∃ turns : Int, wrapI64 value = value - turns * 2 ^ 64 :=
  ⟨_, Int.bmod_eq_self_sub_bdiv_mul value (2 ^ 64)⟩

/-- What fits is not wrapped. -/
theorem wrapI64_eq_self {value : Int} (hmin : I64_MIN ≤ value) (hmax : value ≤ I64_MAX) :
    wrapI64 value = value := by
  have hmem := wrapI64_mem value
  obtain ⟨turns, hturns⟩ := exists_wrapI64 value
  rw [I64_MIN] at hmin hmem
  rw [I64_MAX] at hmax hmem
  omega

/-- `i64::saturating_sub`. -/
def saturatingSub (a b : Int) : Int := max I64_MIN (min I64_MAX (a - b))

/-- The value of a cell of an integer or timestamp column, `none` for a null. -/
def Cell.toInt? : Cell → Option Int
  | .int value => some value
  | _ => none

/-- `to_ms_array`: milliseconds since the epoch, a `none` for each null. -/
def toMsArray (col : ArrayRef) : SaciResult (List (Option Int)) :=
  let values := col.cells.map Cell.toInt?
  match col.dataType with
  | .int64 => .ok values
  | .timestamp .second _ => .ok (values.map (Option.map fun ts => wrapI64 (ts * 1000)))
  | .timestamp .millisecond _ => .ok values
  -- the division truncates toward zero
  | .timestamp .microsecond _ => .ok (values.map (Option.map fun ts => ts.tdiv 1000))
  | .timestamp .nanosecond _ => .ok (values.map (Option.map fun ts => ts.tdiv 1000000))
  | dataType =>
    .error <| .generic
      s!"time column must be Int64 or Timestamp variant, got {repr dataType}"

/-- `WatermarkState`. -/
structure WatermarkState where
  /-- The highest timestamp seen, `i64::MIN` before the first. -/
  currentWatermark : Int
  allowedLateness : Int
  deriving DecidableEq

namespace WatermarkState

def new (allowedLateness : Int) : WatermarkState := ⟨I64_MIN, allowedLateness⟩

def advance (state : WatermarkState) (ts : Int) : WatermarkState :=
  if state.currentWatermark < ts then { state with currentWatermark := ts } else state

/-- `advance` for each timestamp in turn. -/
def advanceAll (state : WatermarkState) (times : List Int) : WatermarkState :=
  times.foldl advance state

def isBeyondLateness (state : WatermarkState) (ts : Int) : Bool :=
  if state.currentWatermark = I64_MIN then false
  else if state.currentWatermark ≤ state.allowedLateness then false
  else
    let threshold := wrapI64 (state.currentWatermark - state.allowedLateness)
    decide (ts < threshold)

def isLateButAcceptable (state : WatermarkState) (ts : Int) : Bool :=
  if state.currentWatermark = I64_MIN then false
  else decide (ts < state.currentWatermark) && !state.isBeyondLateness ts

def isOnTime (state : WatermarkState) (ts : Int) : Bool :=
  decide (state.currentWatermark = I64_MIN) || decide (state.currentWatermark ≤ ts)

@[simp] theorem allowedLateness_advance (state : WatermarkState) (ts : Int) :
    (state.advance ts).allowedLateness = state.allowedLateness := by
  rw [advance]
  split <;> rfl

@[simp] theorem allowedLateness_advanceAll (state : WatermarkState) (times : List Int) :
    (state.advanceAll times).allowedLateness = state.allowedLateness := by
  induction times generalizing state with
  | nil => rfl
  | cons ts times ih => exact (ih _).trans (state.allowedLateness_advance ts)

theorem advanceAll_append (state : WatermarkState) (times more : List Int) :
    state.advanceAll (times ++ more) = (state.advanceAll times).advanceAll more :=
  List.foldl_append

/-- What lies behind a timestamp beyond lateness is beyond lateness too. -/
theorem isBeyondLateness_mono {state : WatermarkState} {ts earlier : Int} (hle : earlier ≤ ts)
    (h : state.isBeyondLateness ts = true) : state.isBeyondLateness earlier = true := by
  simp only [isBeyondLateness] at h ⊢
  split at h
  · cases h
  split at h
  · cases h
  simp only [*, if_false]
  exact decide_eq_true (lt_of_le_of_lt hle (of_decide_eq_true h))

/-- An advance never moves the watermark back, and it reaches the timestamp. -/
theorem le_advance (state : WatermarkState) (ts : Int) :
    state.currentWatermark ≤ (state.advance ts).currentWatermark ∧
      ts ≤ (state.advance ts).currentWatermark := by
  rw [advance]
  split
  · exact ⟨le_of_lt ‹_›, le_refl _⟩
  · exact ⟨le_refl _, not_lt.mp ‹_›⟩

/-! ## Every sequence of advances -/

/-- The watermark is the greatest of where it was and what it was advanced to. -/
theorem isGreatest_advanceAll (state : WatermarkState) (times : List Int) :
    IsGreatest {ts | ts = state.currentWatermark ∨ ts ∈ times}
      (state.advanceAll times).currentWatermark := by
  induction times generalizing state with
  | nil => exact ⟨.inl rfl, fun ts hts => (hts.resolve_right List.not_mem_nil).le⟩
  | cons ts times ih =>
    obtain ⟨hmem, hbound⟩ := ih (state.advance ts)
    obtain ⟨hkept, hreached⟩ := le_advance state ts
    refine ⟨?_, ?_⟩
    · rcases hmem with hstart | hlater
      · have hadvance : (state.advance ts).currentWatermark = state.currentWatermark ∨
            (state.advance ts).currentWatermark = ts := by
          rw [advance]
          split
          · exact .inr rfl
          · exact .inl rfl
        rcases hadvance with hold | hnew
        · exact .inl (hstart.trans hold)
        · exact .inr (List.mem_cons.mpr (.inl (hstart.trans hnew)))
      · exact .inr (List.mem_cons_of_mem _ hlater)
    · rintro seen (rfl | hseen)
      · exact hkept.trans (hbound (.inl rfl))
      · rcases List.mem_cons.mp hseen with rfl | hlater
        · exact hreached.trans (hbound (.inl rfl))
        · exact hbound (.inr hlater)

/-- Advanced to something, a new watermark is the greatest of what it was advanced to. -/
theorem isGreatest_new (lateness : Int) {times : List Int} (htimes : ∀ ts ∈ times, I64_MIN ≤ ts)
    (hne : times ≠ []) :
    IsGreatest {ts | ts ∈ times} ((new lateness).advanceAll times).currentWatermark := by
  obtain ⟨hmem, hbound⟩ := isGreatest_advanceAll (new lateness) times
  refine ⟨hmem.elim (fun hstart => ?_) id, fun ts hts => hbound (.inr hts)⟩
  -- then all of them are `i64::MIN`
  obtain ⟨first, hfirst⟩ := List.exists_mem_of_ne_nil times hne
  have hle := hbound (.inr hfirst)
  rw [hstart] at hle ⊢
  exact le_antisymm hle (htimes first hfirst) ▸ hfirst

/-- A timestamp is beyond lateness where the watermark is set and above the budget, and their
difference is above the timestamp. -/
theorem isBeyondLateness_iff {state : WatermarkState}
    (hfits : state.currentWatermark - state.allowedLateness ≤ I64_MAX) (ts : Int) :
    state.isBeyondLateness ts = true ↔ state.currentWatermark ≠ I64_MIN ∧
      state.allowedLateness < state.currentWatermark ∧
      ts < state.currentWatermark - state.allowedLateness := by
  rw [isBeyondLateness]
  split_ifs with hunset hbudget
  · exact iff_of_false nofun fun h => h.1 hunset
  · exact iff_of_false nofun fun h => h.2.1.not_ge hbudget
  · have hthreshold : wrapI64 (state.currentWatermark - state.allowedLateness) =
        state.currentWatermark - state.allowedLateness :=
      wrapI64_eq_self (by rw [I64_MIN]; omega) hfits
    simp only [hthreshold, decide_eq_true_eq]
    exact ⟨fun hlt => ⟨hunset, not_le.mp hbudget, hlt⟩, fun h => h.2.2⟩

/-- **Lateness**: after any sequence of advances the watermark is the greatest of them, and where
the budget is not negative, or the watermark less the budget is an `i64` all the same, a timestamp
is beyond lateness exactly if the watermark is set, above the budget, and further above the
timestamp than the budget. -/
theorem lateness_exact (lateness : Int) {times : List Int}
    (htimes : ∀ ts ∈ times, I64_MIN ≤ ts ∧ ts ≤ I64_MAX) :
    (times = [] → ((new lateness).advanceAll times).currentWatermark = I64_MIN) ∧
    (times ≠ [] →
      IsGreatest {ts | ts ∈ times} ((new lateness).advanceAll times).currentWatermark) ∧
    (0 ≤ lateness ∨
        ((new lateness).advanceAll times).currentWatermark - lateness ≤ I64_MAX →
      ∀ ts, ((new lateness).advanceAll times).isBeyondLateness ts = true ↔
        ((new lateness).advanceAll times).currentWatermark ≠ I64_MIN ∧
        lateness < ((new lateness).advanceAll times).currentWatermark ∧
        ts < ((new lateness).advanceAll times).currentWatermark - lateness) := by
  refine ⟨fun hnil => hnil ▸ rfl,
    isGreatest_new lateness fun ts hts => (htimes ts hts).1, fun hfits ts => ?_⟩
  have hkept := allowedLateness_advanceAll (new lateness) times
  obtain ⟨hmem, _⟩ := isGreatest_advanceAll (new lateness) times
  have hmax : ((new lateness).advanceAll times).currentWatermark ≤ I64_MAX :=
    hmem.elim (fun hstart => hstart.le.trans (show I64_MIN ≤ I64_MAX by decide)) fun hts => (htimes _ hts).2
  have hiff := @isBeyondLateness_iff ((new lateness).advanceAll times)
    (by rw [hkept]; exact hfits.elim (fun hpos => (Int.sub_le_self _ hpos).trans hmax) id) ts
  rwa [hkept] at hiff

/-- Two advances, and a timestamp beyond the budget. -/
theorem late_after_advances :
    ((new 500).advanceAll [1000, 300]).isBeyondLateness 400 = true :=
  ((@lateness_exact 500 [1000, 300] (by decide)).2.2 (.inl (by decide)) 400).mpr
    (by decide)

/-- A budget above the watermark is without end: a timestamp 1100 ms behind is not beyond 500. -/
theorem budget_without_end :
    ¬∀ (lateness : Int) (times : List Int) (ts : Int),
      (((new lateness).advanceAll times).isBeyondLateness ts = true ↔
        ((new lateness).advanceAll times).currentWatermark ≠ I64_MIN ∧
        ts < ((new lateness).advanceAll times).currentWatermark - lateness) := by
  intro h
  exact absurd ((h 500 [100] (-1000)).mpr (by decide)) (by decide)

end WatermarkState
end Saci
