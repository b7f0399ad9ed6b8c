import Saci.Core.WindowGeometry
import Saci.Core.WindowLateness

/-!
# The bounds shown to a window function

`aggregate_slice` computes the bounds of a window from its number and its size alone, where
`assign_tumbling` and `assign_sliding` take the offset off first and count sliding windows by their slide.
So a window function is shown the window that its rows were assigned to only where there is no offset, and
one slide is one size (`shown_iff`).
-/

namespace Saci

namespace WindowSpec

variable {ts size slide offset id : Int}

/-! ## Bounds from a number -/

/-- The bounds computed for a window number hold the timestamp. -/
def Within (size id ts : Int) : Prop :=
  wrapI64 (id * size) ≤ ts ∧ ts < wrapI64 (wrapI64 (id * size) + size)

/-- The bounds computed for a window number are those of the window that starts at `start`, and hold the
timestamp. -/
structure Shows (size id start ts : Int) : Prop where
  lower : wrapI64 (id * size) = start
  upper : wrapI64 (wrapI64 (id * size) + size) = start + size
  within : Within size id ts

/-- The multiple of the size that holds the timestamp has bounds in `i64`. -/
structure Fits (size ts : Int) : Prop where
  start : I64_MIN ≤ ts / size * size
  stop : ts / size * size + size ≤ I64_MAX

/-- Without an offset, and only so, the bounds computed for the window of a timestamp are its own. -/
theorem shows_iff (hpos : 0 < size) (hmin : I64_MIN ≤ offset) (hmax : offset ≤ I64_MAX) :
    Shows size (wrapI64 (ts - offset) / size) (wrapI64 (ts - offset) / size * size + offset) ts ↔
      offset = 0 ∧ Fits size ts := by
  constructor
  · rintro ⟨hlower, hupper, hstart, hstop⟩
    obtain ⟨turns, hturns⟩ := exists_wrapI64 (wrapI64 (ts - offset) / size * size)
    have hmem := wrapI64_mem (wrapI64 (ts - offset) / size * size)
    have hmem' := wrapI64_mem (wrapI64 (wrapI64 (ts - offset) / size * size) + size)
    rw [I64_MIN] at hmin
    rw [I64_MAX] at hmax
    obtain rfl : offset = 0 := by omega
    have hsame : ts / size = wrapI64 (ts - 0) / size := (ediv_eq_iff hpos).mpr (by omega)
    refine ⟨rfl, ?_, ?_⟩
    · rw [hsame]
      omega
    · rw [hsame]
      omega
  · rintro ⟨rfl, hfirst, hlast⟩
    have hts := ediv_bounds hpos ts
    have hstart := wrapI64_eq_self hfirst (by omega)
    have hstop := wrapI64_eq_self (by omega) hlast
    rw [Int.sub_zero, Int.add_zero, wrapI64_eq_self (by omega) (by omega)]
    refine ⟨hstart, by rw [hstart, hstop], ?_⟩
    rw [Within, hstart, hstop]
    exact hts

/-- The upper bound of a window is the lower bound of the next. -/
theorem wrapI64_next (id size : Int) :
    wrapI64 (wrapI64 (id * size) + size) = wrapI64 ((id + 1) * size) := by
  rw [wrapI64, wrapI64, Int.bmod_add_bmod, wrapI64, Int.add_mul, Int.one_mul]

/-- No timestamp is within the bounds of two windows next to each other. -/
theorem not_within_next (h : Within size id ts) : ¬Within size (id + 1) ts := by
  rintro ⟨hstart, -⟩
  have hstop := h.2
  rw [wrapI64_next] at hstop
  omega

/-! ## The windows of a timestamp -/

/-- The numbers of the windows of a timestamp. -/
def windowsOf (ts : Int) : WindowSpec → List Int
  | .tumbling size offset => [assignTumbling ts size offset]
  | .sliding size slide offset => assignSliding ts size slide offset
  | .session _ => []

/-- Where the window of a number starts, by the formula that numbers it. -/
def startOf (id : Int) : WindowSpec → Int
  | .tumbling size offset => id * size + offset
  | .sliding _ slide offset => id * slide + offset
  | .session _ => 0

/-- The spec's numbers are of type `i64`. -/
def IsI64 : WindowSpec → Prop
  | .tumbling size offset => size ≤ I64_MAX ∧ I64_MIN ≤ offset ∧ offset ≤ I64_MAX
  | .sliding size _ offset => size ≤ I64_MAX ∧ I64_MIN ≤ offset ∧ offset ≤ I64_MAX
  | .session gapMs => gapMs ≤ I64_MAX

/-- There is no offset, the windows do not overlap, and that of the timestamp has bounds in `i64`. -/
def Plain (ts : Int) : WindowSpec → Prop
  | .tumbling size offset => offset = 0 ∧ Fits size ts
  | .sliding size slide offset => slide = size ∧ offset = 0 ∧ Fits size ts
  | .session _ => True

theorem mem_assignSliding (hslide : 0 < slide) (hle : slide ≤ size)
    (hcount : size + slide - 1 ≤ I64_MAX) :
    id ∈ assignSliding ts size slide offset ↔
      ∃ j, 0 ≤ j ∧ j ≤ (size - 1) / slide ∧ wrapI64 (ts - offset - j * slide) / slide = id := by
  rw [assignSliding_eq hslide, slides_eq hslide hle hcount, List.mem_map]
  constructor
  · rintro ⟨j, hj, rfl⟩
    have hj := List.mem_range.mp hj
    exact ⟨j, by omega, by omega, rfl⟩
  · rintro ⟨j, hpos, hj, rfl⟩
    exact ⟨j.toNat, List.mem_range.mpr (by omega), by rw [Int.toNat_of_nonneg hpos]⟩

/-- A window shown as it is holds the timestamp by the formula. -/
theorem Shows.holds {start : Int} (h : Shows size id start ts) : start ≤ ts ∧ ts < start + size := by
  have hwithin := h.within
  rwa [Within, h.upper, h.lower] at hwithin

theorem sliding_shows_iff (hslide : 0 < slide) (hle : slide ≤ size)
    (hcount : size + slide - 1 ≤ I64_MAX) (hmin : I64_MIN ≤ offset) (hmax : offset ≤ I64_MAX) :
    (∀ id ∈ assignSliding ts size slide offset, Shows size id (id * slide + offset) ts) ↔
      slide = size ∧ offset = 0 ∧ Fits size ts := by
  have hnewest : ts - offset - 0 * slide = ts - offset := by omega
  have hmem := fun id => @mem_assignSliding ts size slide offset id hslide hle hcount
  constructor
  · intro h
    have hshown : ∀ j, 0 ≤ j → j ≤ (size - 1) / slide →
        Shows size (wrapI64 (ts - offset - j * slide) / slide)
          (wrapI64 (ts - offset - j * slide) / slide * slide + offset) ts :=
      fun j hpos hj => h _ ((hmem _).mpr ⟨j, hpos, hj, rfl⟩)
    have hexact : ∀ j, 0 ≤ j → j ≤ (size - 1) / slide →
        wrapI64 (ts - offset - j * slide) = ts - offset - j * slide := fun j hpos hj =>
      wrap_of_holds hslide hcount hpos hj (holds_iff.mp (hshown j hpos hj).holds)
    have hlast : 0 ≤ (size - 1) / slide := Int.ediv_nonneg (by omega) hslide.le
    have hequal : slide = size := by
      by_contra hne
      -- the two newest windows are next to each other
      have htwo : 1 ≤ (size - 1) / slide := (Int.le_ediv_iff_mul_le hslide).mpr (by omega)
      have hfirst := (hshown 0 (le_refl 0) hlast).within
      have hsecond := (hshown 1 (by omega) htwo).within
      rw [hexact 0 (le_refl 0) hlast, hnewest] at hfirst
      rw [hexact 1 (by omega) htwo, Int.sub_mul_ediv_right _ _ hslide.ne'] at hsecond
      refine not_within_next hsecond ?_
      rwa [Int.sub_add_cancel]
    subst hequal
    have hfirst := hshown 0 (le_refl 0) hlast
    rw [hnewest] at hfirst
    exact ⟨rfl, (shows_iff hslide hmin hmax).mp hfirst⟩
  · rintro ⟨rfl, hfits⟩ id hid
    obtain ⟨j, hpos, hj, rfl⟩ := (hmem id).mp hid
    have hone : (slide - 1) / slide = 0 := Int.ediv_eq_zero_of_lt (by omega) (by omega)
    obtain rfl : j = 0 := by omega
    rw [hnewest]
    exact (shows_iff hslide hmin hmax).mpr hfits

/-- The bounds computed for the windows of a timestamp are their own, and hold it, exactly where the spec is
plain at the timestamp. -/
theorem windowsOf_shows_iff {spec : WindowSpec} (hvalid : spec.validate = .ok ()) (hi64 : spec.IsI64)
    (hsession : spec.isSession = false) (hne : spec.windowsOf ts ≠ []) :
    (∀ id ∈ spec.windowsOf ts, Shows spec.sizeMs id (spec.startOf id) ts) ↔ spec.Plain ts := by
  cases spec with
  | tumbling size offset =>
    obtain ⟨-, hmin, hmax⟩ := hi64
    have hpos : 0 < size := isApart_of_validate hvalid
    rw [windowsOf, List.forall_mem_singleton, assignTumbling_eq hpos]
    exact shows_iff hpos hmin hmax
  | sliding size slide offset =>
    obtain ⟨hsize, hmin, hmax⟩ := hi64
    obtain ⟨hslide, hle⟩ := sliding_valid hvalid
    -- there are no windows where their number wraps
    have hcount : size + slide - 1 ≤ I64_MAX := by
      by_contra hwraps
      refine hne ?_
      rw [windowsOf, assignSliding_eq hslide,
        Int.toNat_of_nonpos (slides_of_wrap hslide hle hsize (not_le.mp hwraps))]
      rfl
    exact sliding_shows_iff hslide hle hcount hmin hmax
  | session gapMs => cases hsession

end WindowSpec

/-! ## What a window function is shown -/

/-- The context of a group. -/
def WindowCall.context (sys : WindowedSystem) (watermark : Int) (call : WindowCall) : WindowContext where
  windowId := call.windowId
  windowStart := wrapI64 (call.windowId * sys.spec.sizeMs)
  windowEnd := wrapI64 (wrapI64 (call.windowId * sys.spec.sizeMs) + sys.spec.sizeMs)
  isLateFiring := call.isLateFiring
  watermark := watermark

namespace WindowedSystem
variable {sys : WindowedSystem} {arrow : WindowArrow} {text : DataType → Cell → Option String}
  {data : Dataset WindowResources} {state : WindowState} {schema : Schema} {skipped : Nat}
  {sideOutput : List RecordBatch} {placed : List PlacedRow} {rows : List WindowRow} {call : WindowCall}

/-- In every group that has the row, the function is shown the bounds of the row's window, and they hold its
timestamp. -/
def Shown (sys : WindowedSystem) (arrow : WindowArrow) (step : Step) (row : WindowRow) : Prop :=
  ∀ call ∈ (sys.run arrow step.1 step.2).calls, row ∈ call.rows → ∀ watermark,
    ((call.context sys watermark).windowStart, (call.context sys watermark).windowEnd) =
      Firing.bounds sys ⟨step, call⟩ ∧
    (call.context sys watermark).windowStart ≤ row.timeMs ∧
    row.timeMs < (call.context sys watermark).windowEnd

/-- The rows of a group of any run were placed in it. -/
def PlacedIn (sys : WindowedSystem) (arrow : WindowArrow) (call : WindowCall) : Prop :=
  ∃ schema rows placed, sys.place arrow schema rows = .ok placed ∧
    ∀ row ∈ call.rows, ⟨row, call.windowId, call.keyHash⟩ ∈ placed

theorem placedIn_runGroups (harrow : arrow.Sorts)
    (h : call ∈ (sys.runGroups arrow data state schema skipped sideOutput placed).calls) :
    ∀ row ∈ call.rows, ⟨row, call.windowId, call.keyHash⟩ ∈ placed := by
  cases hprepare : sys.prepareAggregateInputs schema with
  | error e =>
    rw [runGroups, hprepare] at h
    cases h
  | ok prepared =>
    obtain ⟨result, idx, dataType⟩ := prepared
    obtain ⟨calls, hcalls, hspec⟩ := (runGroups_leftBy hprepare).callsGroups (pairwise_groups harrow placed)
    rw [hcalls] at h
    exact (placed_of_isCallOf harrow (hspec.groups call h)).2

theorem placedIn_run (harrow : arrow.Sorts) (h : call ∈ (sys.run arrow data state).calls) :
    PlacedIn sys arrow call := by
  rcases run_cases sys arrow data state with hidle | ⟨batch, times, -, -, hrun⟩
  · rw [hidle.calls] at h
    cases h
  rw [hrun] at h
  rcases @runTimed_cases sys arrow batch.schema (timed batch.rows times) data state
    (times.countP Option.isNone) with hidle | ⟨placed, hplace, hgroups⟩
  · rw [hidle.calls] at h
    cases h
  · rw [hgroups] at h
    exact ⟨_, _, placed, hplace, fun row hrow =>
      List.mem_of_mem_filter (placedIn_runGroups harrow h row hrow)⟩

/-- What the geometry assigns the rows, pair by pair. -/
theorem mem_assigned_iff (hsession : sys.spec.isSession = false) (h : Assigned sys rows placed)
    {row : WindowRow} {id : Int} :
    (∃ p ∈ placed, p.row = row ∧ p.windowId = id) ↔ row ∈ rows ∧ id ∈ sys.spec.windowsOf row.timeMs := by
  have hpairs : (∃ p ∈ placed, p.row = row ∧ p.windowId = id) ↔
      (row, id) ∈ placed.map fun p => (p.row, p.windowId) := by
    simp [List.mem_map]
  rw [hpairs]
  unfold Assigned at h
  cases hspec : sys.spec with
  | tumbling size offset =>
    rw [hspec] at h
    rw [h, List.mem_map]
    constructor
    · rintro ⟨_, hrow, heq⟩
      cases heq
      exact ⟨hrow, List.mem_singleton.mpr rfl⟩
    · rintro ⟨hrow, hid⟩
      exact ⟨row, hrow, by rw [List.mem_singleton.mp hid]⟩
  | sliding size slide offset =>
    rw [hspec] at h
    rw [h, List.mem_flatMap]
    constructor
    · rintro ⟨_, hrow, hmem⟩
      obtain ⟨_, hid, heq⟩ := List.mem_map.mp hmem
      cases heq
      exact ⟨hrow, hid⟩
    · rintro ⟨hrow, hid⟩
      exact ⟨row, hrow, List.mem_map.mpr ⟨id, hid, rfl⟩⟩
  | session gapMs =>
    rw [hspec] at hsession
    cases hsession

/-- A group has its rows in one of their windows. -/
theorem windowId_mem (harrow : arrow.Sorts) (hsession : sys.spec.isSession = false)
    (h : call ∈ (sys.run arrow data state).calls) {row : WindowRow} (hrow : row ∈ call.rows) :
    call.windowId ∈ sys.spec.windowsOf row.timeMs := by
  obtain ⟨schema, rows, placed, hplace, hmem⟩ := placedIn_run harrow h
  exact ((mem_assigned_iff hsession (assigned_place hplace)).mp ⟨_, hmem row hrow, rfl, rfl⟩).2

theorem mem_deliveries {calls : List WindowCall} {p : PlacedRow} :
    p ∈ deliveries calls ↔
      ∃ call ∈ calls, p.row ∈ call.rows ∧ call.windowId = p.windowId ∧ call.keyHash = p.keyHash := by
  rw [deliveries, List.mem_flatMap]
  refine exists_congr fun call => and_congr_right fun _ => ?_
  rw [List.mem_map]
  constructor
  · rintro ⟨row, hrow, rfl⟩
    exact ⟨hrow, rfl, rfl⟩
  · rintro ⟨hrow, hid, hhash⟩
    exact ⟨p.row, hrow, by rw [hid, hhash]⟩

/-- A run that succeeds hands a row over in all of its windows, or in none. -/
theorem exists_call (harrow : arrow.Sorts) (hcast : arrow.Casts text) (hspec : sys.spec.IsApart)
    (hsession : sys.spec.isSession = false) (hok : (sys.run arrow data state).result = .ok ())
    (h : call ∈ (sys.run arrow data state).calls) {row : WindowRow} (hrow : row ∈ call.rows) {id : Int}
    (hid : id ∈ sys.spec.windowsOf row.timeMs) :
    ∃ call' ∈ (sys.run arrow data state).calls, row ∈ call'.rows ∧ call'.windowId = id := by
  obtain ⟨batch, hsource, hempty | ⟨times, htimes⟩⟩ := exists_times hok
  · rw [run_of_no_rows hsource hempty] at h
    cases h
  obtain ⟨placed, hplace, hassigned, hperm⟩ := (run_accounted_iff harrow hsource htimes hok).1
  have hin := hperm.mem_iff.mp (mem_deliveries.mpr ⟨call, h, hrow, rfl, rfl⟩ :
    (⟨row, call.windowId, call.keyHash⟩ : PlacedRow) ∈ _)
  obtain ⟨hmem, hshare⟩ := List.mem_filter.mp hin
  have hplaced := hplace fun hnil => by
    rw [hnil] at hassigned
    rw [assigned_nil hassigned] at hmem
    cases hmem
  have hkept := ((mem_assigned_iff hsession hassigned).mp ⟨_, hmem, rfl, rfl⟩).1
  obtain ⟨p, hp, rfl, rfl⟩ := (mem_assigned_iff hsession hassigned).mpr ⟨hkept, hid⟩
  -- the row has one key in all of its windows
  have hhash := isPlaced_place harrow hcast hspec hplaced
  have hsame : p.keyHash = call.keyHash := (hhash p hp).1.trans (hhash _ hmem).1.symm
  have hp' : p ∈ placed.filter (inPartition data.resources.keyPartition) := by
    refine List.mem_filter.mpr ⟨hp, ?_⟩
    rw [inPartition] at hshare ⊢
    rwa [hsame]
  obtain ⟨call', hcall', hrow', hid', -⟩ := mem_deliveries.mp (hperm.mem_iff.mpr hp')
  exact ⟨call', hcall', hrow', hid'⟩

theorem bounds_eq (hsession : sys.spec.isSession = false) (step : Step) (call : WindowCall) :
    Firing.bounds sys ⟨step, call⟩ =
      (sys.spec.startOf call.windowId, sys.spec.startOf call.windowId + sys.spec.sizeMs) := by
  rw [Firing.bounds]
  cases hspec : sys.spec with
  | tumbling size offset => rfl
  | sliding size slide offset => rfl
  | session gapMs =>
    rw [hspec] at hsession
    cases hsession

theorem shown_iff_shows (hsession : sys.spec.isSession = false) {step : Step} {row : WindowRow} :
    Shown sys arrow step row ↔ ∀ call ∈ (sys.run arrow step.1 step.2).calls, row ∈ call.rows →
      WindowSpec.Shows sys.spec.sizeMs call.windowId (sys.spec.startOf call.windowId) row.timeMs := by
  refine forall_congr' fun call => forall_congr' fun _ => forall_congr' fun _ => ?_
  simp only [bounds_eq hsession, WindowCall.context, Prod.mk.injEq]
  constructor
  · intro h
    obtain ⟨⟨hlower, hupper⟩, hwithin⟩ := h 0
    exact ⟨hlower, hupper, hwithin⟩
  · intro h _
    exact ⟨⟨h.lower, h.upper⟩, h.within⟩

/-- **The bounds shown**: in a run that succeeds, a row that is handed over is shown with the bounds of its
windows exactly where the spec is plain at its timestamp; and where it is, so is a row of any run. -/
theorem shown_iff (harrow : arrow.Sorts) (hcast : arrow.Casts text) (hvalid : sys.spec.validate = .ok ())
    (hi64 : sys.spec.IsI64) (hsession : sys.spec.isSession = false) (step : Step) (row : WindowRow)
    (hhanded : ∃ call ∈ (sys.run arrow step.1 step.2).calls, row ∈ call.rows) :
    ((sys.run arrow step.1 step.2).result = .ok () →
      (Shown sys arrow step row ↔ sys.spec.Plain row.timeMs)) ∧
    (sys.spec.Plain row.timeMs → Shown sys arrow step row) := by
  obtain ⟨first, hfirst, hrow⟩ := hhanded
  have hne : sys.spec.windowsOf row.timeMs ≠ [] :=
    List.ne_nil_of_mem (windowId_mem harrow hsession hfirst hrow)
  have hplain := WindowSpec.windowsOf_shows_iff hvalid hi64 hsession hne
  have hsufficient : sys.spec.Plain row.timeMs → Shown sys arrow step row := fun h =>
    (shown_iff_shows hsession).mpr fun call hcall hin =>
      hplain.mpr h _ (windowId_mem harrow hsession hcall hin)
  refine ⟨fun hok => ⟨fun h => hplain.mp fun id hid => ?_, hsufficient⟩, hsufficient⟩
  obtain ⟨call, hcall, hin, rfl⟩ := exists_call harrow hcast (WindowSpec.isApart_of_validate hvalid)
    hsession hok hfirst hrow hid
  exact (shown_iff_shows hsession).mp h call hcall hin

end WindowedSystem

namespace WindowedSystem.Sample

/-- Windows of one second that start half a second past the full second. -/
def shifted : WindowedSystem := { sys with spec := .tumbling 1000 500 }

/-- A trade at 1200 ms is of the window from 500 ms, and is shown one from 0 to 1000 ms. -/
theorem shifted_shown_elsewhere :
    shifted.spec.validate = .ok () ∧
      (shifted.run arrow (tradeAt 1200) (WindowState.new none)).calls = [⟨0, 0, [⟨[.int 1200], 1200⟩], false⟩] ∧
      ¬Shown shifted arrow (tradeAt 1200, WindowState.new none) ⟨[.int 1200], 1200⟩ := by
  refine ⟨rfl, rfl, fun h => ?_⟩
  have hend := (h ⟨0, 0, [⟨[.int 1200], 1200⟩], false⟩ (.head _) (.head _) 0).2.2
  exact absurd hend (by decide)

/-- Without the shift it is shown its own. -/
theorem tumbling_shown : Shown sys arrow (tradeAt 1200, WindowState.new none) ⟨[.int 1200], 1200⟩ :=
  (@shown_iff sys arrow text sorts_arrow casts_arrow rfl ⟨by decide, by decide, by decide⟩ rfl
    (tradeAt 1200, WindowState.new none) _
    ⟨⟨1, 0, [⟨[.int 1200], 1200⟩], false⟩, .head _, .head _⟩).2 ⟨rfl, by decide, by decide⟩

end WindowedSystem.Sample
end Saci
