import Saci.Core.Windows
import Saci.Core.Dataset

/-!
# Watermark tracking of windowed nodes

`WindowTracker` (`saci-service/src/service/windowing.rs`): the host's own watermark of a processor
node with a `window` block, and its classification of every arrival. The report of late arrivals
is edge-triggered: a run of unusable arrivals is reported once, and its end once.
-/

namespace Saci

/-- `WindowConfig`, through what the tracker reads. -/
structure WindowConfig where
  timeField : String
  allowedLatenessMs : Int

/-- `WatermarkAdvance`. -/
inductive WatermarkAdvance
  | empty
  | usable (recovered : Bool)
  | beyondLateness (newestMs behindMs : Int) (first : Bool)
  deriving DecidableEq

def BEYOND_LATENESS_RUN_TO_REPORT : Nat := 4

structure WindowTracker where
  config : WindowConfig
  watermarkMs : Int
  /-- A `u32`, saturating. -/
  beyondLatenessRun : Nat
  beyondLatenessReported : Bool

namespace WindowTracker

def new (config : WindowConfig) : WindowTracker := ⟨config, I64_MIN, 0, false⟩

def hasWatermark (tracker : WindowTracker) : Bool := tracker.watermarkMs ≠ I64_MIN

/-- `advance_from` looks at the component. -/
def carries (config : WindowConfig) (entry : Registered) : Bool :=
  entry.schema.fields.any fun field => field.name = config.timeField

/-- The time column of a component that carries the time field. -/
def timeColumn (config : WindowConfig) (entry : Registered) : SaciResult (List (Option Int)) :=
  let batch := entry.merged
  match entry.schema.indexOf config.timeField with
  | none =>
    .error <| .generic
      s!"WindowTracker: time field lookup: Unable to get field named \"{config.timeField}\""
  | some idx =>
    toMsArray ⟨((batch.schema.fields[idx]?).map Field.dataType).getD .int64, batch.column idx⟩

/-- The newest timestamp once one more is seen. -/
def newer (newest : Option Int) (value : Int) : Option Int :=
  if newest.all fun seen => seen < value then some value else newest

/-- One timestamp: it may move the watermark, and it may be the newest so far. -/
def observe (tracker : WindowTracker) (newest : Option Int) (value : Int) :
    WindowTracker × Option Int :=
  (if tracker.watermarkMs < value then { tracker with watermarkMs := value } else tracker,
    newer newest value)

/-- The loop over one column. -/
def observeAll (tracker : WindowTracker) (newest : Option Int) :
    List Int → WindowTracker × Option Int
  | [] => (tracker, newest)
  | value :: values =>
    let (tracker, newest) := tracker.observe newest value
    tracker.observeAll newest values

/-- The loop over the components. A refused column ends it, with the tracker as it then is. -/
def scan (tracker : WindowTracker) (newest : Option Int) :
    List Registered → WindowTracker × SaciResult (Option Int)
  | [] => (tracker, .ok newest)
  | entry :: entries =>
    if carries tracker.config entry then
      match timeColumn tracker.config entry with
      | .error e => (tracker, .error e)
      | .ok timeMs =>
        let (tracker, newest) := tracker.observeAll newest timeMs.reduceOption
        tracker.scan newest entries
    else tracker.scan newest entries

/-- The lateness threshold an arrival is held against. -/
def threshold (config : WindowConfig) (watermarkBefore : Int) : Option Int :=
  if watermarkBefore = I64_MIN ∨ watermarkBefore ≤ config.allowedLatenessMs then none
  else some (wrapI64 (watermarkBefore - config.allowedLatenessMs))

/-- The classification of an arrival by its newest timestamp. -/
def classify (tracker : WindowTracker) (watermarkBefore newest : Int) :
    WindowTracker × WatermarkAdvance :=
  if (threshold tracker.config watermarkBefore).any fun threshold => newest < threshold then
    let run := min (tracker.beyondLatenessRun + 1) (UInt32.size - 1)
    let first := !tracker.beyondLatenessReported && decide (BEYOND_LATENESS_RUN_TO_REPORT ≤ run)
    ({ tracker with
        beyondLatenessRun := run
        beyondLatenessReported := tracker.beyondLatenessReported || first },
      .beyondLateness newest (saturatingSub watermarkBefore newest) first)
  else
    ({ tracker with beyondLatenessRun := 0, beyondLatenessReported := false },
      .usable tracker.beyondLatenessReported)

/-- `advance_from`. -/
def advanceFrom {R : Type} (tracker : WindowTracker) (dataset : Dataset R) :
    WindowTracker × SaciResult WatermarkAdvance :=
  match tracker.scan none dataset.components with
  | (scanned, .error e) => (scanned, .error e)
  | (scanned, .ok none) => (scanned, .ok .empty)
  | (scanned, .ok (some newest)) =>
    let (classified, advance) := scanned.classify tracker.watermarkMs newest
    (classified, .ok advance)

/-- The passes delivered to the node in turn: the tracker they leave and what each answered. -/
def advances {R : Type} (tracker : WindowTracker) :
    List (Dataset R) → WindowTracker × List (SaciResult WatermarkAdvance)
  | [] => (tracker, [])
  | dataset :: passes =>
    let (next, answer) := tracker.advanceFrom dataset
    let (last, answers) := next.advances passes
    (last, answer :: answers)

end WindowTracker

/-! ## What a pass does -/

namespace WindowTracker
variable {R : Type} {config : WindowConfig}

/-- The timestamps of a component: none unless it carries a time column that can be read, and nulls
left out. -/
def timesOf (config : WindowConfig) (entry : Registered) : List Int :=
  if carries config entry then
    match timeColumn config entry with
    | .ok timeMs => timeMs.reduceOption
    | .error _ => []
  else []

/-- The timestamps of an arrival. -/
def timestamps (config : WindowConfig) (dataset : Dataset R) : List Int :=
  dataset.components.flatMap (timesOf config)

/-- One component of the node's dataset at most carries the time field. -/
def OneTimeColumn (config : WindowConfig) (dataset : Dataset R) : Prop :=
  (dataset.components.filter (carries config)).length ≤ 1

instance (config : WindowConfig) (dataset : Dataset R) :
    Decidable (OneTimeColumn config dataset) := inferInstanceAs (Decidable (_ ≤ _))

/-- The watermark state that the tracker's watermark and lateness make up. -/
def state (tracker : WindowTracker) : WatermarkState :=
  ⟨tracker.watermarkMs, tracker.config.allowedLatenessMs⟩

/-- The greatest of a list of timestamps and a start. -/
def newestOf (newest : Option Int) (times : List Int) : Option Int := times.foldl newer newest

theorem newer_of_lt {newest : Option Int} {value : Int} (h : ∀ seen ∈ newest, seen < value) :
    newer newest value = some value := by
  cases newest with
  | none => rfl
  | some seen => exact if_pos (decide_eq_true (h seen rfl))

theorem newer_of_le {seen value : Int} (h : value ≤ seen) :
    newer (some seen) value = some seen :=
  if_neg fun hlt => absurd (of_decide_eq_true hlt) (not_lt.mpr h)

/-- The tracker with its watermark moved as the state's is. -/
def advanced (tracker : WindowTracker) (times : List Int) : WindowTracker :=
  { tracker with watermarkMs := (tracker.state.advanceAll times).currentWatermark }

theorem state_advanced (tracker : WindowTracker) (times : List Int) :
    (tracker.advanced times).state = tracker.state.advanceAll times := by
  have hlate := tracker.state.allowedLateness_advanceAll times
  exact congrArg (WatermarkState.mk _) hlate.symm

theorem observe_fst (tracker : WindowTracker) (newest : Option Int) (value : Int) :
    (tracker.observe newest value).1 = tracker.advanced [value] := by
  change (if tracker.watermarkMs < value then { tracker with watermarkMs := value } else tracker) =
    { tracker with watermarkMs := (tracker.state.advance value).currentWatermark }
  rw [WatermarkState.advance]
  by_cases h : tracker.watermarkMs < value
  · rw [if_pos h, if_pos (show tracker.state.currentWatermark < value from h)]
  · rw [if_neg h, if_neg (show ¬ tracker.state.currentWatermark < value from h)]
    rfl

/-- The loop over one column advances the watermark as the state does; the rest of the tracker it
leaves as it was. -/
theorem observeAll_eq (tracker : WindowTracker) (newest : Option Int) (times : List Int) :
    tracker.observeAll newest times = (tracker.advanced times, newestOf newest times) := by
  induction times generalizing tracker newest with
  | nil => rfl
  | cons value times ih =>
    have hfirst : (tracker.observe newest value).1.advanced times =
        tracker.advanced (value :: times) := by
      rw [observe_fst]
      change WindowTracker.mk .. = WindowTracker.mk ..
      rw [state_advanced]
      rfl
    exact (ih _ _).trans (congrArg₂ Prod.mk hfirst rfl)

/-- The greatest timestamp is one of them, and none exceeds it. -/
theorem newestOf_spec {newest : Option Int} {times : List Int} {value : Int}
    (h : newestOf newest times = some value) :
    (newest = some value ∨ value ∈ times) ∧ (∀ seen ∈ newest, seen ≤ value) ∧
      ∀ ts ∈ times, ts ≤ value := by
  induction times generalizing newest with
  | nil =>
    obtain rfl : newest = some value := h
    exact ⟨.inl rfl, fun seen hseen => (Option.some.inj hseen).ge, fun ts hts => by cases hts⟩
  | cons head times ih =>
    obtain ⟨hfrom, hseen, hle⟩ := ih h
    have hboth : (newest = some value ∨ value ∈ head :: times) ∧ (∀ seen ∈ newest, seen ≤ value) ∧
        head ≤ value := by
      by_cases hlt : ∀ seen ∈ newest, seen < head
      · rw [newer_of_lt hlt] at hfrom hseen
        have hhead : head ≤ value := hseen head rfl
        refine ⟨.inr ?_, fun seen hs => (hlt seen hs).le.trans hhead, hhead⟩
        rcases hfrom with hfrom | hfrom
        · exact List.mem_cons.mpr (.inl (Option.some.inj hfrom).symm)
        · exact List.mem_cons_of_mem _ hfrom
      · cases newest with
        | none => exact absurd (fun _ hs => by cases hs) hlt
        | some seen =>
          have hle' : head ≤ seen := not_lt.mp fun h => hlt fun _ hs => Option.some.inj hs ▸ h
          rw [newer_of_le hle'] at hfrom hseen
          exact ⟨hfrom.imp_right (List.mem_cons_of_mem _), hseen, hle'.trans (hseen seen rfl)⟩
    exact ⟨hboth.1, hboth.2.1, List.forall_mem_cons.mpr ⟨hboth.2.2, hle⟩⟩

theorem newestOf_some_ne_none (seen : Int) (times : List Int) :
    newestOf (some seen) times ≠ none := by
  induction times generalizing seen with
  | nil => exact Option.some_ne_none seen
  | cons value times ih =>
    by_cases hlt : seen < value
    · have hnewer : newer (some seen) value = some value :=
        newer_of_lt fun _ hs => Option.some.inj hs ▸ hlt
      exact fun h => ih value (by rw [← hnewer]; exact h)
    · exact fun h => ih seen (by rw [← newer_of_le (not_lt.mp hlt)]; exact h)

theorem newestOf_none_iff {times : List Int} : newestOf none times = none ↔ times = [] := by
  refine ⟨fun h => ?_, fun h => h ▸ rfl⟩
  cases times with
  | nil => rfl
  | cons head times => exact absurd h (newestOf_some_ne_none head times)

/-- The column a component's timestamps are read from is refused. -/
def Refused (config : WindowConfig) (entry : Registered) : Prop :=
  carries config entry = true ∧ ∃ e, timeColumn config entry = .error e

theorem scan_of_no_carrier {tracker : WindowTracker} {newest : Option Int}
    {entries : List Registered} (h : ∀ entry ∈ entries, carries tracker.config entry = false) :
    tracker.scan newest entries = (tracker, .ok newest) := by
  induction entries with
  | nil => rfl
  | cons entry entries ih =>
    obtain ⟨hentry, hrest⟩ := List.forall_mem_cons.mp h
    rw [scan, if_neg (by simp [hentry]), ih hrest]

/-- The scan of a dataset with one time column: the column is refused and nothing has happened, or
the watermark and the newest timestamp have taken in the timestamps. -/
theorem scan_spec (tracker : WindowTracker) {entries : List Registered}
    (hone : (entries.filter (carries tracker.config)).length ≤ 1) :
    ((∃ entry ∈ entries, Refused tracker.config entry) ∧
        ∃ e, tracker.scan none entries = (tracker, .error e)) ∨
      ((∀ entry ∈ entries, ¬ Refused tracker.config entry) ∧
        tracker.scan none entries =
          (tracker.advanced (entries.flatMap (timesOf tracker.config)),
            .ok (newestOf none (entries.flatMap (timesOf tracker.config))))) := by
  induction entries with
  | nil =>
    exact .inr ⟨fun _ hentry => absurd hentry List.not_mem_nil, rfl⟩
  | cons entry entries ih =>
    by_cases hcarries : carries tracker.config entry
    · -- the one carrier: none of the rest is looked at
      rw [List.filter_cons_of_pos hcarries, List.length_cons] at hone
      have hrest : ∀ other ∈ entries, carries tracker.config other = false := by
        have hnil := List.length_eq_zero_iff.mp (Nat.le_zero.mp (Nat.le_of_succ_le_succ hone))
        simpa using List.filter_eq_nil_iff.mp hnil
      rw [scan, if_pos hcarries]
      cases hcolumn : timeColumn tracker.config entry with
      | error e =>
        exact .inl ⟨⟨entry, List.mem_cons_self, hcarries, e, hcolumn⟩, e, rfl⟩
      | ok timeMs =>
        refine .inr ⟨List.forall_mem_cons.mpr ⟨?_, fun other hother hrefused => ?_⟩, ?_⟩
        · rintro ⟨-, e, he⟩
          exact nomatch hcolumn.symm.trans he
        · exact absurd hrefused.1 (by simp [hrest other hother])
        have hnone : entries.flatMap (timesOf tracker.config) = [] :=
          List.flatMap_eq_nil_iff.mpr fun other hother => if_neg (by simp [hrest other hother])
        have htimes : timesOf tracker.config entry = timeMs.reduceOption := by
          rw [timesOf, if_pos hcarries, hcolumn]
        rw [List.flatMap_cons, htimes, hnone, List.append_nil]
        change scan _ _ entries = _
        rw [observeAll_eq]
        exact scan_of_no_carrier (by exact hrest)
    · rw [List.filter_cons_of_neg hcarries] at hone
      have htimes : timesOf tracker.config entry = [] := if_neg hcarries
      rw [scan, if_neg hcarries, List.flatMap_cons, htimes, List.nil_append]
      rcases ih hone with ⟨⟨other, hother, hrefused⟩, he⟩ | ⟨hnone, hscan⟩
      · exact .inl ⟨⟨other, List.mem_cons_of_mem _ hother, hrefused⟩, he⟩
      · exact .inr ⟨List.forall_mem_cons.mpr ⟨fun h => hcarries h.1, hnone⟩, hscan⟩

/-- The threshold the tracker holds an arrival against is the watermark state's. -/
theorem threshold_any (config : WindowConfig) (watermark newest : Int) :
    ((threshold config watermark).any fun threshold => newest < threshold) =
      WatermarkState.isBeyondLateness ⟨watermark, config.allowedLatenessMs⟩ newest := by
  rw [threshold, WatermarkState.isBeyondLateness]
  by_cases hmin : watermark = I64_MIN
  · simp [hmin]
  by_cases hle : watermark ≤ config.allowedLatenessMs
  · simp [hmin, hle]
  · simp [hmin, hle]

/-! ## Runs of unusable arrivals -/

/-- The tracker's two report fields after that many unusable arrivals in a row. -/
structure Counts (tracker : WindowTracker) (trailing : Nat) : Prop where
  run : tracker.beyondLatenessRun = min trailing (UInt32.size - 1)
  reported : tracker.beyondLatenessReported = decide (BEYOND_LATENESS_RUN_TO_REPORT ≤ trailing)

theorem counts_new (config : WindowConfig) : (new config).Counts 0 := ⟨rfl, rfl⟩

theorem classify_unusable {tracker : WindowTracker} {trailing : Nat} {before newest : Int}
    (hcounts : tracker.Counts trailing)
    (h : WatermarkState.isBeyondLateness ⟨before, tracker.config.allowedLatenessMs⟩ newest = true) :
    ∃ next, tracker.classify before newest =
        (next, .beyondLateness newest (saturatingSub before newest)
          (decide (trailing + 1 = BEYOND_LATENESS_RUN_TO_REPORT))) ∧
      next.Counts (trailing + 1) ∧ next.config = tracker.config ∧
      next.watermarkMs = tracker.watermarkMs := by
  have h4 : BEYOND_LATENESS_RUN_TO_REPORT = 4 := rfl
  have hsize : UInt32.size = 4294967296 := rfl
  have hrun : min (tracker.beyondLatenessRun + 1) (UInt32.size - 1) =
      min (trailing + 1) (UInt32.size - 1) := by
    rw [hcounts.run]
    omega
  have hfirst : (!tracker.beyondLatenessReported &&
        decide (BEYOND_LATENESS_RUN_TO_REPORT ≤ min (trailing + 1) (UInt32.size - 1))) =
      decide (trailing + 1 = BEYOND_LATENESS_RUN_TO_REPORT) := by
    rw [hcounts.reported, Bool.eq_iff_iff]
    simp only [Bool.and_eq_true, Bool.not_eq_true', decide_eq_false_iff_not, decide_eq_true_eq]
    omega
  have hreported : (tracker.beyondLatenessReported ||
        decide (trailing + 1 = BEYOND_LATENESS_RUN_TO_REPORT)) =
      decide (BEYOND_LATENESS_RUN_TO_REPORT ≤ trailing + 1) := by
    rw [hcounts.reported, Bool.eq_iff_iff]
    simp only [Bool.or_eq_true, decide_eq_true_eq]
    omega
  rw [classify, if_pos ((threshold_any ..).trans h)]
  simp only [hrun, hfirst, hreported]
  exact ⟨_, rfl, ⟨rfl, rfl⟩, rfl, rfl⟩

theorem classify_usable {tracker : WindowTracker} {trailing : Nat} {before newest : Int}
    (hcounts : tracker.Counts trailing)
    (h : WatermarkState.isBeyondLateness ⟨before, tracker.config.allowedLatenessMs⟩ newest ≠ true) :
    ∃ next, tracker.classify before newest =
        (next, .usable (decide (BEYOND_LATENESS_RUN_TO_REPORT ≤ trailing))) ∧
      next.Counts 0 ∧ next.config = tracker.config ∧ next.watermarkMs = tracker.watermarkMs := by
  rw [classify, if_neg (fun hlt => h ((threshold_any ..).symm.trans hlt)), hcounts.reported]
  exact ⟨_, rfl, ⟨rfl, rfl⟩, rfl, rfl⟩

/-- Every timestamp of the arrival is beyond lateness for the state, and there is one. -/
def AllBeyond (state : WatermarkState) (times : List Int) : Prop :=
  times ≠ [] ∧ ∀ ts ∈ times, state.isBeyondLateness ts = true

/-- What a pass does: an arrival whose column is refused or that has no timestamp leaves the tracker
as it was; any other moves the watermark over its timestamps, and is unusable when all of them are
beyond lateness. -/
inductive Pass (tracker : WindowTracker) (trailing : Nat) (dataset : Dataset R) :
    WindowTracker → SaciResult WatermarkAdvance → Prop
  | refused {e : SaciError} (h : ∃ entry ∈ dataset.components, Refused tracker.config entry)
      (htimes : timestamps tracker.config dataset = []) :
      Pass tracker trailing dataset tracker (.error e)
  | empty (h : ∀ entry ∈ dataset.components, ¬ Refused tracker.config entry)
      (htimes : timestamps tracker.config dataset = []) :
      Pass tracker trailing dataset tracker (.ok .empty)
  | usable {next : WindowTracker}
      (h : ∀ entry ∈ dataset.components, ¬ Refused tracker.config entry)
      (hsome : ¬ AllBeyond tracker.state (timestamps tracker.config dataset))
      (hstate : next.state = tracker.state.advanceAll (timestamps tracker.config dataset))
      (hconfig : next.config = tracker.config) (hcounts : next.Counts 0) :
      Pass tracker trailing dataset next
        (.ok (.usable (decide (BEYOND_LATENESS_RUN_TO_REPORT ≤ trailing))))
  | unusable {next : WindowTracker} {newest behind : Int}
      (h : ∀ entry ∈ dataset.components, ¬ Refused tracker.config entry)
      (hall : AllBeyond tracker.state (timestamps tracker.config dataset))
      (hstate : next.state = tracker.state.advanceAll (timestamps tracker.config dataset))
      (hconfig : next.config = tracker.config) (hcounts : next.Counts (trailing + 1)) :
      Pass tracker trailing dataset next (.ok (.beyondLateness newest behind
        (decide (trailing + 1 = BEYOND_LATENESS_RUN_TO_REPORT))))

/-- A refused column has no timestamps, and it is the only one. -/
theorem timestamps_of_refused {entries : List Registered}
    (hone : (entries.filter (carries config)).length ≤ 1)
    (h : ∃ entry ∈ entries, Refused config entry) : entries.flatMap (timesOf config) = [] := by
  obtain ⟨entry, hentry, hcarries, e, he⟩ := h
  refine List.flatMap_eq_nil_iff.mpr fun other hother => ?_
  by_cases hother' : carries config other
  · obtain ⟨only, honly⟩ : ∃ only, entries.filter (carries config) = [only] :=
      List.length_eq_one_iff.mp <| le_antisymm hone <|
        List.length_pos_of_mem (List.mem_filter.mpr ⟨hother, hother'⟩)
    have hmem : ∀ x ∈ entries, carries config x = true → x = only := fun x hx hc =>
      List.mem_singleton.mp (honly ▸ List.mem_filter.mpr ⟨hx, hc⟩)
    rw [hmem other hother hother', ← hmem entry hentry hcarries, timesOf, if_pos hcarries, he]
  · exact if_neg hother'

theorem advanceFrom_pass {tracker : WindowTracker} {trailing : Nat} {dataset : Dataset R}
    (hone : OneTimeColumn tracker.config dataset) (hcounts : tracker.Counts trailing) :
    Pass tracker trailing dataset (tracker.advanceFrom dataset).1
      (tracker.advanceFrom dataset).2 := by
  rw [advanceFrom]
  rcases tracker.scan_spec hone with ⟨hrefused, e, hscan⟩ | ⟨hread, hscan⟩
  · rw [hscan]
    exact .refused hrefused (timestamps_of_refused hone hrefused)
  rw [hscan]
  cases hnewest : newestOf none (dataset.components.flatMap (timesOf tracker.config)) with
  | none =>
    have htimes : timestamps tracker.config dataset = [] := newestOf_none_iff.mp hnewest
    have hsame : tracker.advanced (timestamps tracker.config dataset) = tracker := by
      rw [htimes]
      rfl
    change Pass _ _ _ (tracker.advanced (timestamps tracker.config dataset)) _
    rw [hsame]
    exact .empty hread htimes
  | some newest =>
    obtain ⟨hfrom, -, hle⟩ := newestOf_spec hnewest
    have hmem : newest ∈ timestamps tracker.config dataset :=
      hfrom.resolve_left (Option.some_ne_none newest).symm
    have hscanned : (tracker.advanced (timestamps tracker.config dataset)).Counts trailing :=
      ⟨hcounts.run, hcounts.reported⟩
    have hstate := tracker.state_advanced (timestamps tracker.config dataset)
    have hmoved : ∀ {next : WindowTracker}, next.config = tracker.config → next.watermarkMs =
        (tracker.advanced (timestamps tracker.config dataset)).watermarkMs →
        next.state = tracker.state.advanceAll (timestamps tracker.config dataset) := by
      intro next hconfig hwatermark
      rw [← hstate, state, hconfig, hwatermark]
      rfl
    by_cases hbeyond : tracker.state.isBeyondLateness newest = true
    · obtain ⟨next, hnext, hcounts', hconfig, hwatermark⟩ := classify_unusable hscanned hbeyond
      change Pass _ _ _ ((advanced _ (timestamps tracker.config dataset)).classify _ _).1
        (.ok ((advanced _ (timestamps tracker.config dataset)).classify _ _).2)
      rw [hnext]
      refine .unusable hread ⟨List.ne_nil_of_mem hmem, fun ts hts => ?_⟩
        (hmoved hconfig hwatermark) hconfig hcounts'
      exact WatermarkState.isBeyondLateness_mono (hle ts hts) hbeyond
    · obtain ⟨next, hnext, hcounts', hconfig, hwatermark⟩ := classify_usable hscanned hbeyond
      change Pass _ _ _ ((advanced _ (timestamps tracker.config dataset)).classify _ _).1
        (.ok ((advanced _ (timestamps tracker.config dataset)).classify _ _).2)
      rw [hnext]
      exact .usable hread (fun hall => hbeyond (hall.2 newest hmem)) (hmoved hconfig hwatermark)
        hconfig hcounts'

/-! ## Sequences of passes -/

end WindowTracker

namespace WatermarkAdvance

/-- Every row of the arrival was older than the lateness budget. -/
def isUnusable : WatermarkAdvance → Bool
  | beyondLateness .. => true
  | _ => false

/-- The arrival opened the report. -/
def isFirst : WatermarkAdvance → Bool
  | beyondLateness _ _ first => first
  | _ => false

/-- What a sequence of passes told: the answers that classify something. -/
def told (answers : List (SaciResult WatermarkAdvance)) : List WatermarkAdvance :=
  answers.filterMap fun
    | .ok .empty => none
    | .ok advance => some advance
    | .error _ => none

theorem told_append (front back : List (SaciResult WatermarkAdvance)) :
    told (front ++ back) = told front ++ told back :=
  List.filterMap_append

/-- The number of unusable arrivals in a row, after that many before. -/
def trailing (before : Nat) (advances : List WatermarkAdvance) : Nat :=
  advances.foldl (fun trailing advance => if advance.isUnusable then trailing + 1 else 0) before

/-- Each answer is what the number of unusable arrivals before it calls for. -/
def Reports : Nat → List WatermarkAdvance → Prop
  | _, [] => True
  | before, .beyondLateness _ _ first :: rest =>
    first = decide (before + 1 = BEYOND_LATENESS_RUN_TO_REPORT) ∧ Reports (before + 1) rest
  | before, .usable recovered :: rest =>
    recovered = decide (BEYOND_LATENESS_RUN_TO_REPORT ≤ before) ∧ Reports 0 rest
  | _, .empty :: rest => Reports 0 rest

theorem reports_append {before : Nat} {front back : List WatermarkAdvance} :
    Reports before (front ++ back) ↔
      Reports before front ∧ Reports (trailing before front) back := by
  induction front generalizing before with
  | nil => exact (and_iff_right trivial).symm
  | cons advance front ih =>
    cases advance with
    | empty => exact ih
    | usable recovered => exact (and_congr_right' ih).trans and_assoc.symm
    | beyondLateness newest behind first => exact (and_congr_right' ih).trans and_assoc.symm

theorem trailing_append (before : Nat) (front back : List WatermarkAdvance) :
    trailing before (front ++ back) = trailing (trailing before front) back :=
  List.foldl_append

/-- Behind an arrival that is not unusable, or before any arrival, no run is open. -/
theorem trailing_of_last {front : List WatermarkAdvance}
    (h : ∀ last ∈ front.getLast?, last.isUnusable = false) : trailing 0 front = 0 := by
  rcases List.eq_nil_or_concat front with rfl | ⟨init, last, rfl⟩
  · rfl
  · rw [List.concat_eq_append] at h ⊢
    rw [trailing_append]
    exact if_neg (by simp [h last (by simp)])

theorem trailing_of_unusable {before : Nat} {run : List WatermarkAdvance}
    (h : ∀ advance ∈ run, advance.isUnusable = true) :
    trailing before run = before + run.length := by
  induction run generalizing before with
  | nil => rfl
  | cons advance run ih =>
    obtain ⟨hadvance, hrun⟩ := List.forall_mem_cons.mp h
    rw [trailing, List.foldl_cons, if_pos hadvance, List.length_cons]
    exact (ih hrun).trans (by omega)

/-- Of the arrivals of a run one reports `first`, unless the run is too short or was already
reported. -/
theorem countP_isFirst {before : Nat} {run : List WatermarkAdvance}
    (h : ∀ advance ∈ run, advance.isUnusable = true) (hreports : Reports before run) :
    run.countP isFirst = if before < BEYOND_LATENESS_RUN_TO_REPORT ∧
      BEYOND_LATENESS_RUN_TO_REPORT ≤ before + run.length then 1 else 0 := by
  have h4 : BEYOND_LATENESS_RUN_TO_REPORT = 4 := rfl
  induction run generalizing before with
  | nil => exact (if_neg (by rw [List.length_nil]; omega)).symm
  | cons advance run ih =>
    obtain ⟨hadvance, hrun⟩ := List.forall_mem_cons.mp h
    cases advance with
    | empty => cases hadvance
    | usable recovered => cases hadvance
    | beyondLateness newest behind first =>
      obtain ⟨rfl, hrest⟩ := hreports
      rw [List.countP_cons, ih hrun hrest, List.length_cons]
      simp only [isFirst, decide_eq_true_eq]
      split_ifs <;> omega

end WatermarkAdvance

namespace WindowTracker
variable {R : Type} {config : WindowConfig}

open WatermarkAdvance

/-- What one pass tells after a number of unusable arrivals, and how many there are then. -/
theorem Pass.told {tracker next : WindowTracker} {before : Nat} {dataset : Dataset R}
    {answer : SaciResult WatermarkAdvance} (h : Pass tracker before dataset next answer)
    (hcounts : tracker.Counts before) :
    next.config = tracker.config ∧
      next.state = tracker.state.advanceAll (timestamps tracker.config dataset) ∧
      Reports before (told [answer]) ∧ next.Counts (trailing before (told [answer])) := by
  cases h with
  | refused _ htimes => exact ⟨rfl, by rw [htimes]; rfl, trivial, hcounts⟩
  | empty _ htimes => exact ⟨rfl, by rw [htimes]; rfl, trivial, hcounts⟩
  | usable _ _ hstate hconfig hcounts' => exact ⟨hconfig, hstate, ⟨rfl, trivial⟩, hcounts'⟩
  | unusable _ _ hstate hconfig hcounts' => exact ⟨hconfig, hstate, ⟨rfl, trivial⟩, hcounts'⟩

theorem Pass.isUnusable_iff {tracker next : WindowTracker} {before : Nat} {dataset : Dataset R}
    {answer : SaciResult WatermarkAdvance} (h : Pass tracker before dataset next answer) :
    (∃ newest behind first, answer = .ok (.beyondLateness newest behind first)) ↔
      AllBeyond tracker.state (timestamps tracker.config dataset) := by
  cases h with
  | refused _ htimes => simp [AllBeyond, htimes]
  | empty _ htimes => simp [AllBeyond, htimes]
  | usable _ hsome _ _ _ => simp [hsome]
  | unusable _ hall _ _ _ => simp [hall]

theorem Pass.of_refused {tracker next : WindowTracker} {before : Nat} {dataset : Dataset R}
    {answer : SaciResult WatermarkAdvance} (h : Pass tracker before dataset next answer)
    (hrefused : ∃ entry ∈ dataset.components, Refused tracker.config entry) :
    next = tracker ∧ ∃ e, answer = .error e := by
  obtain ⟨entry, hentry, hrefused⟩ := hrefused
  cases h with
  | refused _ _ => exact ⟨rfl, _, rfl⟩
  | empty h _ => exact absurd hrefused (h entry hentry)
  | usable h _ _ _ _ => exact absurd hrefused (h entry hentry)
  | unusable h _ _ _ _ => exact absurd hrefused (h entry hentry)

/-- The run lemma: the watermark is the state's over all timestamps, and the reports fit the number
of unusable arrivals. -/
theorem advances_spec {tracker : WindowTracker} {before : Nat} {passes : List (Dataset R)}
    (hone : ∀ dataset ∈ passes, OneTimeColumn tracker.config dataset)
    (hcounts : tracker.Counts before) :
    (tracker.advances passes).1.config = tracker.config ∧
      (tracker.advances passes).1.state =
        tracker.state.advanceAll (passes.flatMap (timestamps tracker.config)) ∧
      Reports before (told (tracker.advances passes).2) ∧
      (tracker.advances passes).1.Counts (trailing before (told (tracker.advances passes).2)) := by
  induction passes generalizing tracker before with
  | nil => exact ⟨rfl, rfl, trivial, hcounts⟩
  | cons dataset passes ih =>
    obtain ⟨hdataset, hpasses⟩ := List.forall_mem_cons.mp hone
    obtain ⟨hconfig, hstate, hreports, hcounts'⟩ := (advanceFrom_pass hdataset hcounts).told hcounts
    obtain ⟨hconfig', hstate', hreports', hcounts''⟩ := ih (hconfig ▸ hpasses) hcounts'
    have htold : WatermarkAdvance.told (tracker.advances (dataset :: passes)).2 =
        WatermarkAdvance.told [(tracker.advanceFrom dataset).2] ++
          WatermarkAdvance.told ((tracker.advanceFrom dataset).1.advances passes).2 :=
      told_append [_] _
    rw [htold, reports_append, trailing_append]
    refine ⟨hconfig'.trans hconfig, hstate'.trans ?_, ⟨hreports, hreports'⟩, hcounts''⟩
    rw [hstate, hconfig, List.flatMap_cons, WatermarkState.advanceAll_append]

/-- The tracker of a node after its first passes. -/
def after (config : WindowConfig) (passes : List (Dataset R)) : WindowTracker :=
  ((new config).advances passes).1

/-- The watermark state of a native pipeline that was advanced with the same timestamps. -/
def guestAfter (config : WindowConfig) (passes : List (Dataset R)) : WatermarkState :=
  (WatermarkState.new config.allowedLatenessMs).advanceAll (passes.flatMap (timestamps config))

/-- The host's tracker agrees with a guest's watermark state over a sequence of passes. -/
structure AgreesWithGuest (config : WindowConfig) (passes : List (Dataset R)) : Prop where
  watermark : (after config passes).watermarkMs = (guestAfter config passes).currentWatermark
  classified : ∀ before arrival rest, passes = before ++ arrival :: rest →
    ((∃ newest behind first, ((after config before).advanceFrom arrival).2 =
        .ok (.beyondLateness newest behind first)) ↔
      timestamps config arrival ≠ [] ∧
        ∀ ts ∈ timestamps config arrival, (guestAfter config before).isBeyondLateness ts = true)
  refused : ∀ before arrival rest, passes = before ++ arrival :: rest →
    (∃ entry ∈ arrival.components, Refused config entry) →
      ∃ e, (after config before).advanceFrom arrival = (after config before, .error e)
  /-- A run that no unusable arrival precedes reports `first` once if it has four. -/
  first : ∀ before run rest, told ((new config).advances passes).2 = before ++ run ++ rest →
    (∀ last ∈ before.getLast?, last.isUnusable = false) →
    (∀ advance ∈ run, advance.isUnusable = true) →
      run.countP isFirst = if BEYOND_LATENESS_RUN_TO_REPORT ≤ run.length then 1 else 0
  /-- The usable arrival that ends a run reports `recovered` if the run has four. -/
  recovered : ∀ before run recovered rest,
    told ((new config).advances passes).2 = before ++ run ++ .usable recovered :: rest →
    (∀ last ∈ before.getLast?, last.isUnusable = false) →
    (∀ advance ∈ run, advance.isUnusable = true) →
      recovered = decide (BEYOND_LATENESS_RUN_TO_REPORT ≤ run.length)

/-- **Host and guest watermark agree**, over every sequence of passes whose datasets have one time
column. -/
theorem tracker_agrees (config : WindowConfig) (passes : List (Dataset R))
    (hone : ∀ dataset ∈ passes, OneTimeColumn config dataset) :
    AgreesWithGuest config passes := by
  -- the tracker after some of the passes, and what the next pass does to it
  have hafter : ∀ before arrival rest, passes = before ++ arrival :: rest →
      ∃ count, (after config before).config = config ∧
        (after config before).state = guestAfter config before ∧
        Pass (after config before) count arrival ((after config before).advanceFrom arrival).1
          ((after config before).advanceFrom arrival).2 := by
    rintro before arrival rest rfl
    have hbefore : ∀ dataset ∈ before, OneTimeColumn (new config).config dataset :=
      fun dataset hd => hone dataset (List.mem_append_left _ hd)
    obtain ⟨hconfig, hstate, -, hcounts⟩ := advances_spec hbefore (counts_new config)
    have harrival := hone arrival (List.mem_append_right _ List.mem_cons_self)
    have hone' : OneTimeColumn (after config before).config arrival := by
      rw [after, hconfig]
      exact harrival
    exact ⟨_, hconfig, hstate, advanceFrom_pass hone' hcounts⟩
  have hnew : ∀ dataset ∈ passes, OneTimeColumn (new config).config dataset := hone
  obtain ⟨-, hstate, hreports, -⟩ := advances_spec hnew (counts_new config)
  refine ⟨congrArg WatermarkState.currentWatermark hstate, ?_, ?_, ?_, ?_⟩
  · intro before arrival rest hpasses
    obtain ⟨count, hconfig, hguest, hpass⟩ := hafter before arrival rest hpasses
    have hiff := hpass.isUnusable_iff
    rw [hconfig, hguest] at hiff
    exact hiff
  · intro before arrival rest hpasses hrefused
    obtain ⟨count, hconfig, -, hpass⟩ := hafter before arrival rest hpasses
    obtain ⟨hnext, e, he⟩ := hpass.of_refused (by rw [hconfig]; exact hrefused)
    exact ⟨e, Prod.ext hnext he⟩
  · intro before run rest htold hbefore hrun
    rw [htold, List.append_assoc, reports_append, reports_append, trailing_of_last hbefore]
      at hreports
    rw [countP_isFirst hrun hreports.2.1, Nat.zero_add]
    exact if_congr (and_iff_right (by decide)) rfl rfl
  · intro before run recovered rest htold hbefore hrun
    rw [htold, List.append_assoc, reports_append, reports_append, trailing_of_last hbefore,
      trailing_of_unusable hrun, Nat.zero_add] at hreports
    exact hreports.2.2.1

end WindowTracker

namespace WindowSample

def config : WindowConfig := ⟨"ts", 500⟩

def schema : Schema := ⟨[⟨"id", .utf8, false⟩, ⟨"ts", .timestamp .second none, true⟩]⟩

/-- A pass that delivered events with these times, in seconds. -/
def pass (times : List Cell) : Dataset Unit :=
  { Dataset.new () with
    components :=
      [⟨"event", 1, schema, [⟨schema, times.map fun time => [.text "e", time]⟩], none⟩,
        ⟨"tally", 1, ⟨[⟨"n", .int64, false⟩]⟩, [], none⟩] }

/-- A stream whose event time moved back, with an empty pass and a null, and its recovery. -/
def passes : List (Dataset Unit) :=
  [pass [.int 9, .int 10], pass [.int 1, .null], pass [.int 2], pass [.null], pass [.int 3, .int 1],
    pass [.int 4], pass [.int 5], pass [.int 10], pass [.int 11]]

theorem rewound_agrees : WindowTracker.AgreesWithGuest config passes ∧
    WatermarkAdvance.told ((WindowTracker.new config).advances passes).2 =
      [.usable false, .beyondLateness 1000 9000 false, .beyondLateness 2000 8000 false,
        .beyondLateness 3000 7000 false, .beyondLateness 4000 6000 true,
        .beyondLateness 5000 5000 false, .usable true, .usable false] :=
  ⟨WindowTracker.tracker_agrees config passes (by decide +kernel), by decide +kernel⟩

end WindowSample
end Saci
