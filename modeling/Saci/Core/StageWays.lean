import Saci.Core.StageModes

/-!
# The ways of executing a stage

A stage of parallel systems is run by one system after the other or dispatched as a whole, and in
both a system may be run over all rows or in slices. A stage that can be written at all leaves the
same columns in every way exactly when no component that lags behind the rows gets its columns
from two systems, and slices that write a column cover the rows (`waysAgree_iff`).
-/

namespace Saci

variable {T V : Type}

/-- A parallel system that is run over all rows only. -/
def ParallelSystem.whole (sys : ParallelSystem T V) : ParallelSystem T V :=
  { sys with runSlice := fun _ _ => none }

def SystemEntry.whole : SystemEntry T V → SystemEntry T V
  | .sequential sys => .sequential sys
  | .parallel sys => .parallel sys.whole

/-- The columns that a run leaves, if it succeeds. -/
def leftColumns {α : Type} :
    Dataset (ResourceMap T V) × SaciResult α → Option (String → Nat → Option (List Cell))
  | (left, .ok _) => some left.columnAt
  | (_, .error _) => none

/-- All ways of executing a stage come to what the loop over systems run as a whole comes to. -/
structure WaysAgree [DecidableEq T] (M : Machine) (systems : List (SystemEntry T V))
    (configs : List SystemConfig) (stage : List Nat) (data : Dataset (ResourceMap T V)) :
    Prop where
  dispatched :
    leftColumns (runParallelStage M (systems.map SystemEntry.whole) configs stage data) =
      leftColumns (runLoop M (systems.map SystemEntry.whole) configs stage data)
  loopSliced :
    leftColumns (runLoop M systems configs stage data) =
      leftColumns (runLoop M (systems.map SystemEntry.whole) configs stage data)
  dispatchedSliced :
    leftColumns (runParallelStage M systems configs stage data) =
      leftColumns (runLoop M (systems.map SystemEntry.whole) configs stage data)
  chosen :
    leftColumns (runStage M systems configs stage data) =
      leftColumns (runLoop M (systems.map SystemEntry.whole) configs stage data)

/-! ## When they agree -/

/-- The columns that a system answers. -/
def ParallelSystem.Column (data : Dataset (ResourceMap T V)) (sys : ParallelSystem T V)
    (key : FieldAccess) (array : ArrayRef) : Prop :=
  ∃ ws, sys.run data = .ok ws ∧ ws.Writes key array

/-- The system at an index answers a column. -/
def AnswersColumn (systems : List (SystemEntry T V)) (data : Dataset (ResourceMap T V)) (i : Nat)
    (key : FieldAccess) (array : ArrayRef) : Prop :=
  ∃ sys, systems[i]? = some (.parallel sys) ∧ sys.Column data key array

/-- Every system of a stage answers, and their columns can be written together. -/
structure StageFits (systems : List (SystemEntry T V)) (stage : List Nat)
    (data : Dataset (ResourceMap T V)) : Prop where
  answers : ∀ i ∈ stage, ∃ sys ws, systems[i]? = some (.parallel sys) ∧ sys.run data = .ok ws
  fits : data.Fits fun key array => ∃ i ∈ stage, AnswersColumn systems data i key array

/-- A component with another number of rows than the dataset gets its columns from one system. -/
def Undivided (systems : List (SystemEntry T V)) (stage : List Nat)
    (data : Dataset (ResourceMap T V)) : Prop :=
  ∀ i ∈ stage, ∀ j ∈ stage, ∀ key key' array array' entry,
    AnswersColumn systems data i key array → AnswersColumn systems data j key' array' →
    key.component = key'.component → data.find key.component = some entry →
    entry.numRows ≠ data.rowCount → i = j

/-- The slices of a system that answers a column cover the rows. -/
def SlicesCover (M : Machine) (systems : List (SystemEntry T V)) (stage : List Nat)
    (data : Dataset (ResourceMap T V)) : Prop :=
  ∀ i ∈ stage, ∀ sys key array, systems[i]? = some (.parallel sys) → useSlices sys data = true →
    AnswersColumn systems data i key array → CoversRows M data.rows

/-! ## What a way leaves -/

section
variable {M : Machine} {data d : Dataset (ResourceMap T V)} {sys : ParallelSystem T V}
  {α β : Type} {ok ok' : Prop} {news : FieldAccess → ArrayRef → Prop}

/-- A run succeeds when `ok` holds, and then writes `news`. -/
def Leaves (data : Dataset (ResourceMap T V)) (news : FieldAccess → ArrayRef → Prop) (ok : Prop)
    (r : Dataset (ResourceMap T V) × SaciResult α) : Prop :=
  (ok → ∃ left value, r = (left, .ok value)) ∧
    ∀ left value, r = (left, .ok value) → ok ∧ data.Written news left

/-- Runs that write the same leave the same when they succeed alike. -/
theorem Leaves.eq_iff {r : Dataset (ResourceMap T V) × SaciResult α}
    {r' : Dataset (ResourceMap T V) × SaciResult β} (h : Leaves data news ok r)
    (h' : Leaves data news ok' r') : leftColumns r = leftColumns r' ↔ (ok ↔ ok') := by
  rcases r with ⟨left, e | value⟩ <;> rcases r' with ⟨left', e' | value'⟩
  · have hnot : ¬ ok := fun hok => by obtain ⟨_, _, h⟩ := h.1 hok; cases h
    have hnot' : ¬ ok' := fun hok => by obtain ⟨_, _, h⟩ := h'.1 hok; cases h
    simp [leftColumns, hnot, hnot']
  · have hnot : ¬ ok := fun hok => by obtain ⟨_, _, h⟩ := h.1 hok; cases h
    simp [leftColumns, hnot, (h'.2 left' value' rfl).1]
  · have hnot' : ¬ ok' := fun hok => by obtain ⟨_, _, h⟩ := h'.1 hok; cases h
    simp [leftColumns, hnot', (h.2 left value rfl).1]
  · obtain ⟨hok, hwritten⟩ := h.2 left value rfl
    obtain ⟨hok', hwritten'⟩ := h'.2 left' value' rfl
    refine ⟨fun _ => iff_of_true hok hok', fun _ => ?_⟩
    exact congrArg some (funext fun name => funext fun idx => hwritten.columnAt_eq hwritten' name idx)

/-- What an honest system does in an attempt. -/
theorem ParallelSystem.Honest.answers_or_fails (hsys : sys.Honest data) (M : Machine) :
    (∃ ws answer, sys.run data = .ok ws ∧ sys.Answers M data answer ∧
        ∀ key array, answer.Writes key array ↔
          ∃ whole, ws.Writes key whole ∧ array = attemptArray M sys data whole) ∨
      (∃ e, sys.run data = .error e) ∧ sys.Fails M data := by
  rcases hrun : sys.run data with e | ws
  · refine .inr ⟨⟨e, rfl⟩, fun missing d hd => ?_⟩
    rw [hsys.attempt_eq hd]
    exact hsys.attempt_eq_error hrun
  · obtain ⟨answer, hanswer, hupdates, hwrites⟩ := hsys.attempt_eq_ok M hrun
    refine .inl ⟨ws, answer, rfl, ⟨fun missing d hd => ?_, fun key array hkey => ?_,
      fun update hupdate => ?_⟩, hwrites⟩
    · rw [hsys.attempt_eq hd]
      exact hanswer missing
    · obtain ⟨whole, hwhole, -⟩ := (hwrites key array).mp hkey
      exact hsys.fields ws key whole hrun hwhole
    · exact hsys.resources ws update hrun (hupdates update hupdate)

theorem ParallelSystem.Honest.whole (hsys : sys.Honest data) : sys.whole.Honest data :=
  { hsys with slices := .inl fun _ => rfl, runSlice_eq := fun _ _ _ => rfl }

theorem useSlices_whole : useSlices sys.whole data = false := by
  simp [useSlices, ParallelSystem.whole]

theorem Leaves.isSome_iff {r : Dataset (ResourceMap T V) × SaciResult α}
    (h : Leaves data news ok r) : (leftColumns r).isSome = true ↔ ok := by
  rcases r with ⟨left, e | value⟩
  · refine ⟨fun hsome => (nomatch hsome), fun hok => ?_⟩
    obtain ⟨_, _, h⟩ := h.1 hok
    cases h
  · exact ⟨fun _ => (h.2 left value rfl).1, fun _ => rfl⟩

theorem Leaves.eq_none {r : Dataset (ResourceMap T V) × SaciResult α}
    (h : Leaves data news ok r) (hnot : ¬ ok) : leftColumns r = none := by
  rw [← Option.not_isSome_iff_eq_none, h.isSome_iff]
  exact hnot

/-! ## Slices and the rows -/

theorem mergedArray_of_covers {rows : Nat} {array : ArrayRef} (hlen : array.cells.length = rows)
    (h : CoversRows M rows) : mergedArray (computeRowRanges M (asU32 rows)) array = array := by
  rw [mergedArray, flatMap_segment_of_covers hlen h]

theorem coversRows_of_length {rows : Nat} {array : ArrayRef} (hlen : array.cells.length = rows)
    (h : (mergedArray (computeRowRanges M (asU32 rows)) array).cells.length = rows) :
    CoversRows M rows := by
  have hle : asU32 rows ≤ array.cells.length := hlen ▸ Nat.mod_le _ _
  rw [mergedArray, flatMap_computeRowRanges, length_flatMap_segment hle] at h
  exact coversRows_of_rowsOfFirst h

/-- What a system answers over all rows, and what it answers as it is run. -/
structure TwoAnswers (M : Machine) (data : Dataset (ResourceMap T V)) (sys : ParallelSystem T V)
    (whole sliced : WriteSet T V) : Prop where
  writesWhole : ∀ key array, whole.Writes key array ↔ sys.Column data key array
  writesSliced : ∀ key array, sliced.Writes key array ↔
    ∃ array', sys.Column data key array' ∧ array = attemptArray M sys data array'
  cases : ((∃ ws, sys.run data = .ok ws) ∧ sys.whole.Answers M data whole ∧
      sys.Answers M data sliced) ∨
    (¬ ∃ ws, sys.run data = .ok ws) ∧ sys.whole.Fails M data ∧ sys.Fails M data

theorem ParallelSystem.Honest.twoAnswers (h : sys.Honest data) (M : Machine) :
    ∃ whole sliced, TwoAnswers M data sys whole sliced := by
  have hrun' : sys.whole.run data = sys.run data := rfl
  rcases h.answers_or_fails M with ⟨ws, sliced, hrun, hsliced, hwrites⟩ | ⟨⟨e, hrun⟩, hfails⟩
  · rcases h.whole.answers_or_fails M with ⟨ws', whole, hws', hwhole, hwrites'⟩ | ⟨⟨e, he⟩, -⟩
    · cases hrun.symm.trans (hrun'.symm.trans hws')
      refine ⟨whole, sliced, fun key array => ?_, fun key array => ?_,
        .inl ⟨⟨ws, hrun⟩, hwhole, hsliced⟩⟩
      · simp [hwrites', Column, hrun, attemptArray, useSlices_whole]
      · simp [hwrites, Column, hrun]
    · cases hrun.symm.trans (hrun'.symm.trans he)
  · rcases h.whole.answers_or_fails M with ⟨ws', whole, hws', -⟩ | ⟨-, hfails'⟩
    · cases hrun.symm.trans (hrun'.symm.trans hws')
    · refine ⟨.new, .new, fun key array => ?_, fun key array => ?_,
        .inr ⟨by simp [hrun], hfails', hfails⟩⟩
      · simp [Column, hrun, WriteSet.writes_iff, WriteSet.new]
      · simp [Column, hrun, WriteSet.writes_iff, WriteSet.new]

/-- What an attempt makes of a column fits only if slices cover the rows. -/
theorem ParallelSystem.Honest.length_attemptArray (h : sys.Honest data)
    {key : FieldAccess} {array : ArrayRef} (hkey : sys.Column data key array) :
    (useSlices sys data = true → CoversRows M data.rows) ↔
      (attemptArray M sys data array).cells.length = data.rowCount := by
  obtain ⟨ws, hrun, hwrites⟩ := hkey
  have hlen : array.cells.length = data.rows := h.length ws key array hrun hwrites
  rw [attemptArray]
  split_ifs with huse
  · refine ⟨fun hcovers => ?_, fun hlength _ => coversRows_of_length hlen hlength⟩
    rw [mergedArray_of_covers hlen (hcovers huse)]
    exact hlen
  · exact iff_of_true (fun huse' => absurd huse' huse) hlen

/-- Slices that cover the rows change nothing. -/
theorem attemptArray_of_covers {array : ArrayRef} (hlen : array.cells.length = data.rows)
    (h : useSlices sys data = true → CoversRows M data.rows) :
    attemptArray M sys data array = array := by
  rw [attemptArray]
  split_ifs with huse
  · exact mergedArray_of_covers hlen (h huse)
  · rfl

/-! ## Writing together and in turn -/

/-- Columns fit in turn when they fit together and no component that lags is divided. -/
theorem Dataset.fits_each_iff {stage : List Nat} {N : Nat → FieldAccess → ArrayRef → Prop}
    (hdisjoint : ∀ i ∈ stage, ∀ j ∈ stage, i ≠ j → ∀ key a b, N i key a → ¬ N j key b) :
    (∀ i ∈ stage, data.Fits (N i)) ↔
      data.Fits (fun key array => ∃ i ∈ stage, N i key array) ∧
        ∀ i ∈ stage, ∀ j ∈ stage, ∀ key key' array array' entry, N i key array →
          N j key' array' → key.component = key'.component →
          data.find key.component = some entry → entry.numRows ≠ data.rowCount → i = j := by
  constructor
  · refine fun hfits => ⟨fun key array ⟨i, hi, hkey⟩ => ?_, ?_⟩
    · obtain ⟨hlen, entry, hfind, htakes⟩ := hfits i hi key array hkey
      refine ⟨hlen, entry, hfind, fun name array' ⟨j, hj, hkey'⟩ => ?_, ?_⟩
      · obtain ⟨-, entry', hfind', htakes'⟩ := hfits j hj _ array' hkey'
        cases hfind.symm.trans hfind'
        exact htakes'.suits name array' hkey'
      · refine htakes.rows.imp_right fun hall idx hidx => ?_
        obtain ⟨name, array', hkey', hindex⟩ := hall idx hidx
        exact ⟨name, array', ⟨i, hi, hkey'⟩, hindex⟩
    · intro i hi j hj key key' array array' entry hkey hkey' hcomponent hfind hlag
      obtain ⟨-, entry₁, hfind₁, htakes⟩ := hfits i hi key array hkey
      cases hfind.symm.trans hfind₁
      obtain ⟨-, entry₂, hfind₂, htakes'⟩ := hfits j hj key' array' hkey'
      rw [← hcomponent] at hfind₂ htakes'
      cases hfind.symm.trans hfind₂
      -- both write all fields of the component
      obtain ⟨idx, field, hindex, hfield, -⟩ := htakes.suits key.field array hkey
      obtain ⟨name, other, hother, hindex'⟩ := htakes'.rows.resolve_left hlag idx
        (List.getElem?_eq_some_iff.mp hfield).1
      cases Schema.indexOf_inj hindex' hindex
      by_contra hne
      exact hdisjoint i hi j hj hne key array other hkey hother
  · rintro ⟨hfits, hundivided⟩ i hi key array hkey
    obtain ⟨hlen, entry, hfind, htakes⟩ := hfits key array ⟨i, hi, hkey⟩
    refine ⟨hlen, entry, hfind, fun name array' hkey' => ?_, ?_⟩
    · exact htakes.suits name array' ⟨i, hi, hkey'⟩
    · by_cases hlag : entry.numRows = data.rowCount
      · exact .inl hlag
      · refine .inr fun idx hidx => ?_
        obtain ⟨name, array', ⟨j, hj, hkey'⟩, hindex⟩ := htakes.rows.resolve_left hlag idx hidx
        obtain rfl := hundivided i hi j hj key _ array array' entry hkey hkey' rfl hfind hlag
        exact ⟨name, array', hkey', hindex⟩

end

/-! ## The ways of a stage -/

section
variable [DecidableEq T] {M : Machine} {systems : List (SystemEntry T V)}
  {configs : List SystemConfig} {data : Dataset (ResourceMap T V)}
  {sys : Nat → ParallelSystem T V} {config : Nat → SystemConfig} {answers : Nat → WriteSet T V}
  {stage : List Nat}

/-- What the loop leaves and what the dispatched stage leaves. -/
theorem leaves_stage (hwf : data.WellFormed)
    (htasks : ∀ i ∈ stage, TaskAt systems configs i (sys i) (config i))
    (hconflict : stage.Pairwise fun i j =>
      ¬ (sys i).meta_.Conflicts data.schemas (sys j).meta_)
    (hstage : ∀ i ∈ stage, (sys i).Answers M data (answers i) ∨ (sys i).Fails M data) :
    Leaves data (newsOf answers stage)
        (∀ i ∈ stage, (sys i).Answers M data (answers i) ∧ data.Fits (answers i).Writes)
        (runLoop M systems configs stage data) ∧
      Leaves data (newsOf answers stage)
        ((∀ i ∈ stage, (sys i).Answers M data (answers i)) ∧ data.Fits (newsOf answers stage))
        (runParallelStage M systems configs stage data) := by
  have hstart : Progress M sys answers [] data data := .start hwf
  obtain ⟨hloop, hlooped⟩ := hstart.run htasks hconflict hstage
  obtain ⟨hdispatch, hdispatched⟩ := runParallelStage_run hwf htasks hconflict hstage
  refine ⟨⟨hloop, fun left counts hrun => ?_⟩, ⟨hdispatch, fun left n hrun => ?_⟩⟩
  · obtain ⟨hall, hprogress⟩ := hlooped left counts hrun
    exact ⟨hall, hprogress.written⟩
  · obtain ⟨hall, hfits, hwritten⟩ := hdispatched left n hrun
    exact ⟨⟨hall, hfits⟩, hwritten⟩

/-- The way that is chosen is one of the two. -/
theorem leftColumns_runStage :
    leftColumns (runStage M systems configs stage data) =
        leftColumns (runParallelStage M systems configs stage data) ∨
      leftColumns (runStage M systems configs stage data) =
        leftColumns (runLoop M systems configs stage data) := by
  rw [runStage]
  split_ifs
  · left
    rcases runParallelStage M systems configs stage data with ⟨left, e | n⟩ <;> rfl
  · exact .inr rfl

/-- Systems that share a stage do not conflict. -/
theorem not_conflicts_of_stage {metas : List (ExpandedMeta T)}
    (hmetas : expandMetas data.schemas systems = .ok metas)
    (hstage : stage ∈ (buildStagesInner systems metas).1)
    (hsys : ∀ i ∈ stage, systems[i]? = some (.parallel (sys i))) :
    stage.Nodup ∧ ∀ i ∈ stage, ∀ j ∈ stage, i ≠ j →
      ¬ (sys i).meta_.Conflicts data.schemas (sys j).meta_ := by
  obtain ⟨l, hl⟩ := List.mem_iff_getElem?.mp hstage
  refine ⟨?_, fun i hi j hj hne hconflict => ?_⟩
  · rw [getElem?_stages hl]
    exact List.nodup_range.filter _
  · rcases Nat.lt_or_gt_of_ne hne with hlt | hgt
    · exact absurd (stage_lt_of_conflict hmetas ⟨hlt, _, _, hsys i hi, hsys j hj, hconflict⟩
        hl hi hl hj) (Nat.lt_irrefl l)
    · exact absurd (stage_lt_of_conflict hmetas ⟨hgt, _, _, hsys j hj, hsys i hi, hconflict.symm⟩
        hl hj hl hi) (Nat.lt_irrefl l)

section
variable {whole sliced : Nat → WriteSet T V}

omit [DecidableEq T] in
theorem newsOf_congr (h : ∀ i ∈ stage, (sliced i).Writes = (whole i).Writes) :
    newsOf sliced stage = newsOf whole stage := by
  funext key array
  exact propext (exists_congr fun i => and_congr_right fun hi => by rw [h i hi])

omit [DecidableEq T] in
theorem answersColumn_iff (hsys : ∀ i ∈ stage, systems[i]? = some (.parallel (sys i))) {i : Nat}
    (hi : i ∈ stage) {key : FieldAccess} {array : ArrayRef} :
    AnswersColumn systems data i key array ↔ (sys i).Column data key array := by
  simp [AnswersColumn, hsys i hi]

omit [DecidableEq T] in
theorem stageFits_iff (hsys : ∀ i ∈ stage, systems[i]? = some (.parallel (sys i)))
    (hanswers : ∀ i ∈ stage, TwoAnswers M data (sys i) (whole i) (sliced i)) :
    StageFits systems stage data ↔
      (∀ i ∈ stage, (sys i).whole.Answers M data (whole i)) ∧ data.Fits (newsOf whole stage) := by
  have hnews : (fun key array => ∃ i ∈ stage, AnswersColumn systems data i key array) =
      newsOf whole stage := by
    funext key array
    refine propext (exists_congr fun i => and_congr_right fun hi => ?_)
    rw [answersColumn_iff hsys hi, (hanswers i hi).writesWhole]
  constructor
  · rintro ⟨hall, hfits⟩
    refine ⟨fun i hi => ?_, hnews ▸ hfits⟩
    obtain ⟨s, ws, hs, hrun⟩ := hall i hi
    cases hs.symm.trans (hsys i hi)
    rcases (hanswers i hi).cases with h | h
    · exact h.2.1
    · exact absurd ⟨ws, hrun⟩ h.1
  · rintro ⟨hall, hfits⟩
    refine ⟨fun i hi => ?_, hnews ▸ hfits⟩
    rcases (hanswers i hi).cases with ⟨⟨ws, hrun⟩, -⟩ | ⟨-, hfails, -⟩
    · exact ⟨sys i, ws, hsys i hi, hrun⟩
    · exact absurd hfails (hall i hi).not_fails

omit [DecidableEq T] in
/-- The loop over whole systems succeeds when the stage fits and is not divided. -/
theorem loopFits_iff (hsys : ∀ i ∈ stage, systems[i]? = some (.parallel (sys i)))
    (hanswers : ∀ i ∈ stage, TwoAnswers M data (sys i) (whole i) (sliced i))
    (hconflict : ∀ i ∈ stage, ∀ j ∈ stage, i ≠ j →
      ¬ (sys i).meta_.Conflicts data.schemas (sys j).meta_) :
    (∀ i ∈ stage, (sys i).whole.Answers M data (whole i) ∧ data.Fits (whole i).Writes) ↔
      StageFits systems stage data ∧ Undivided systems stage data := by
  rw [stageFits_iff hsys hanswers, forall₂_and, and_assoc]
  refine and_congr_right fun hall => ?_
  have hdisjoint : ∀ i ∈ stage, ∀ j ∈ stage, i ≠ j → ∀ key a b, (whole i).Writes key a →
      ¬ (whole j).Writes key b := fun i hi j hj hne =>
    disjointWrites_of_not_conflicts (hall i hi) (hall j hj) (hconflict i hi j hj hne)
  rw [Dataset.fits_each_iff hdisjoint]
  refine and_congr_right fun _ => forall₂_congr fun i hi => forall₂_congr fun j hj => ?_
  simp only [(hanswers i hi).writesWhole, (hanswers j hj).writesWhole, answersColumn_iff hsys hi,
    answersColumn_iff hsys hj]

omit [DecidableEq T] in
/-- Slices that cover the rows answer what the systems answer over all rows. -/
theorem sliced_eq_whole (hsys : ∀ i ∈ stage, systems[i]? = some (.parallel (sys i)))
    (hhonest : ∀ i ∈ stage, (sys i).Honest data)
    (hanswers : ∀ i ∈ stage, TwoAnswers M data (sys i) (whole i) (sliced i))
    (hcover : SlicesCover M systems stage data) :
    ∀ i ∈ stage, (sliced i).Writes = (whole i).Writes := by
  intro i hi
  funext key array
  have heq : ∀ array', (sys i).Column data key array' →
      attemptArray M (sys i) data array' = array' := by
    intro array' hcolumn
    obtain ⟨ws, hrun, hwrites⟩ := hcolumn
    refine attemptArray_of_covers ((hhonest i hi).length ws key array' hrun hwrites) fun huse => ?_
    exact hcover i hi (sys i) key array' (hsys i hi) huse
      ((answersColumn_iff hsys hi).mpr ⟨ws, hrun, hwrites⟩)
  rw [(hanswers i hi).writesSliced, (hanswers i hi).writesWhole]
  refine propext ⟨?_, fun hcolumn => ⟨array, hcolumn, (heq array hcolumn).symm⟩⟩
  rintro ⟨array', hcolumn, rfl⟩
  rwa [heq array' hcolumn]

omit [DecidableEq T] in
/-- Slices that do not cover the rows answer a column that does not fit. -/
theorem slicesCover_of_length (hsys : ∀ i ∈ stage, systems[i]? = some (.parallel (sys i)))
    (hhonest : ∀ i ∈ stage, (sys i).Honest data)
    (hanswers : ∀ i ∈ stage, TwoAnswers M data (sys i) (whole i) (sliced i))
    (hlen : ∀ i ∈ stage, ∀ key array, (sliced i).Writes key array →
      array.cells.length = data.rowCount) : SlicesCover M systems stage data := by
  intro i hi s key array hs huse hcolumn
  cases hs.symm.trans (hsys i hi)
  rw [answersColumn_iff hsys hi] at hcolumn
  refine ((hhonest i hi).length_attemptArray hcolumn).mpr ?_ huse
  exact hlen i hi key _ (((hanswers i hi).writesSliced _ _).mpr ⟨array, hcolumn, rfl⟩)

end

/-- For a stage of the plan whose systems are parallel and keep to what they declare, running them
one after the other and dispatching them as a whole, over all rows or in slices, all come to the
same columns exactly when, should the systems answer columns that can be written together, no
component that lags behind the rows gets its columns from two of them, and the slices of a system
that answers a column cover the rows. -/
theorem waysAgree_iff (M : Machine) (systems : List (SystemEntry T V))
    (data : Dataset (ResourceMap T V)) (metas : List (ExpandedMeta T)) (stage : List Nat)
    (hmetas : expandMetas data.schemas systems = .ok metas) (hwf : data.WellFormed)
    (hstage : stage ∈ (buildStagesInner systems metas).1)
    (hsystems : ∀ i ∈ stage, ∃ sys, systems[i]? = some (.parallel sys) ∧ sys.Honest data) :
    WaysAgree M systems (buildStagesInner systems metas).2 stage data ↔
      (StageFits systems stage data →
        Undivided systems stage data ∧ SlicesCover M systems stage data) := by
  have : Nonempty (ParallelSystem T V) :=
    ⟨{ meta_ := ⟨"", [], [], [], [], [], []⟩, config := {}, run := fun _ => .ok .new }⟩
  have : Nonempty (WriteSet T V) := ⟨.new⟩
  choose! sys hsys hhonest using hsystems
  choose! whole sliced hanswers using fun i hi => (hhonest i hi).twoAnswers M
  obtain ⟨hnodup, hconflict⟩ := not_conflicts_of_stage hmetas hstage hsys
  have hpairwise : stage.Pairwise fun i j =>
      ¬ (sys i).meta_.Conflicts data.schemas (sys j).meta_ :=
    hnodup.imp_of_mem fun hi hj hne => hconflict _ hi _ hj hne
  have htasks : ∀ i ∈ stage,
      TaskAt systems (systems.map SystemEntry.config) i (sys i) (sys i).config := by
    intro i hi
    exact ⟨hsys i hi, by rw [List.getElem?_map, hsys i hi]; rfl⟩
  have htasksWhole : ∀ i ∈ stage, TaskAt (systems.map SystemEntry.whole)
      (systems.map SystemEntry.config) i (sys i).whole (sys i).config := by
    intro i hi
    exact ⟨by rw [List.getElem?_map, hsys i hi]; rfl, (htasks i hi).2⟩
  obtain ⟨hloop, hdispatch⟩ := leaves_stage hwf htasksWhole hpairwise fun i hi =>
    (hanswers i hi).cases.imp (·.2.1) (·.2.1)
  obtain ⟨hloopSliced, hdispatchSliced⟩ := leaves_stage hwf htasks hpairwise fun i hi =>
    (hanswers i hi).cases.imp (·.2.2) (·.2.2)
  have hanswered : ∀ i ∈ stage, (sys i).Answers M data (sliced i) ↔
      (sys i).whole.Answers M data (whole i) := by
    intro i hi
    rcases (hanswers i hi).cases with ⟨-, h, h'⟩ | ⟨-, h, h'⟩
    · exact iff_of_true h' h
    · exact iff_of_false (fun h'' => h''.not_fails h') fun h'' => h''.not_fails h
  have hloopFits := loopFits_iff hsys hanswers hconflict
  have hdispatchFits := stageFits_iff hsys hanswers
  have hchosen :
      leftColumns (runStage M systems (systems.map SystemEntry.config) stage data) =
          leftColumns (runParallelStage M systems (systems.map SystemEntry.config) stage data) ∨
        leftColumns (runStage M systems (systems.map SystemEntry.config) stage data) =
          leftColumns (runLoop M systems (systems.map SystemEntry.config) stage data) :=
    leftColumns_runStage
  rw [configs_buildStagesInner]
  constructor
  · intro hagree hfits
    have hdispatched := hdispatch.isSome_iff.mpr (hdispatchFits.mp hfits)
    rw [hagree.dispatched] at hdispatched
    have hloopedSliced := hdispatched
    rw [← hagree.loopSliced] at hloopedSliced
    refine ⟨(hloopFits.mp (hloop.isSome_iff.mp hdispatched)).2,
      slicesCover_of_length hsys hhonest hanswers fun i hi key array hwrites => ?_⟩
    exact ((hloopSliced.isSome_iff.mp hloopedSliced i hi).2 key array hwrites).1
  · intro h
    by_cases hfits : StageFits systems stage data
    · obtain ⟨hundivided, hcover⟩ := h hfits
      have hsame := sliced_eq_whole hsys hhonest hanswers hcover
      have hlooped := hloopFits.mpr ⟨hfits, hundivided⟩
      have hdispatched := hdispatchFits.mp hfits
      rw [newsOf_congr hsame] at hloopSliced hdispatchSliced
      have hloopedSliced : ∀ i ∈ stage,
          (sys i).Answers M data (sliced i) ∧ data.Fits (sliced i).Writes := by
        intro i hi
        rw [hanswered i hi, hsame i hi]
        exact hlooped i hi
      have hdispatchedSliced : (∀ i ∈ stage, (sys i).Answers M data (sliced i)) ∧
          data.Fits (newsOf whole stage) :=
        ⟨fun i hi => (hanswered i hi).mpr (hdispatched.1 i hi), hdispatched.2⟩
      have hl := (hloopSliced.eq_iff hloop).mpr (iff_of_true hloopedSliced hlooped)
      have hd := (hdispatchSliced.eq_iff hloop).mpr (iff_of_true hdispatchedSliced hlooped)
      refine ⟨(hdispatch.eq_iff hloop).mpr (iff_of_true hdispatched hlooped), hl, hd, ?_⟩
      rcases hchosen with hchosen | hchosen
      · exact hchosen.trans hd
      · exact hchosen.trans hl
    · have hnot := hloop.eq_none fun hok => hfits (hloopFits.mp hok).1
      have hnotDispatched := hdispatch.eq_none fun hok => hfits (hdispatchFits.mpr hok)
      -- slices that fit cover the rows, and then they are no different
      have hnotSliced := hloopSliced.eq_none fun hok => hfits <| by
        have hcover := slicesCover_of_length hsys hhonest hanswers fun i hi key array hwrites =>
          ((hok i hi).2 key array hwrites).1
        have hsame := sliced_eq_whole hsys hhonest hanswers hcover
        refine (hloopFits.mp fun i hi => ?_).1
        rw [← hanswered i hi, ← hsame i hi]
        exact hok i hi
      have hnotDispatchedSliced := hdispatchSliced.eq_none fun hok => hfits <| by
        have hcover := slicesCover_of_length hsys hhonest hanswers fun i hi key array hwrites =>
          (hok.2 key array ⟨i, hi, hwrites⟩).1
        have hsame := sliced_eq_whole hsys hhonest hanswers hcover
        refine hdispatchFits.mpr ⟨fun i hi => (hanswered i hi).mp (hok.1 i hi), ?_⟩
        rw [← newsOf_congr hsame]
        exact hok.2
      refine ⟨hnotDispatched.trans hnot.symm, hnotSliced.trans hnot.symm,
        hnotDispatchedSliced.trans hnot.symm, ?_⟩
      rcases hchosen with hchosen | hchosen
      · exact hchosen.trans (hnotDispatchedSliced.trans hnot.symm)
      · exact hchosen.trans (hnotSliced.trans hnot.symm)

end

/-! ## Two writers of one component -/

namespace WaysSample

/-- A system that answers one column, whatever it is shown. -/
def columnSystem (field : String) (cells : List Cell) : ParallelSystem Nat Nat where
  meta_ := ⟨"score_" ++ field, [], [⟨"Score", field⟩], [], [], [], []⟩
  config := {}
  run _ := .ok (.put .new ⟨"Score", field⟩ ⟨.float64, cells⟩)

def systems (cells : List Cell) : List (SystemEntry Nat Nat) :=
  [.parallel (columnSystem "low" cells), .parallel (columnSystem "high" cells)]

def scoreSchema : Schema := ⟨[⟨"low", .float64, false⟩, ⟨"high", .float64, false⟩]⟩

def orderSchema : Schema := ⟨[⟨"total", .float64, false⟩]⟩

/-- A component of two columns with the rows `scores`, beside one row of another component. -/
def data (scores : List (List Cell)) : Dataset (ResourceMap Nat Nat) where
  components := [⟨"Score", 1, scoreSchema, [⟨scoreSchema, scores⟩], none⟩,
    ⟨"Order", 1, orderSchema, [⟨orderSchema, [[.float 0]]⟩], none⟩]
  rowCount := 1
  alive := [true]
  liveCount := 1
  deadCount := 0
  resources := fun _ => none

def metas : List (ExpandedMeta Nat) :=
  [⟨"score_low", [], [⟨"Score", "low"⟩], [], []⟩, ⟨"score_high", [], [⟨"Score", "high"⟩], [], []⟩]

theorem honest_columnSystem {field : String} {cells : List Cell}
    {d : Dataset (ResourceMap Nat Nat)} (hlen : cells.length = d.rowCount) :
    (columnSystem field cells).Honest d where
  run_eq _ _ := rfl
  runSlice_eq _ _ _ := rfl
  fields ws key array hrun hwrites := by
    cases hrun
    cases List.mem_singleton.mp hwrites
    exact .inl (List.mem_singleton_self _)
  length ws key array hrun hwrites := by
    cases hrun
    cases List.mem_singleton.mp hwrites
    exact hlen
  resources ws update hrun hupdate := by
    cases hrun
    cases hupdate
  slices := .inl fun _ => rfl
  merge := rfl

theorem wellFormed_data {scores : List (List Cell)}
    (h : ∀ idx < 2, .null ∉ RecordBatch.column ⟨scoreSchema, scores⟩ idx) :
    (data scores).WellFormed where
  nodup := (by decide : ["Score", "Order"].Nodup)
  chunks entry hentry := by
    rcases List.mem_pair.mp hentry with rfl | rfl <;> exact List.cons_ne_nil _ _
  valid entry hentry chunk hchunk := by
    rcases List.mem_pair.mp hentry with rfl | rfl <;> cases List.mem_singleton.mp hchunk
    · exact ⟨rfl, fun idx field hfield _ => h idx (List.getElem?_eq_some_iff.mp hfield).1⟩
    · refine ⟨rfl, fun idx field hfield _ => ?_⟩
      obtain rfl : idx = 0 := by
        have := (List.getElem?_eq_some_iff.mp hfield).1
        simpa [orderSchema] using this
      decide

theorem systems_honest {cells : List Cell} (hlen : cells.length = 1) (scores : List (List Cell)) :
    ∀ i ∈ [0, 1], ∃ sys, (systems cells)[i]? = some (.parallel sys) ∧ sys.Honest (data scores) := by
  intro i hi
  rcases List.mem_pair.mp hi with rfl | rfl
  · exact ⟨_, rfl, honest_columnSystem hlen⟩
  · exact ⟨_, rfl, honest_columnSystem hlen⟩

/-- A component without rows gets its two columns from two systems of a stage: dispatched
together they fill it, one after the other the first one fails. -/
theorem lagging_component_divided :
    expandMetas (data []).schemas (systems [.float 1]) = .ok metas ∧
      (buildStagesInner (systems [.float 1]) metas).1 = [[0, 1]] ∧ (data []).WellFormed ∧
      (∀ i ∈ [0, 1], ∃ sys, (systems [.float 1])[i]? = some (.parallel sys) ∧
        sys.Honest (data [])) ∧
      ¬ WaysAgree StageSample.machine (systems [.float 1])
        (buildStagesInner (systems [.float 1]) metas).2 [0, 1] (data []) := by
  refine ⟨rfl, by decide, wellFormed_data fun _ _ => List.not_mem_nil, systems_honest rfl [],
    fun h => ?_⟩
  have hdispatched : (leftColumns (runParallelStage StageSample.machine ((systems [.float 1]).map
      SystemEntry.whole) (buildStagesInner (systems [.float 1]) metas).2 [0, 1]
        (data []))).isSome = true := by
    decide
  have hlooped : (leftColumns (runLoop StageSample.machine ((systems [.float 1]).map SystemEntry.whole)
      (buildStagesInner (systems [.float 1]) metas).2 [0, 1] (data []))).isSome = false := by
    decide
  rw [h.dispatched, hlooped] at hdispatched
  cases hdispatched

/-- With a row in the component the ways agree. -/
theorem full_component_agrees :
    WaysAgree StageSample.machine (systems [.float 1])
      (buildStagesInner (systems [.float 1]) metas).2 [0, 1] (data [[.float 0, .float 0]]) := by
  have hwf : (data [[.float 0, .float 0]]).WellFormed := wellFormed_data (by decide)
  refine (waysAgree_iff StageSample.machine (systems [.float 1]) (data [[.float 0, .float 0]]) metas
    [0, 1] rfl hwf (by decide) (systems_honest rfl _)).mpr fun _ => ⟨?_, ?_⟩
  · intro i _ j _ key key' array array' entry _ _ _ hfind hlag
    rcases List.mem_pair.mp (Dataset.mem_of_find hfind).1 with rfl | rfl
    · exact absurd rfl hlag
    · exact absurd rfl hlag
  · intro i hi sys key array hsys huse _
    rcases List.mem_pair.mp hi with rfl | rfl <;>
    · cases hsys
      simp [useSlices, columnSystem] at huse

end WaysSample
end Saci
