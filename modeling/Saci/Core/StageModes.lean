import Saci.Core.Answers

/-!
# The ways of executing a stage

A stage of parallel systems is run by one system after the other or dispatched as a whole, and
either way a system may be run in slices. The ways agree unless the columns of a component with
another number of rows than the dataset come from two systems of the stage, or a sliced system
writes a column whose rows the slices do not cover (`waysAgree_iff`).
-/

namespace Saci

variable {T V : Type}

/-! ## Writing after writing -/

theorem Schema.indexOf_inj {schema : Schema} {name name' : String} {idx : Nat}
    (h : schema.indexOf name = some idx) (h' : schema.indexOf name' = some idx) : name = name' := by
  obtain ⟨field, hfield, hname⟩ := Schema.indexOf_eq_some h
  obtain ⟨field', hfield', hname'⟩ := Schema.indexOf_eq_some h'
  cases hfield.symm.trans hfield'
  exact hname.symm.trans hname'

namespace Dataset
variable {R : Type} {data d d' : Dataset R} {N W : FieldAccess → ArrayRef → Prop} {name : String}
  {entry : Registered}

theorem find_of_shape_eq_some (h : d.shape = data.shape) (hfind : data.find name = some entry) :
    ∃ entry', d.find name = some entry' ∧ entry'.schema = entry.schema := by
  have heq := find_of_shape_eq h name
  rw [hfind, Option.map_some, Option.map_eq_some_iff] at heq
  obtain ⟨entry', hentry', hshape⟩ := heq
  exact ⟨entry', hentry', congrArg (·.2.2.1) hshape⟩

theorem Written.refl (h : data.WellFormed) (hN : ∀ key a, ¬ N key a) : Written data N data where
  shape := rfl
  wellFormed := h
  written _ _ key array _ hnew := absurd hnew (hN key array)
  others _ _ _ := rfl
  rows name entry entry' hfind hfind' := by
    cases hfind.symm.trans hfind'
    exact ⟨fun ⟨key, array, hnew, _⟩ => absurd hnew (hN key array), fun _ => rfl⟩

/-- Columns written before, each as part of what fits, do not bear on whether others fit. -/
theorem Written.fits_iff (h : Written data N d) (hdisj : ∀ key a b, N key a → ¬ W key b)
    (hN : ∀ key a, N key a → ∃ W', W' key a ∧ (∀ key a, W' key a → N key a) ∧ data.Fits W') :
    d.Fits W ↔ data.Fits W := by
  have hrows : d.rowCount = data.rowCount := congrArg Shape.rowCount h.shape
  constructor
  · intro hfits key array hW
    obtain ⟨hlen, entry', hfind', hsuits, hrows'⟩ := hfits key array hW
    obtain ⟨entry, hfind, hschema⟩ := find_of_shape_eq_some h.shape.symm hfind'
    rw [← hschema] at hsuits hrows'
    rw [hrows] at hlen hrows'
    refine ⟨hlen, entry, hfind, hsuits, hrows'.elim (fun hsame => ?_) .inr⟩
    obtain ⟨-, hkept⟩ := h.rows key.component entry entry' hfind hfind'
    by_cases htouched : ∃ key' a, N key' a ∧ key'.component = key.component
    · obtain ⟨key', a, hNa, hcomponent⟩ := htouched
      obtain ⟨W', hW', hsub, hfits'⟩ := hN key' a hNa
      obtain ⟨-, found, hfound, htakes⟩ := hfits' key' a hW'
      rw [hcomponent] at hfound htakes
      cases hfind.symm.trans hfound
      refine htakes.rows.imp_right fun hall => ?_
      -- the column would have been written already
      obtain ⟨idx, field, hindex, hfield, -⟩ := hsuits key.field array hW
      obtain ⟨name, a', ha', hindex'⟩ := hall idx (List.getElem?_eq_some_iff.mp hfield).1
      cases Schema.indexOf_inj hindex' hindex
      exact absurd hW (hdisj key a' array (hsub _ _ ha'))
    · exact .inl ((hkept htouched).symm.trans hsame)
  · intro hfits key array hW
    obtain ⟨hlen, entry, hfind, hsuits, hrows'⟩ := hfits key array hW
    obtain ⟨entry', hfind', hschema⟩ := find_of_shape_eq_some h.shape hfind
    obtain ⟨hwritten, hkept⟩ := h.rows key.component entry entry' hfind hfind'
    rw [← hschema] at hsuits hrows'
    rw [← hrows] at hlen hrows'
    refine ⟨hlen, entry', hfind', hsuits, hrows'.imp_left fun hsame => ?_⟩
    by_cases htouched : ∃ key' a, N key' a ∧ key'.component = key.component
    · exact (hwritten htouched).trans hrows.symm
    · exact (hkept htouched).trans hsame

/-- Columns written after others. -/
theorem Written.comp (h : Written data N d) (h' : Written d W d')
    (hdisj : ∀ key a b, N key a → ¬ W key b) :
    Written data (fun key array => N key array ∨ W key array) d' where
  shape := h'.shape.trans h.shape
  wellFormed := h'.wellFormed
  written name idx key array hkey hnew := by
    rcases hnew with hN | hW
    · rw [h'.others name idx, h.written name idx key array hkey hN]
      intro key' a hkey' hW
      rw [keyAt_of_shape_eq h.shape] at hkey'
      cases hkey.symm.trans hkey'
      exact hdisj key array a hN hW
    · exact h'.written name idx key array ((keyAt_of_shape_eq h.shape).trans hkey) hW
  others name idx hnone := by
    rw [h'.others name idx fun key a hkey hW => ?_, h.others name idx fun key a hkey hN =>
      hnone key a hkey (.inl hN)]
    exact hnone key a ((keyAt_of_shape_eq h.shape).symm.trans hkey) (.inr hW)
  rows name entry entry' hfind hfind' := by
    obtain ⟨middle, hmiddle, -⟩ := find_of_shape_eq_some h.shape hfind
    obtain ⟨hnew, hkept⟩ := h.rows name entry middle hfind hmiddle
    obtain ⟨hnew', hkept'⟩ := h'.rows name middle entry' hmiddle hfind'
    have hrows : d.rowCount = data.rowCount := congrArg Shape.rowCount h.shape
    refine ⟨?_, fun hnone => ?_⟩
    · rintro ⟨key, array, hN | hW, hcomponent⟩
      · by_cases htouched : ∃ key array, W key array ∧ key.component = name
        · exact (hnew' htouched).trans hrows
        · exact (hkept' htouched).trans (hnew ⟨key, array, hN, hcomponent⟩)
      · exact (hnew' ⟨key, array, hW, hcomponent⟩).trans hrows
    · rw [hkept' fun ⟨key, array, hW, hcomponent⟩ => hnone ⟨key, array, .inr hW, hcomponent⟩,
        hkept fun ⟨key, array, hN, hcomponent⟩ => hnone ⟨key, array, .inl hN, hcomponent⟩]

/-- What is written decides the columns that are left. -/
theorem Written.columnAt_eq (h : Written data N d) (h' : Written data N d') (name : String)
    (idx : Nat) : d.columnAt name idx = d'.columnAt name idx := by
  by_cases hnew : ∃ key array, data.keyAt name idx = some key ∧ N key array
  · obtain ⟨key, array, hkey, hN⟩ := hnew
    rw [h.written name idx key array hkey hN, h'.written name idx key array hkey hN]
  · have hnone : ∀ key array, data.keyAt name idx = some key → ¬ N key array :=
      fun key array hkey hN => hnew ⟨key, array, hkey, hN⟩
    rw [h.others name idx hnone, h'.others name idx hnone]

end Dataset

/-! ## What the systems of a stage answer -/

/-- A system answers `answer` on all datasets that look like `data` to it, and the answer keeps to
the declaration. -/
structure ParallelSystem.Answers (M : Machine) (data : Dataset (ResourceMap T V))
    (sys : ParallelSystem T V) (answer : WriteSet T V) : Prop where
  attempt : ∀ missing d, Near sys.meta_ data d → sys.attempt M missing d = .ok answer
  fields : ∀ key array, answer.Writes key array → sys.meta_.WritesField data.schemas key
  resources : ∀ update ∈ answer.resourceUpdates, update.resource ∈ sys.meta_.writesResources

/-- A system fails on all datasets that look like `data` to it. -/
def ParallelSystem.Fails (M : Machine) (data : Dataset (ResourceMap T V))
    (sys : ParallelSystem T V) : Prop :=
  ∀ missing d, Near sys.meta_ data d → ∃ e, sys.attempt M missing d = .error e

/-- What the answers of some systems write. -/
def newsOf (answers : Nat → WriteSet T V) (stage : List Nat) (key : FieldAccess)
    (array : ArrayRef) : Prop :=
  ∃ i ∈ stage, (answers i).Writes key array

section
variable {M : Machine} {systems : List (SystemEntry T V)} {configs : List SystemConfig}
  {data d d' left : Dataset (ResourceMap T V)} {sys : Nat → ParallelSystem T V}
  {config : Nat → SystemConfig} {answers : Nat → WriteSet T V} {ran rest stage : List Nat}
  {i j : Nat}

theorem Near.refl {m : SystemMeta T} (data : Dataset (ResourceMap T V)) : Near m data data :=
  fun _ _ => rfl

theorem ParallelSystem.Answers.not_fails {s : ParallelSystem T V} {answer : WriteSet T V}
    (h : s.Answers M data answer) : ¬ s.Fails M data := by
  intro hfails
  obtain ⟨e, he⟩ := hfails loopSliceNone data (.refl data)
  rw [h.attempt _ _ (.refl data)] at he
  cases he

/-- Systems that do not conflict write no field both. -/
theorem disjointWrites_of_not_conflicts {s s' : ParallelSystem T V} {a a' : WriteSet T V}
    (ha : s.Answers M data a) (ha' : s'.Answers M data a')
    (h : ¬ s.meta_.Conflicts data.schemas s'.meta_) : DisjointWrites a a' :=
  fun key _ _ hw hw' => h (.inl ⟨key, .inl ⟨ha.fields key _ hw, .inr (ha'.fields key _ hw')⟩⟩)

/-! ## One system after the other -/

/-- The systems of `ran` have been run. -/
structure Progress (M : Machine) (sys : Nat → ParallelSystem T V) (answers : Nat → WriteSet T V)
    (ran : List Nat) (data d : Dataset (ResourceMap T V)) : Prop where
  answered : ∀ i ∈ ran, (sys i).Answers M data (answers i)
  fits : ∀ i ∈ ran, data.Fits (answers i).Writes
  written : data.Written (newsOf answers ran) d
  resources : ∀ r, (∀ i ∈ ran, r ∉ (sys i).meta_.writesResources) →
    d.resources r = data.resources r

theorem Progress.start (h : data.WellFormed) : Progress M sys answers [] data data where
  answered _ hi := nomatch hi
  fits _ hi := nomatch hi
  written := .refl h fun _ _ ⟨_, hi, _⟩ => nomatch hi
  resources _ _ := rfl

/-- A system that conflicts with none of those that were run sees no difference. -/
theorem Progress.near (h : Progress M sys answers ran data d)
    (hconflict : ∀ j ∈ ran, ¬ (sys j).meta_.Conflicts data.schemas (sys i).meta_) :
    Near (sys i).meta_ data d := by
  intro l hl
  have hnot : ∀ j ∈ ran, l ∉ (sys j).meta_.writeLocs data.schemas := fun j hj hw =>
    Set.disjoint_left.mp (SystemMeta.disjoint_writeLocs (hconflict j hj)) hw hl
  cases l with
  | shape => exact h.written.shape
  | column name idx =>
    refine h.written.others name idx fun key array hkey ⟨j, hj, hwrites⟩ => hnot j hj ?_
    obtain ⟨entry, hentry, hkey⟩ := Option.bind_eq_some_iff.mp hkey
    obtain ⟨field, hfield, hkey⟩ := Option.bind_eq_some_iff.mp hkey
    split_ifs at hkey
    cases hkey
    refine ⟨entry.schema, field, ?_, hfield, (h.answered j hj).fields _ array hwrites⟩
    rw [Dataset.schemas, hentry]
    rfl
  | resource r => exact h.resources r hnot

theorem updateResources_of_notMem [DecidableEq T] {updates : List (ResourceUpdate T V)} {r : T}
    (h : ∀ update ∈ updates, update.resource ≠ r) (resources : ResourceMap T V) :
    Dataset.updateResources resources updates r = resources r := by
  induction updates generalizing resources with
  | nil => rfl
  | cons update updates ih =>
    obtain ⟨hne, hrest⟩ := List.forall_mem_cons.mp h
    exact (ih hrest _).trans (Function.update_of_ne hne.symm _ _)

variable [DecidableEq T]

/-- The next system of the loop. -/
theorem Progress.step (h : Progress M sys answers ran data d)
    (htask : TaskAt systems configs i (sys i) (config i))
    (hconflict : ∀ j ∈ ran, ¬ (sys j).meta_.Conflicts data.schemas (sys i).meta_)
    (hi : (sys i).Answers M data (answers i)) :
    (data.Fits (answers i).Writes → ∃ d' counts,
        runSystem M systems configs i d = (d', .ok counts)) ∧
      ∀ d' counts, runSystem M systems configs i d = (d', .ok counts) →
        data.Fits (answers i).Writes ∧ Progress M sys answers (ran ++ [i]) data d' := by
  have hattempt : (sys i).attempt M loopSliceNone d = .ok (answers i) :=
    hi.attempt _ d (h.near hconflict)
  have hdisjoint : ∀ key a b, newsOf answers ran key a → ¬ (answers i).Writes key b := by
    rintro key a b ⟨j, hj, hwrites⟩
    exact disjointWrites_of_not_conflicts (h.answered j hj) hi (hconflict j hj) key a b hwrites
  have hfits : d.Fits (answers i).Writes ↔ data.Fits (answers i).Writes := by
    refine h.written.fits_iff hdisjoint fun key a ⟨j, hj, hwrites⟩ => ?_
    exact ⟨(answers j).Writes, hwrites, fun _ _ hw => ⟨j, hj, hw⟩, h.fits j hj⟩
  refine ⟨fun hok => ?_, fun d' counts hrun => ?_⟩
  · obtain ⟨d', happly⟩ := Dataset.applyWriteSet_eq_ok h.written.wellFormed (hfits.mpr hok)
    exact ⟨d', (1, 0), (runSystem_eq_ok_iff htask).mpr ⟨_, hattempt, happly, rfl⟩⟩
  · obtain ⟨answer, hanswer, happly, -⟩ := (runSystem_eq_ok_iff htask).mp hrun
    cases hanswer.symm.trans hattempt
    obtain ⟨hok, hwritten, hresources⟩ := Dataset.applyWriteSet_spec h.written.wellFormed happly
    have hok := hfits.mp hok
    have hcomp := h.written.comp hwritten hdisjoint
    have hnews : newsOf answers (ran ++ [i]) =
        fun key array => newsOf answers ran key array ∨ (answers i).Writes key array := by
      funext key array
      simp [newsOf, or_and_right, exists_or]
    refine ⟨hok, ⟨?_, ?_, hnews ▸ hcomp, fun r hr => ?_⟩⟩
    · exact List.forall_mem_append.mpr ⟨h.answered, List.forall_mem_singleton.mpr hi⟩
    · exact List.forall_mem_append.mpr ⟨h.fits, List.forall_mem_singleton.mpr hok⟩
    · obtain ⟨hran, hlast⟩ := List.forall_mem_append.mp hr
      rw [hresources, updateResources_of_notMem fun update hupdate heq => ?_]
      · exact h.resources r hran
      · exact hlast i (List.mem_singleton_self i) (heq ▸ hi.resources update hupdate)

/-- The loop over what is left of a stage: it succeeds when every system answers and what it
writes fits, and then everything is written. -/
theorem Progress.run (h : Progress M sys answers ran data d)
    (htasks : ∀ i ∈ rest, TaskAt systems configs i (sys i) (config i))
    (hconflict : (ran ++ rest).Pairwise fun i j =>
      ¬ (sys i).meta_.Conflicts data.schemas (sys j).meta_)
    (hrest : ∀ i ∈ rest, (sys i).Answers M data (answers i) ∨ (sys i).Fails M data) :
    ((∀ i ∈ rest, (sys i).Answers M data (answers i) ∧ data.Fits (answers i).Writes) →
        ∃ left counts, runLoop M systems configs rest d = (left, .ok counts)) ∧
      ∀ left counts, runLoop M systems configs rest d = (left, .ok counts) →
        (∀ i ∈ rest, (sys i).Answers M data (answers i) ∧ data.Fits (answers i).Writes) ∧
          Progress M sys answers (ran ++ rest) data left := by
  induction rest generalizing ran d with
  | nil =>
    refine ⟨fun _ => ⟨d, 0, rfl⟩, fun left counts hrun => ⟨fun _ hi => (nomatch hi), ?_⟩⟩
    cases hrun
    rwa [List.append_nil]
  | cons i rest ih =>
    obtain ⟨htask, htasks⟩ := List.forall_mem_cons.mp htasks
    obtain ⟨hi, hrest⟩ := List.forall_mem_cons.mp hrest
    have hbefore : ∀ j ∈ ran, ¬ (sys j).meta_.Conflicts data.schemas (sys i).meta_ :=
      fun j hj => (List.pairwise_append.mp hconflict).2.2 j hj i List.mem_cons_self
    rw [List.append_cons] at hconflict
    simp only [List.forall_mem_cons, runLoop, List.map_cons, Effects.runAll_cons_eq_ok]
    rcases hi with hi | hfails
    · obtain ⟨hrun, hran⟩ := h.step htask hbefore hi
      refine ⟨fun ⟨⟨_, hfits⟩, hall⟩ => ?_, fun left counts hloop => ?_⟩
      · obtain ⟨d', counts, hd'⟩ := hrun hfits
        obtain ⟨left, counts', hleft⟩ :=
          (ih (hran d' counts hd').2 htasks hconflict hrest).1 hall
        exact ⟨left, _, d', counts, counts', hd', hleft, rfl⟩
      · obtain ⟨d', a, b, hd', hleft, -⟩ := hloop
        obtain ⟨hfits, hprogress⟩ := hran d' a hd'
        obtain ⟨hall, hdone⟩ := (ih hprogress htasks hconflict hrest).2 left b hleft
        rw [← List.append_cons] at hdone
        exact ⟨⟨⟨hi, hfits⟩, hall⟩, hdone⟩
    · refine ⟨fun hall => absurd hfails hall.1.1.not_fails, fun left counts hloop => ?_⟩
      obtain ⟨d', a, b, hd', -⟩ := hloop
      obtain ⟨answer, hanswer, -⟩ := (runSystem_eq_ok_iff htask).mp hd'
      obtain ⟨e, he⟩ := hfails loopSliceNone d (h.near hbefore)
      rw [hanswer] at he
      cases he

/-! ## All systems at once -/

omit [DecidableEq T] in
theorem stageTasks_eq (h : ∀ i ∈ stage, TaskAt systems configs i (sys i) (config i)) :
    stageTasks systems configs stage = stage.map fun i => (sys i, config i) := by
  induction stage with
  | nil => rfl
  | cons i stage ih =>
    obtain ⟨⟨hsys, hconfig⟩, hrest⟩ := List.forall_mem_cons.mp h
    rw [List.map_cons, ← ih hrest, stageTasks, List.filterMap_cons, hsys, hconfig]
    rfl

omit [DecidableEq T] in
/-- The merged answers of a stage write what any of them writes. -/
theorem writes_mergeWriteSets_map (hall : ∀ i ∈ stage, (sys i).Answers M data (answers i))
    (hconflict : stage.Pairwise fun i j =>
      ¬ (sys i).meta_.Conflicts data.schemas (sys j).meta_) :
    (mergeWriteSets (stage.map answers)).Writes = newsOf answers stage := by
  have hdisjoint : (stage.map answers).Pairwise DisjointWrites := by
    rw [List.pairwise_map]
    exact hconflict.imp_of_mem fun hi hj =>
      disjointWrites_of_not_conflicts (hall _ hi) (hall _ hj)
  funext key array
  simp [mergeWriteSets_writes hdisjoint, newsOf]

/-- A dispatched stage succeeds when every system answers and what they write together fits, and
then everything is written. -/
theorem runParallelStage_run (hwf : data.WellFormed)
    (htasks : ∀ i ∈ stage, TaskAt systems configs i (sys i) (config i))
    (hconflict : stage.Pairwise fun i j =>
      ¬ (sys i).meta_.Conflicts data.schemas (sys j).meta_)
    (hstage : ∀ i ∈ stage, (sys i).Answers M data (answers i) ∨ (sys i).Fails M data) :
    ((∀ i ∈ stage, (sys i).Answers M data (answers i)) ∧ data.Fits (newsOf answers stage) →
        ∃ left n, runParallelStage M systems configs stage data = (left, .ok n)) ∧
      ∀ left n, runParallelStage M systems configs stage data = (left, .ok n) →
        (∀ i ∈ stage, (sys i).Answers M data (answers i)) ∧ data.Fits (newsOf answers stage) ∧
          data.Written (newsOf answers stage) left := by
  constructor
  · rintro ⟨hall, hfits⟩
    have hresults : List.Forall₂ (fun task result =>
        retryParallel M task.1 stageSliceNone task.2 data = .ok result)
          (stageTasks systems configs stage) (stage.map fun i => (answers i, 0)) := by
      rw [stageTasks_eq htasks, List.forall₂_map_left_iff, List.forall₂_map_right_iff]
      refine List.forall₂_same.mpr fun i hi => ?_
      exact retryParallel_eq_ok_iff.mpr ⟨(hall i hi).attempt _ _ (.refl data), rfl⟩
    rw [← writes_mergeWriteSets_map hall hconflict] at hfits
    obtain ⟨left, hleft⟩ := Dataset.applyWriteSet_eq_ok hwf hfits
    refine ⟨left, ((stage.map fun i => (answers i, 0)).map (·.2)).sum, ?_⟩
    rw [runParallelStage, mapM_eq_ok_of_forall₂ hresults]
    simp only [List.map_map, Function.comp_def, hleft]
  · intro left n hrun
    rw [runParallelStage] at hrun
    split at hrun
    · cases hrun
    rename_i results hresults
    have hforall := forall₂_of_mapM_eq_ok hresults
    rw [stageTasks_eq htasks, List.forall₂_map_left_iff] at hforall
    have hall : ∀ i ∈ stage, (sys i).Answers M data (answers i) := by
      intro i hi
      refine (hstage i hi).resolve_right fun hfails => ?_
      obtain ⟨idx, hidx⟩ := List.mem_iff_getElem?.mp hi
      obtain ⟨result, -, hresult⟩ := getElem?_of_forall₂ hforall hidx
      obtain ⟨e, he⟩ := hfails stageSliceNone data (.refl data)
      rw [(retryParallel_eq_ok_iff.mp hresult).1] at he
      cases he
    have hanswers : results.map (·.1) = stage.map answers := by
      rw [← List.forall₂_eq_eq_eq, List.forall₂_map_left_iff, List.forall₂_map_right_iff]
      refine ((List.forall₂_and_left _ _).mpr ⟨hall, hforall⟩).flip.imp fun result i h => ?_
      obtain ⟨hi, hresult⟩ := h
      have hattempt := (retryParallel_eq_ok_iff.mp hresult).1
      rw [hi.attempt _ _ (.refl data)] at hattempt
      exact (Except.ok.inj hattempt).symm
    simp only [hanswers] at hrun
    rcases happly : data.applyWriteSet (mergeWriteSets (stage.map answers)) with ⟨left', e | ⟨⟩⟩
    · simp [happly] at hrun
    simp only [happly, Prod.mk.injEq] at hrun
    obtain ⟨hfits, hwritten, -⟩ := Dataset.applyWriteSet_spec hwf happly
    rw [writes_mergeWriteSets_map hall hconflict] at hfits hwritten
    exact ⟨hall, hfits, hrun.1 ▸ hwritten⟩

end
end Saci
