import Saci.Core.ApplyWriteSet
import Saci.Core.RowRanges
import Saci.Core.StageOrder

/-!
# What parallel systems answer

A parallel system that keeps to its declaration answers the same write set on datasets that look
the same where it may look (`Honest`). Its slices, merged, are its write set if they cover the
rows; else every column of theirs has another length than the dataset has rows. The write sets of
a stage, merged, hold the columns of all of them.
-/

namespace Saci

variable {T V : Type}

theorem WriteSet.writes_iff {ws : WriteSet T V} {key : FieldAccess} {array : ArrayRef} :
    ws.Writes key array ↔ ws.fields.lookup key = some array := by
  rw [WriteSet.Writes, ← Option.mem_def, AList.mem_lookup_iff]

/-- The part of an array in a range of rows. -/
def RowRange.sliceArray (r : RowRange) (array : ArrayRef) : ArrayRef :=
  { array with cells := r.segment array.cells }

/-- The answer for a range of rows is the answer for all rows, restricted to the range. -/
def Restricts (r : RowRange) : SaciResult (WriteSet T V) → SaciResult SliceWriteSet → Prop
  | .ok ws, .ok slice =>
    ∀ key, slice.fields.lookup key = (ws.fields.lookup key).map r.sliceArray
  | .error _, .error _ => True
  | _, _ => False

/-- A system sees no difference between a dataset and `data`. -/
def Near (m : SystemMeta T) (data d : Dataset (ResourceMap T V)) : Prop :=
  ∀ l ∈ m.readLocs data.schemas ∪ m.writeLocs data.schemas, look d l = look data l

/-- A parallel system whose answers depend only on what it declares, which writes only what it
declares and a value for each row, and whose slices, if it has any, are restrictions of what it
answers for all rows. -/
structure ParallelSystem.Honest (data : Dataset (ResourceMap T V)) (sys : ParallelSystem T V) :
    Prop where
  run_eq : ∀ d, Near sys.meta_ data d → sys.run d = sys.run data
  runSlice_eq : ∀ d, Near sys.meta_ data d → ∀ r, sys.runSlice d r = sys.runSlice data r
  fields : ∀ ws key array, sys.run data = .ok ws → ws.Writes key array →
    sys.meta_.WritesField data.schemas key
  length : ∀ ws key array, sys.run data = .ok ws → ws.Writes key array →
    array.cells.length = data.rowCount
  resources : ∀ ws update, sys.run data = .ok ws → update ∈ ws.resourceUpdates →
    update.resource ∈ sys.meta_.writesResources
  slices : (∀ r, sys.runSlice data r = none) ∨
    ∀ r, ∃ answer, sys.runSlice data r = some answer ∧ Restricts r (sys.run data) answer
  merge : sys.mergeSlices = mergeSlicesDefault

/-! ## Merging slices -/

section
variable {slices : List SliceWriteSet} {ranges : List RowRange} {ws : WriteSet T V}

/-- The slices of a write set, range by range. -/
def SlicesOf (ws : WriteSet T V) (ranges : List RowRange) (slices : List SliceWriteSet) : Prop :=
  List.Forall₂ (fun (r : RowRange) (slice : SliceWriteSet) => ∀ key,
    slice.fields.lookup key = (ws.fields.lookup key).map r.sliceArray) ranges slices

/-- The parts of an array, one after another. -/
def mergedArray (ranges : List RowRange) (array : ArrayRef) : ArrayRef :=
  { array with cells := ranges.flatMap fun r => r.segment array.cells }

theorem filterMap_lookup (h : SlicesOf ws ranges slices) {key : FieldAccess} {array : ArrayRef}
    (hkey : ws.fields.lookup key = some array) :
    slices.filterMap (fun slice => slice.fields.lookup key) =
      ranges.map fun r => r.sliceArray array := by
  induction h with
  | nil => rfl
  | @cons r slice ranges slices hslice _ ih =>
    rw [List.filterMap_cons, hslice key, hkey, Option.map_some, List.map_cons, ← ih]

theorem concatArrays_slices {array : ArrayRef} (hne : ranges ≠ []) :
    concatArrays (ranges.map fun r => r.sliceArray array) = .ok (mergedArray ranges array) := by
  obtain ⟨r, rest, rfl⟩ := List.exists_cons_of_ne_nil hne
  have hall : ((rest.map fun r => r.sliceArray array).all fun other =>
      other.dataType = (r.sliceArray array).dataType) = true := by
    rw [List.all_map, List.all_eq_true]
    exact fun _ _ => decide_eq_true rfl
  rw [List.map_cons, concatArrays, if_pos hall, List.flatMap_map]
  rfl

/-- The loop over the fields puts the merged array of each. -/
theorem foldlM_put (h : SlicesOf ws ranges slices) (hne : ranges ≠ []) (keys : List FieldAccess)
    (hkeys : ∀ key ∈ keys, (ws.fields.lookup key).isSome) (acc : WriteSet T V) :
    ∃ merged : WriteSet T V, keys.foldlM (fun (ws : WriteSet T V) key =>
        let arrays := slices.filterMap fun slice => slice.fields.lookup key
        if arrays.isEmpty then Except.ok ws
        else
          match concatArrays arrays with
          | .error e => .error (SaciError.generic s!"merge_slices concat error: {e}")
          | .ok merged => .ok (ws.put key merged)) acc = .ok merged ∧
      merged.resourceUpdates = acc.resourceUpdates ∧
      (∀ key ∈ keys,
        merged.fields.lookup key = (ws.fields.lookup key).map (mergedArray ranges)) ∧
      ∀ key, key ∉ keys → merged.fields.lookup key = acc.fields.lookup key := by
  induction keys generalizing acc with
  | nil => exact ⟨acc, rfl, rfl, fun key hkey => (nomatch hkey), fun key _ => rfl⟩
  | cons key keys ih =>
    obtain ⟨hkey, hrest⟩ := List.forall_mem_cons.mp hkeys
    obtain ⟨array, harray⟩ := Option.isSome_iff_exists.mp hkey
    obtain ⟨merged, hfold, hupdates, hin, hout⟩ := ih hrest (acc.put key (mergedArray ranges array))
    refine ⟨merged, ?_, hupdates, fun key' hkey' => ?_, fun key' hkey' => ?_⟩
    · rw [List.foldlM_cons, filterMap_lookup h harray]
      dsimp only
      rw [if_neg (by simpa using hne), concatArrays_slices hne]
      exact hfold
    · by_cases hmem : key' ∈ keys
      · exact hin key' hmem
      · obtain rfl : key' = key := (List.mem_cons.mp hkey').resolve_right hmem
        rw [hout key' hmem, harray]
        exact AList.lookup_insert _
    · rw [List.mem_cons, not_or] at hkey'
      rw [hout key' hkey'.2]
      exact AList.lookup_insert_ne hkey'.1

/-- The slices of a write set merge into its columns, each put together from its parts. -/
theorem mergeSlicesDefault_spec (h : SlicesOf ws ranges slices) (hne : ranges ≠ []) :
    ∃ merged : WriteSet T V, mergeSlicesDefault slices = .ok merged ∧
      merged.resourceUpdates = [] ∧
      ∀ key array, merged.Writes key array ↔
        ∃ whole, ws.Writes key whole ∧ array = mergedArray ranges whole := by
  obtain ⟨r, ranges', rfl⟩ := List.exists_cons_of_ne_nil hne
  obtain ⟨first, slices', hfirst, -, rfl⟩ := List.forall₂_cons_left_iff.mp h
  have hkeys : ∀ key, key ∈ first.fields.keys ↔ (ws.fields.lookup key).isSome := by
    intro key
    rw [← AList.mem_keys, ← AList.lookup_isSome, hfirst key, Option.isSome_map]
  obtain ⟨merged, hfold, hupdates, hin, hout⟩ :=
    foldlM_put h hne first.fields.keys (fun key hkey => (hkeys key).mp hkey) .new
  refine ⟨merged, hfold, hupdates, fun key array => ?_⟩
  simp only [WriteSet.writes_iff]
  by_cases hkey : key ∈ first.fields.keys
  · rw [hin key hkey, Option.map_eq_some_iff]
    simp only [eq_comm]
  · have hnone : ws.fields.lookup key = none := by
      rwa [hkeys, Bool.not_eq_true, Option.isSome_eq_false_iff, Option.isNone_iff_eq_none] at hkey
    rw [hout key hkey, hnone]
    simp [WriteSet.new]

end

/-! ## One attempt -/

section
variable {M : Machine} {sys : ParallelSystem T V} {data d : Dataset (ResourceMap T V)}
  {missing : String}

theorem Near.shape {m : SystemMeta T} (h : Near m data d) : d.shape = data.shape :=
  h .shape (.inl (.inl rfl))

theorem Near.rows {m : SystemMeta T} (h : Near m data d) : d.rows = data.rows :=
  congrArg Shape.rowCount h.shape

/-- A system answers the same where it sees no difference. -/
theorem ParallelSystem.Honest.attempt_eq (hsys : sys.Honest data) (h : Near sys.meta_ data d) :
    sys.attempt M missing d = sys.attempt M missing data := by
  have huse : useSlices sys d = useSlices sys data := by
    rw [useSlices, useSlices, h.rows, hsys.runSlice_eq d h]
  have hslices : sliceOf sys missing d = sliceOf sys missing data := by
    funext r
    rw [sliceOf, sliceOf, hsys.runSlice_eq d h]
  rw [attempt, attempt, huse, runSliced, runSliced, hslices, h.rows, hsys.run_eq d h]

theorem computeRowRanges_ne_nil {t : Nat} (ht : 0 < t) (hlt : t < U32_SIZE) :
    computeRowRanges M t ≠ [] := by
  have hsize : 0 < M.chunkSize t := by
    refine Nat.pos_of_ne_zero fun hzero => ?_
    have := M.le_mul_chunkSize t
    rw [hzero, Nat.mul_zero] at this
    omega
  have hstop : asU32 ((0 + 1) * M.chunkSize t) = M.chunkSize t := by
    rw [Nat.zero_add, Nat.one_mul]
    exact Nat.mod_eq_of_lt ((M.chunkSize_le t).trans_lt hlt)
  refine List.ne_nil_of_mem (a := rangeAt M t 0) ?_
  rw [computeRowRanges, List.mem_filter]
  refine ⟨List.mem_map.mpr ⟨0, List.mem_range.mpr (M.numChunks_pos t), rfl⟩, ?_⟩
  have hstart : asU32 (0 * M.chunkSize t) = 0 := by rw [Nat.zero_mul]; rfl
  rw [rangeAt, hstart, hstop]
  exact decide_eq_true (lt_min hsize ht)

/-- The rows that a system run in slices has. -/
theorem rows_of_useSlices (h : useSlices sys data = true) :
    0 < asU32 data.rows ∧ asU32 data.rows < U32_SIZE := by
  have h := (of_decide_eq_true h).1
  have hlt : asU32 data.rows < U32_SIZE := Nat.mod_lt _ (by decide)
  rw [SLICE_PARALLEL_THRESHOLD] at h
  exact ⟨by omega, hlt⟩

/-- What an attempt makes of a column that the system writes. -/
def attemptArray (M : Machine) (sys : ParallelSystem T V) (data : Dataset (ResourceMap T V))
    (array : ArrayRef) : ArrayRef :=
  if useSlices sys data then mergedArray (computeRowRanges M (asU32 data.rows)) array else array

theorem ParallelSystem.Honest.attempt_eq_ok (hsys : sys.Honest data) (M : Machine)
    {ws : WriteSet T V} (hrun : sys.run data = .ok ws) :
    ∃ answer : WriteSet T V, (∀ missing, sys.attempt M missing data = .ok answer) ∧
      (∀ update ∈ answer.resourceUpdates, update ∈ ws.resourceUpdates) ∧
      ∀ key array, answer.Writes key array ↔
        ∃ whole, ws.Writes key whole ∧ array = attemptArray M sys data whole := by
  by_cases huse : useSlices sys data = true
  · have hslices : ∀ r, ∃ slice : SliceWriteSet, sys.runSlice data r = some (.ok slice) ∧
        ∀ key, slice.fields.lookup key = (ws.fields.lookup key).map r.sliceArray := by
      intro r
      rcases hsys.slices with hnone | hsome
      · have hprobe := (of_decide_eq_true huse).2
        rw [hnone] at hprobe
        cases hprobe
      · obtain ⟨answer, hanswer, hrestricts⟩ := hsome r
        rw [hrun] at hrestricts
        rcases answer with e | slice
        · exact hrestricts.elim
        · exact ⟨slice, hanswer, hrestricts⟩
    obtain ⟨slices, hall⟩ := exists_forall₂ (l := computeRowRanges M (asU32 data.rows))
      fun r _ => hslices r
    obtain ⟨hpos, hlt⟩ := rows_of_useSlices huse
    obtain ⟨merged, hmerged, hupdates, hwrites⟩ := mergeSlicesDefault_spec
      (hall.imp fun r slice h => h.2) (computeRowRanges_ne_nil hpos hlt)
    refine ⟨merged, fun missing => ?_, fun update hupdate => ?_, fun key array => ?_⟩
    · rw [attempt, if_pos huse, runSliced, mapM_eq_ok_of_forall₂ (hall.imp fun r slice h => ?_),
        ok_bind, hsys.merge, hmerged]
      rw [sliceOf, h.1, Option.getD_some]
    · rw [hupdates] at hupdate
      cases hupdate
    · rw [hwrites]
      simp only [attemptArray, if_pos huse]
  · refine ⟨ws, fun missing => ?_, fun update hupdate => hupdate, fun key array => ?_⟩
    · rw [attempt, if_neg huse, hrun]
    · simp [attemptArray, huse]

theorem ParallelSystem.Honest.attempt_eq_error (hsys : sys.Honest data) {e : SaciError}
    (hrun : sys.run data = .error e) : ∃ e', sys.attempt M missing data = .error e' := by
  by_cases huse : useSlices sys data = true
  · have hslices : ∀ r, ∃ e', sliceOf sys missing data r = .error e' := by
      intro r
      rcases hsys.slices with hnone | hsome
      · exact ⟨_, by rw [sliceOf, hnone, Option.getD_none]⟩
      · obtain ⟨answer, hanswer, hrestricts⟩ := hsome r
        rw [hrun] at hrestricts
        rcases answer with e' | slice
        · exact ⟨e', by rw [sliceOf, hanswer, Option.getD_some]⟩
        · exact hrestricts.elim
    obtain ⟨hpos, hlt⟩ := rows_of_useSlices huse
    obtain ⟨r, rest, hranges⟩ :=
      List.exists_cons_of_ne_nil (computeRowRanges_ne_nil (M := M) hpos hlt)
    obtain ⟨e', he'⟩ := hslices r
    refine ⟨e', ?_⟩
    rw [attempt, if_pos huse, runSliced, hranges, List.mapM_cons, he']
    rfl
  · exact ⟨e, by rw [attempt, if_neg huse, hrun]⟩

/-- Retries of what leaves the state as it is: they answer what one attempt answers. -/
theorem retryLoop_readonly {S α : Type} (g : S → SaciResult α) (left attempt : Nat) (s : S) :
    (∀ value, g s = .ok value → (retryLoop (fun s => (s, g s)) left attempt s).2 =
        .ok (value, attempt)) ∧
      ∀ e, g s = .error e →
        ∃ e', (retryLoop (fun s => (s, g s)) left attempt s).2 = .error e' := by
  refine ⟨fun value hg => ?_, fun e hg => ?_⟩
  · rw [retryLoop, hg]
  · induction left generalizing attempt with
    | zero => exact ⟨_, by rw [retryLoop, hg]⟩
    | succ left ih =>
      obtain ⟨e', he'⟩ := ih (attempt + 1)
      exact ⟨e', by rw [retryLoop, hg]; exact he'⟩

theorem retryParallel_eq_ok_iff {config : SystemConfig} {answer : WriteSet T V} {n : Nat} :
    retryParallel M sys missing config data = .ok (answer, n) ↔
      sys.attempt M missing data = .ok answer ∧ n = 0 := by
  obtain ⟨hok, herror⟩ := retryLoop_readonly (sys.attempt M missing)
    (config.retryMode.maxAttempts - 1) 0 data
  rw [retryParallel, runWithRetries]
  rcases hattempt : sys.attempt M missing data with e | answer'
  · obtain ⟨e', he'⟩ := herror e hattempt
    rw [he']
    simp
  · rw [hok answer' hattempt]
    simp [eq_comm]

end

/-! ## Systems of a stage -/

section
variable {M : Machine} {systems : List (SystemEntry T V)}
  {configs : List SystemConfig} {data d d' : Dataset (ResourceMap T V)} {i : Nat}

/-- The system at an index is a parallel one, with its configuration. -/
def TaskAt (systems : List (SystemEntry T V)) (configs : List SystemConfig) (i : Nat)
    (sys : ParallelSystem T V) (config : SystemConfig) : Prop :=
  systems[i]? = some (.parallel sys) ∧ configs[i]? = some config

theorem runSystem_eq_ok_iff [DecidableEq T] {sys : ParallelSystem T V} {config : SystemConfig}
    (h : TaskAt systems configs i sys config) {counts : Nat × Nat} :
    runSystem M systems configs i d = (d', .ok counts) ↔
      ∃ answer, sys.attempt M loopSliceNone d = .ok answer ∧
        d.applyWriteSet answer = (d', .ok ()) ∧ counts = (1, 0) := by
  simp only [runSystem, h.1, h.2, runParallelSystemWithRetries]
  rcases hretry : retryParallel M sys loopSliceNone config d with e | ⟨answer, n⟩
  · have hnone : ∀ answer, sys.attempt M loopSliceNone d ≠ .ok answer := by
      intro answer hanswer
      have hok : retryParallel M sys loopSliceNone config d = .ok (answer, 0) :=
        retryParallel_eq_ok_iff.mpr ⟨hanswer, rfl⟩
      rw [hretry] at hok
      cases hok
    simp [hnone]
  · obtain ⟨hanswer, rfl⟩ := retryParallel_eq_ok_iff.mp hretry
    rcases happly : d.applyWriteSet answer with ⟨applied, e | ⟨⟩⟩
    · simp [hanswer, happly]
    · simp [hanswer, happly, eq_comm]

/-! ## Merging write sets -/

theorem lookup_foldl_insert {entries : List (Sigma fun _ : FieldAccess => ArrayRef)}
    (hkeys : (entries.map Sigma.fst).Nodup) (acc : FieldMap) :
    (∀ e ∈ entries, (entries.foldl (fun fields e => fields.insert e.1 e.2) acc).lookup e.1 =
        some e.2) ∧
      ∀ key, key ∉ entries.map Sigma.fst →
        (entries.foldl (fun fields e => fields.insert e.1 e.2) acc).lookup key =
          acc.lookup key := by
  induction entries generalizing acc with
  | nil => exact ⟨fun _ he => (nomatch he), fun _ _ => rfl⟩
  | cons e entries ih =>
    obtain ⟨hnot, hrest⟩ := List.nodup_cons.mp hkeys
    obtain ⟨hin, hout⟩ := ih hrest (acc.insert e.1 e.2)
    refine ⟨List.forall_mem_cons.mpr ⟨?_, hin⟩, fun key hkey => ?_⟩
    · rw [List.foldl_cons, hout e.1 hnot]
      exact AList.lookup_insert _
    · rw [List.map_cons, List.mem_cons, not_or] at hkey
      rw [List.foldl_cons, hout key hkey.2]
      exact AList.lookup_insert_ne hkey.1

/-- No field is written by two of the write sets. -/
def DisjointWrites (a b : WriteSet T V) : Prop :=
  ∀ key array array', a.Writes key array → ¬ b.Writes key array'

/-- The merged write set writes what any of them writes. -/
theorem mergeWriteSets_writes {answers : List (WriteSet T V)}
    (h : answers.Pairwise DisjointWrites) {key : FieldAccess} {array : ArrayRef} :
    (mergeWriteSets answers).Writes key array ↔ ∃ ws ∈ answers, ws.Writes key array := by
  induction answers using List.reverseRecOn generalizing array with
  | nil => simp [mergeWriteSets, WriteSet.writes_iff, WriteSet.new]
  | append_singleton answers ws ih =>
    obtain ⟨hall, -, hcross⟩ := List.pairwise_append.mp h
    obtain ⟨hin, hout⟩ := lookup_foldl_insert ws.fields.nodupKeys (mergeWriteSets answers).fields
    have hmerged : (mergeWriteSets (answers ++ [ws])).fields =
        ws.fields.entries.foldl (fun fields e => fields.insert e.1 e.2)
          (mergeWriteSets answers).fields := by
      rw [mergeWriteSets, List.foldl_append]
      rfl
    rw [WriteSet.writes_iff, hmerged]
    by_cases hkey : ∃ last, ws.Writes key last
    · obtain ⟨last, hlast⟩ := hkey
      rw [hin ⟨key, last⟩ hlast]
      constructor
      · intro heq
        cases heq
        exact ⟨ws, List.mem_append_right _ (List.mem_singleton_self ws), hlast⟩
      · rintro ⟨ws', hmem, hwrites⟩
        rcases List.mem_append.mp hmem with hmem | hmem
        · exact absurd hlast
            (hcross ws' hmem ws (List.mem_singleton_self ws) key array last hwrites)
        · cases List.mem_singleton.mp hmem
          exact (WriteSet.writes_iff.mp hlast).symm.trans (WriteSet.writes_iff.mp hwrites)
    · have hnot : key ∉ ws.fields.entries.map Sigma.fst := by
        intro hmem
        obtain ⟨e, he, rfl⟩ := List.mem_map.mp hmem
        exact hkey ⟨e.2, he⟩
      rw [hout key hnot, ← WriteSet.writes_iff, ih hall]
      constructor
      · rintro ⟨ws', hmem, hwrites⟩
        exact ⟨ws', List.mem_append_left _ hmem, hwrites⟩
      · rintro ⟨ws', hmem, hwrites⟩
        rcases List.mem_append.mp hmem with hmem | hmem
        · exact ⟨ws', hmem, hwrites⟩
        · cases List.mem_singleton.mp hmem
          exact absurd ⟨array, hwrites⟩ hkey

end
end Saci
