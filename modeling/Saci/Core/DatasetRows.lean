import Saci.Core.ApplyWriteSet

/-!
# The rows of a component

What marking rows dead, an append and a compaction do to the rows of one component of a dataset. The
liveness is by position, and all of the components share it.
-/

namespace Saci

/-! ## Rows under a mask -/

namespace RecordBatch
variable {α : Type}

theorem maskFilter_sublist (mask : List Bool) (rows : List α) : (maskFilter mask rows).Sublist rows := by
  induction mask, rows using maskFilter.induct with
  | case1 mask row rows ih => exact ih.cons_cons row
  | case2 mask row rows ih => exact ih.cons row
  | case3 mask rows =>
    unfold maskFilter
    split <;> simp_all

/-- A mask keeps all of the rows when their bits are all set. -/
theorem length_maskFilter_eq_iff {mask : List Bool} {rows : List α} :
    (maskFilter mask rows).length = rows.length ↔ ∀ i < rows.length, mask.getD i false = true := by
  induction rows generalizing mask with
  | nil =>
    have hnil : maskFilter mask ([] : List α) = [] := List.sublist_nil.mp (maskFilter_sublist mask [])
    rw [hnil]
    exact iff_of_true rfl nofun
  | cons row rows ih =>
    rw [List.length_cons, Nat.forall_lt_succ_left]
    cases mask with
    | nil => exact iff_of_false (Nat.succ_ne_zero _).symm fun h => Bool.false_ne_true h.1
    | cons bit mask =>
      cases bit with
      | true =>
        rw [maskFilter, List.length_cons, Nat.succ_inj, ih]
        exact (and_iff_right rfl).symm
      | false =>
        refine iff_of_false (fun h => ?_) fun h => Bool.false_ne_true h.1
        have hle : (maskFilter mask rows).length ≤ rows.length := (maskFilter_sublist mask rows).length_le
        rw [maskFilter] at h
        omega

end RecordBatch

/-! ## Chunks -/

namespace Registered
variable {entry : Registered} {chunk : RecordBatch}

theorem rows_merged : entry.merged.rows = entry.chunks.flatMap RecordBatch.rows := by
  rw [merged]
  split
  · rename_i chunk hchunks
    rw [hchunks, List.flatMap_singleton]
  · rfl

theorem merged_pushChunk : (entry.pushChunk chunk).merged =
    { entry with chunks := entry.chunks ++ [chunk] }.merged := by
  rw [pushChunk]
  dsimp only
  split_ifs
  · exact merged_compactChunks
  · rfl

/-- A pushed chunk is read after those before it. -/
theorem rows_merged_pushChunk : (entry.pushChunk chunk).merged.rows = entry.merged.rows ++ chunk.rows := by
  rw [merged_pushChunk, rows_merged, rows_merged, List.flatMap_append, List.flatMap_singleton]

theorem schema_merged_pushChunk (h : chunk.schema = entry.schema) :
    (entry.pushChunk chunk).merged.schema = entry.schema := by
  rw [merged_pushChunk, merged]
  dsimp only
  split
  · rename_i other hchunks
    rcases hentry : entry.chunks with _ | ⟨first, rest⟩
    · rw [hentry] at hchunks
      cases hchunks
      exact h
    · rw [hentry] at hchunks
      exact absurd (congrArg List.length hchunks) (by simp)
  · rfl

end Registered

/-! ## Liveness -/

namespace Dataset
variable {R : Type} {data data' : Dataset R} {name : String}

/-- The liveness of a dataset is that of the rows of its components. -/
structure Counted (data : Dataset R) : Prop where
  alive : data.alive.length = data.rowCount
  dead : data.deadCount = data.alive.count false
  rows : ∀ entry ∈ data.components, entry.numRows ≤ data.rowCount

/-- None of the first `n` rows is dead. -/
def AllAlive (data : Dataset R) (n : Nat) : Prop := ∀ i < data.rowCount, i < n → data.isAlive i = true

theorem Counted.allAlive (h : data.Counted) (hdead : data.deadCount = 0) (n : Nat) : data.AllAlive n := by
  intro i hi _
  rw [← h.alive] at hi
  rw [isAlive, List.getD_eq_getElem?_getD, List.getElem?_eq_getElem hi, Option.getD_some]
  refine Bool.of_not_eq_false fun hfalse => ?_
  have hmem : false ∈ data.alive := hfalse ▸ List.getElem_mem hi
  exact (List.count_pos_iff.mpr hmem).ne' (h.dead.symm.trans hdead)

/-- What marking rows dead leaves. -/
structure MarkedDead (data data' : Dataset R) : Prop where
  components : data'.components = data.components
  rowCount : data'.rowCount = data.rowCount
  length : data'.alive.length = data.alive.length
  alive : ∀ i, data'.isAlive i = true → data.isAlive i = true
  deadCount : data.deadCount ≤ data'.deadCount

theorem markedDead_markDead (data : Dataset R) (row : Nat) : MarkedDead data (data.markDead row) := by
  rw [markDead]
  split_ifs with halive
  · refine ⟨rfl, rfl, List.length_set, fun i hi => ?_, Nat.le_succ _⟩
    rw [isAlive, List.getD_eq_getElem?_getD] at hi ⊢
    by_cases hrow : row = i
    · rw [hrow] at halive
      rwa [isAlive, List.getD_eq_getElem?_getD] at halive
    · rwa [List.getElem?_set_ne hrow] at hi
  · exact ⟨rfl, rfl, rfl, fun _ => id, le_refl _⟩

theorem markedDead_foldl (data : Dataset R) (dead : List Nat) :
    MarkedDead data (dead.foldl markDead data) := by
  induction dead generalizing data with
  | nil => exact ⟨rfl, rfl, rfl, fun _ => id, le_refl _⟩
  | cons row dead ih =>
    have hstep := markedDead_markDead data row
    have hrest := ih (data.markDead row)
    exact ⟨hrest.components.trans hstep.components, hrest.rowCount.trans hstep.rowCount,
      hrest.length.trans hstep.length, fun i hi => hstep.alive i (hrest.alive i hi),
      hstep.deadCount.trans hrest.deadCount⟩

theorem components_extendTo (data : Dataset R) (oldLen n : Nat) :
    (data.extendTo oldLen n).1.components = data.components := by
  rw [extendTo]
  split_ifs <;> rfl

theorem deadCount_extendTo (data : Dataset R) (oldLen n : Nat) :
    (data.extendTo oldLen n).1.deadCount = data.deadCount := by
  rw [extendTo]
  split_ifs <;> rfl

/-- The rows that an append adds to a dataset are alive. -/
theorem isAlive_extendTo {oldLen n i : Nat} (h : data.alive.length = data.rowCount) (hi : i < oldLen + n) :
    (data.extendTo oldLen n).1.isAlive i = if i < data.rowCount then data.isAlive i else true := by
  rw [extendTo]
  dsimp only
  by_cases hlt : data.rowCount < oldLen + n
  · rw [if_pos hlt, isAlive, isAlive, List.getD_eq_getElem?_getD, List.getD_eq_getElem?_getD]
    by_cases hrow : i < data.rowCount
    · rw [if_pos hrow, List.getElem?_append_left (h ▸ hrow)]
    · rw [if_neg hrow, List.getElem?_append_right (by omega), List.getElem?_replicate, if_pos (by omega),
        Option.getD_some]
  · rw [if_neg hlt, if_pos (by omega)]

/-- What an append leaves of the component that it is for, and of the liveness. -/
theorem append_spec {V : Type} {schema : Schema} {toRow : V → List Cell} {values : List V}
    {range : UInt32 × UInt32} {batch : RecordBatch} (hbatch : data.batchFor name = some batch)
    (hlength : data.alive.length = data.rowCount) (hvalues : values ≠ [])
    (h : data.append (fun rows => .ok ⟨schema, rows.map toRow⟩) name values = .ok (data', range)) :
    data'.batchFor name = some ⟨schema, batch.rows ++ values.map toRow⟩ ∧
      data'.deadCount = data.deadCount ∧
      ∀ i < batch.numRows + values.length,
        data'.isAlive i = if i < data.rowCount then data.isAlive i else true := by
  rw [batchFor, Option.map_eq_some_iff] at hbatch
  obtain ⟨entry, hfind, rfl⟩ := hbatch
  rw [append, hfind] at h
  dsimp only at h
  rw [if_neg fun hempty => hvalues (List.isEmpty_iff.mp hempty)] at h
  obtain ⟨_, hok, h⟩ := bind_eq_ok_iff.mp h
  cases hok
  split_ifs at h with hschema
  have hschema : schema = entry.schema := congrArg Schema.mk (not_not.mp hschema)
  obtain rfl := congrArg Prod.fst (Except.ok.inj h)
  have hmodify : (data.modify name fun entry => entry.pushChunk ⟨schema, values.map toRow⟩).find name =
      some (entry.pushChunk ⟨schema, values.map toRow⟩) := by
    rw [find_modify, if_pos rfl, hfind]
    · rfl
    · intro entry
      rw [Registered.pushChunk]
      dsimp only
      split_ifs
      · rw [Registered.compactChunks]
        split_ifs <;> rfl
      · rfl
  have hmerged : (entry.pushChunk ⟨schema, values.map toRow⟩).merged =
      ⟨schema, entry.merged.rows ++ values.map toRow⟩ := by
    rw [RecordBatch.mk.injEq]
    exact ⟨(Registered.schema_merged_pushChunk hschema).trans hschema.symm, Registered.rows_merged_pushChunk⟩
  rw [Registered.numRows_merged]
  have hpushed : (data.modify name fun entry => entry.pushChunk ⟨schema, values.map toRow⟩).batchFor name =
      some ⟨schema, entry.merged.rows ++ values.map toRow⟩ := by
    rw [batchFor, hmodify, Option.map_some, hmerged]
  refine ⟨?_, ?_, fun i hi => ?_⟩
  · rw [batchFor, find, components_extendTo]
    exact hpushed
  · exact deadCount_extendTo _ _ _
  · exact isAlive_extendTo hlength hi

theorem find_filterEntries {mask : List Bool} {entries entries' : List Registered}
    (h : filterEntries mask entries = (entries', .ok ())) :
    (entries'.find? fun entry => entry.name = name).map Registered.merged =
      (entries.find? fun entry => entry.name = name).map fun entry =>
        ⟨entry.merged.schema, RecordBatch.maskFilter mask entry.merged.rows⟩ := by
  induction entries generalizing entries' with
  | nil =>
    cases h
    rfl
  | cons entry entries ih =>
    rw [filterEntries] at h
    split at h
    · cases h
    · rename_i batch hfilter
      cases hrest : filterEntries mask entries with
      | mk rest result =>
        rw [hrest] at h
        cases h
        rw [RecordBatch.filter] at hfilter
        split_ifs at hfilter
        cases hfilter
        rw [List.find?_cons, List.find?_cons]
        dsimp only
        cases decide (entry.name = name) with
        | true => rfl
        | false => exact ih hrest

/-- A compaction that succeeds filters every component by the liveness, where a row is dead. -/
theorem batchFor_compact (name : String) (h : data.compact = (data', .ok ())) (hdead : data.deadCount ≠ 0) :
    data'.batchFor name = (data.batchFor name).map fun batch =>
      ⟨batch.schema, RecordBatch.maskFilter data.alive batch.rows⟩ := by
  rw [compact, if_neg hdead] at h
  dsimp only at h
  split at h
  · cases h
  · rename_i components hfilter
    cases h
    have hname : ∀ entry : Registered, entry.compactChunks.name = entry.name := fun entry => by
      rw [Registered.compactChunks]
      split_ifs <;> rfl
    rw [batchFor, find, find_filterEntries hfilter, List.find?_map, Option.map_map, batchFor, find, Option.map_map]
    have hfind : ((fun entry : Registered => decide (entry.name = name)) ∘ Registered.compactChunks) =
        fun entry => decide (entry.name = name) := funext fun entry => by rw [Function.comp_apply, hname]
    rw [hfind]
    refine congrArg (fun f => Option.map f _) (funext fun entry => ?_)
    rw [Function.comp_apply, Function.comp_apply, Registered.merged_compactChunks]

end Dataset
end Saci
