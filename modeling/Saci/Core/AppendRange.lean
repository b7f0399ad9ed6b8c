import Saci.Core.DatasetForward

/-!
# The row range that an append answers

`append` and `append_record_batch` put the new rows behind those of the component, and answer a
range that starts at the row count of the dataset when that grows (`saci-core/src/dataset/append.rs`).
`appends_iff` says when the range is where the rows are. The 16th chunk is pushed before the merge
that may be refused.
-/

namespace Saci

variable {R : Type} {refuses : Schema → List RecordBatch → Option String} {ds : CachedDataset R}
  {entry : Registered} {name : String} {batch : RecordBatch}

/-- The range has a position for each row, and the component has the rows there. -/
def HeldAt (rows added : List (List Cell)) (range : UInt32 × UInt32) : Prop :=
  range.1.toNat + added.length = range.2.toNat ∧
    (rows.drop range.1.toNat).take added.length = added

/-- What an append promises: the rows are at the range it answers, or nothing has changed. -/
def AppendLaw (ds : CachedDataset R) (name : String) (added : List (List Cell)) :
    CachedDataset R × SaciResult (UInt32 × UInt32) → Prop
  | (after, .ok range) => ∃ rows, after.data.rowsOf name = some rows ∧ HeldAt rows added range
  | (after, .error _) => after = ds

/-- The rows go where the range is put: the component is as long as the dataset or the rows fit
below its row count, and the positions are 32 bits. Past the 32 bits the range is that of older
rows, which may happen to be the same ones. -/
def InPlace (data : Dataset R) (entry : Registered) (added : List (List Cell)) : Prop :=
  (entry.numRows = data.rowCount ∨ entry.numRows + added.length ≤ data.rowCount) ∧
    entry.numRows % 2 ^ 32 + added.length < 2 ^ 32 ∧
    (2 ^ 32 ≤ entry.numRows →
      (entry.merged.rows.drop (entry.numRows % 2 ^ 32)).take added.length = added)

/-- The rows a conversion makes of values. -/
def Conversion.rows {V : Type} (conversion : Conversion V) (values : List V) : List (List Cell) :=
  match conversion.toRecordBatch values with
  | .ok batch => batch.rows
  | .error _ => []

namespace Dataset

theorem range_extendTo (data : Dataset R) (oldLen n : Nat) :
    (data.extendTo oldLen n).2 =
      (UInt32.ofNat (if data.rowCount < oldLen + n then data.rowCount else oldLen),
        UInt32.ofNat (oldLen + n)) := by
  rw [extendTo]
  dsimp only
  split_ifs <;> rfl

theorem rowsOf_of_find {data : Dataset R} (h : data.find name = some entry) :
    data.rowsOf name = some entry.merged.rows := by
  rw [rowsOf, batchFor, h]
  rfl

end Dataset

/-- The range is where the rows are exactly if they go in place. -/
theorem heldAt_iff {data : Dataset R} {added : List (List Cell)}
    (hle : entry.numRows ≤ data.rowCount) (hne : added ≠ []) :
    HeldAt (entry.merged.rows ++ added) added (data.extendTo entry.numRows added.length).2 ↔
      InPlace data entry added := by
  have hlen : entry.merged.rows.length = entry.numRows := Registered.numRows_merged
  have hpos : 0 < added.length := List.length_pos_iff.mpr hne
  rw [Dataset.range_extendTo, HeldAt, InPlace, UInt32.toNat_ofNat', UInt32.toNat_ofNat']
  -- both are about the same start, which is that of the component
  have hstart : (entry.numRows = data.rowCount ∨ entry.numRows + added.length ≤ data.rowCount) →
      (if data.rowCount < entry.numRows + added.length then data.rowCount else entry.numRows) =
        entry.numRows := by
    intro h
    split_ifs <;> omega
  have hplaced : entry.numRows < 2 ^ 32 → ((entry.merged.rows ++ added).drop
      (entry.numRows % 2 ^ 32)).take added.length = added := by
    intro hlt
    rw [Nat.mod_eq_of_lt hlt, List.drop_left' hlen, List.take_length]
  have holder : 2 ^ 32 ≤ entry.numRows → entry.numRows % 2 ^ 32 + added.length < 2 ^ 32 →
      ((entry.merged.rows ++ added).drop (entry.numRows % 2 ^ 32)).take added.length =
        (entry.merged.rows.drop (entry.numRows % 2 ^ 32)).take added.length := by
    intro hge hfit
    rw [List.drop_append_of_le_length (by omega),
      List.take_append_of_le_length (by rw [List.length_drop]; omega)]
  constructor
  · rintro ⟨hrange, hrows⟩
    have hside : entry.numRows = data.rowCount ∨
        entry.numRows + added.length ≤ data.rowCount := by
      by_contra hnot
      rw [if_pos (by omega)] at hrange
      omega
    rw [hstart hside] at hrange hrows
    have hfit : entry.numRows % 2 ^ 32 + added.length < 2 ^ 32 := by omega
    exact ⟨hside, hfit, fun hge => (holder hge hfit).symm.trans hrows⟩
  · rintro ⟨hside, hfit, hsame⟩
    rw [hstart hside]
    refine ⟨by omega, ?_⟩
    rcases Nat.lt_or_ge entry.numRows (2 ^ 32) with hlt | hge
    · exact hplaced hlt
    · exact (holder hge hfit).trans (hsame hge)

/-- The chunk that is pushed before the refused merge stays. -/
theorem modify_pushed_ne {entry₀ : Registered} (hfind : ds.data.find name = some entry₀)
    (hname : entry.name = name) (hrows : entry.merged.rows = entry₀.merged.rows)
    (hne : batch.numRows ≠ 0) :
    ({ ds with data := ds.data.modify entry.name fun _ => CachedDataset.pushed entry batch } :
      CachedDataset R) ≠ ds := by
  intro hsame
  have hpushed : (ds.data.modify name fun _ => CachedDataset.pushed entry batch).rowsOf name =
      some (entry₀.merged.rows ++ batch.rows) := by
    refine Dataset.rowsOf_modify hfind (fun _ _ => hname) ?_
    rw [Registered.rows_merged_pushed, hrows]
  have hdata := congrArg (fun ds => ds.data.rowsOf name) hsame
  rw [hname] at hdata
  have hgrown := Option.some.inj
    (hpushed.symm.trans (hdata.trans (Dataset.rowsOf_of_find hfind)))
  exact hne (congrArg List.length (List.append_right_eq_self.mp hgrown))

/-- What a push of a batch with rows promises. -/
theorem pushBatch_law_iff {entry₀ : Registered} (hfind : ds.data.find name = some entry₀)
    (hname : entry.name = name) (hrows : entry.merged.rows = entry₀.merged.rows)
    (hle : entry.numRows ≤ ds.data.rowCount) (hne : batch.numRows ≠ 0) :
    AppendLaw ds name batch.rows (ds.pushBatch refuses entry batch batch.numRows) ↔
      ¬CachedDataset.PushRefused refuses entry batch ∧ InPlace ds.data entry batch.rows := by
  rcases @CachedDataset.pushBatch_cases refuses R ds entry batch batch.numRows with
    ⟨hrefused, e, hpush⟩ | ⟨hmerges, hpush⟩
  · rw [hpush]
    exact ⟨fun hsame => absurd hsame (modify_pushed_ne hfind hname hrows hne),
      fun h => absurd hrefused h.1⟩
  · rw [hpush, ← heldAt_iff hle (fun hnil => hne (congrArg List.length hnil))]
    have hflushed := @CachedDataset.flushed_pushChunk entry batch
    have hafter : (((ds.data.modify entry.name fun _ => entry.pushChunk batch).extendTo
        entry.numRows batch.numRows).1).rowsOf name = some (entry.merged.rows ++ batch.rows) := by
      rw [Dataset.rowsOf, Dataset.batchFor, Dataset.find, Dataset.components_extendTo, hname, hrows]
      refine Dataset.rowsOf_modify hfind (fun _ _ => hflushed.name.trans hname) ?_
      rw [hflushed.merged_eq, ← hrows]
      exact Registered.rows_merged_pushed batch
    have hrange : ((ds.data.modify entry.name fun _ => entry.pushChunk batch).extendTo
        entry.numRows batch.numRows).2 = (ds.data.extendTo entry.numRows batch.numRows).2 := by
      rw [Dataset.range_extendTo, Dataset.range_extendTo]
      rfl
    rw [hrange]
    constructor
    · rintro ⟨rows, hheld, hat⟩
      obtain rfl := Option.some.inj (hafter.symm.trans hheld)
      exact ⟨hmerges, hat⟩
    · rintro ⟨-, hat⟩
      exact ⟨_, hafter, hat⟩

/-- An empty range holds no rows. -/
theorem heldAt_nil (rows : List (List Cell)) (n : Nat) :
    HeldAt rows [] (UInt32.ofNat n, UInt32.ofNat n) :=
  ⟨rfl, List.take_zero⟩

/-- What an append of a batch asks for: its merge is not refused and it goes in place. -/
def PushesInPlace (refuses : Schema → List RecordBatch → Option String) (data : Dataset R)
    (entry : Registered) (batch : RecordBatch) : Prop :=
  batch.numRows ≠ 0 → batch.schema.fields = entry.schema.fields →
    ¬CachedDataset.PushRefused refuses entry batch ∧ InPlace data entry batch.rows

theorem appendRecordBatch_law_iff (h : ds.data.Aligned) :
    AppendLaw ds name batch.rows (ds.appendRecordBatch refuses name batch) ↔
      ∀ entry, ds.data.find name = some entry →
        PushesInPlace refuses ds.data entry.dropSentinel batch := by
  rw [CachedDataset.appendRecordBatch]
  cases hfind : ds.data.find name with
  | none => exact iff_of_true rfl (by rintro _ ⟨⟩)
  | some entry =>
    have hshape := @Registered.shapeOf_dropSentinel entry
    have hname : entry.dropSentinel.name = name :=
      (congrArg (·.1) hshape).trans (Dataset.mem_of_find hfind).2
    have hschema : entry.dropSentinel.schema = entry.schema := congrArg (·.2.2.1) hshape
    have hle : entry.dropSentinel.numRows ≤ ds.data.rowCount := by
      rw [Registered.numRows_dropSentinel]
      exact h.rows entry (Dataset.mem_of_find hfind).1
    simp only [Option.some.injEq, forall_eq', PushesInPlace, hschema]
    by_cases hempty : batch.numRows = 0
    · rw [if_pos hempty]
      refine iff_of_true ⟨_, Dataset.rowsOf_of_find hfind, ?_⟩ (fun hne => absurd hempty hne)
      rw [List.length_eq_zero_iff.mp hempty]
      exact heldAt_nil _ _
    rw [if_neg hempty]
    by_cases hfields : batch.schema.fields = entry.schema.fields
    · rw [if_neg (not_not.mpr hfields),
        pushBatch_law_iff hfind hname Registered.rows_merged_dropSentinel hle hempty]
      exact ⟨fun hplaced _ _ => hplaced, fun hplaced => hplaced hempty hfields⟩
    · rw [if_pos hfields]
      exact iff_of_true rfl fun _ hsame => absurd hsame hfields

theorem append_law_iff {V : Type} {conversion : Conversion V} {values : List V}
    (h : ds.data.Aligned) :
    AppendLaw ds name (conversion.rows values)
        (ds.append refuses conversion name values) ↔
      ∀ entry, ds.data.find name = some entry → ∀ batch,
        conversion.toRecordBatch values = .ok batch →
          PushesInPlace refuses ds.data entry batch := by
  rw [CachedDataset.append]
  cases hfind : ds.data.find name with
  | none => exact iff_of_true rfl (by rintro _ ⟨⟩)
  | some entry =>
    have hmem := Dataset.mem_of_find hfind
    simp only [Option.some.injEq, forall_eq', PushesInPlace, Conversion.rows]
    by_cases hempty : values.isEmpty
    · rw [if_pos hempty]
      have hrows : ∀ batch, conversion.toRecordBatch values = .ok batch → batch.numRows = 0 :=
        fun batch hbatch => (conversion.numRows_eq values batch hbatch).trans
          (congrArg List.length (List.isEmpty_iff.mp hempty))
      refine iff_of_true ⟨_, Dataset.rowsOf_of_find hfind, ?_⟩
        fun batch hbatch hne => absurd (hrows batch hbatch) hne
      cases hbatch : conversion.toRecordBatch values with
      | error e => exact heldAt_nil _ _
      | ok batch =>
        dsimp only
        rw [List.length_eq_zero_iff.mp (hrows batch hbatch)]
        exact heldAt_nil _ _
    rw [if_neg hempty]
    cases hbatch : conversion.toRecordBatch values with
    | error e => exact iff_of_true rfl (by rintro _ ⟨⟩)
    | ok batch =>
      have hlen := conversion.numRows_eq values batch hbatch
      have hne : batch.numRows ≠ 0 := fun hzero =>
        hempty (List.isEmpty_iff.mpr (List.length_eq_zero_iff.mp (hlen.symm.trans hzero)))
      simp only [Except.ok.injEq, forall_eq']
      by_cases hfields : batch.schema.fields = entry.schema.fields
      · rw [if_neg (not_not.mpr hfields), ← hlen,
          pushBatch_law_iff hfind hmem.2 rfl (h.rows entry hmem.1) hne]
        exact ⟨fun hplaced _ _ => hplaced, fun hplaced => hplaced hne hfields⟩
      · rw [if_pos hfields]
        exact iff_of_true rfl fun _ hsame => absurd hsame hfields

/-- Both appends answer where the rows are, and change nothing when they fail, exactly if the batch
they push goes in place and is not refused. -/
theorem appends_iff {V : Type} (refuses : Schema → List RecordBatch → Option String)
    (ds : CachedDataset R) (name : String) (batch : RecordBatch) (conversion : Conversion V)
    (values : List V) (h : ds.data.Aligned) :
    (AppendLaw ds name batch.rows (ds.appendRecordBatch refuses name batch) ↔
      ∀ entry, ds.data.find name = some entry →
        PushesInPlace refuses ds.data entry.dropSentinel batch) ∧
    (AppendLaw ds name (conversion.rows values)
        (ds.append refuses conversion name values) ↔
      ∀ entry, ds.data.find name = some entry → ∀ batch,
        conversion.toRecordBatch values = .ok batch →
          PushesInPlace refuses ds.data entry batch) :=
  ⟨appendRecordBatch_law_iff h, append_law_iff h⟩

namespace AppendRange.Sample
open CompactionSample (merging ids)

/-- One order, and no results yet. -/
def pending : CachedDataset Unit where
  data := ⟨[⟨"Order", 1, ids, [⟨ids, [[.int 1]]⟩], none⟩,
    ⟨"Result", 1, ids, [.newEmpty ids], none⟩], 1, [true], 1, 0, ()⟩
  mergedCache := []

theorem aligned_pending : pending.data.Aligned :=
  ⟨rfl, rfl, rfl, by decide, by decide⟩

/-- Numbers as one column. -/
def numbers : Conversion Int where
  toRecordBatch values := .ok ⟨ids, values.map fun value => [.int value]⟩
  numRows_eq values batch h := by
    cases h
    exact List.length_map _

theorem one_result_in_place :
    AppendLaw pending "Result" [[.int 7]]
        (pending.appendRecordBatch merging "Result" ⟨ids, [[.int 7]]⟩) ∧
      AppendLaw pending "Result" (numbers.rows [7]) (pending.append merging numbers "Result" [7]) := by
  have h := appends_iff merging pending "Result" ⟨ids, [[.int 7]]⟩ numbers [7] aligned_pending
  refine ⟨h.1.mpr fun entry hfind _ _ => ?_, h.2.mpr fun entry hfind batch hbatch _ _ => ?_⟩
  · cases hfind
    exact ⟨by decide, .inr (by decide), by decide, fun hge => absurd hge (by decide)⟩
  · cases hfind
    cases hbatch
    exact ⟨by decide, .inr (by decide), by decide, fun hge => absurd hge (by decide)⟩

/-- Two results are at 0 and 1, and the range is 1 to 2. -/
theorem two_results_misplaced :
    pending.data.Aligned ∧
      (pending.appendRecordBatch merging "Result" ⟨ids, [[.int 7], [.int 8]]⟩).2.toOption =
        some (1, 2) ∧
      ¬AppendLaw pending "Result" [[.int 7], [.int 8]]
        (pending.appendRecordBatch merging "Result" ⟨ids, [[.int 7], [.int 8]]⟩) ∧
      ¬AppendLaw pending "Result" (numbers.rows [7, 8])
        (pending.append merging numbers "Result" [7, 8]) := by
  refine ⟨aligned_pending, by decide +kernel, ?_, ?_⟩
  all_goals
    rintro ⟨rows, -, hrange, -⟩
    exact absurd hrange (by decide)

end AppendRange.Sample

end Saci
