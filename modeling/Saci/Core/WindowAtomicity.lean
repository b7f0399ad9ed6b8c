import Saci.Core.WindowFates

/-!
# A windowed run that fails

The watermark moves and groups count as emitted before the steps that can fail. A run that fails leaves
both alone exactly when nothing in it was news: no timestamp past the watermark, and no group aggregated
before the failure that had not been emitted already.
-/

namespace Saci

namespace WatermarkState

theorem advance_eq_self_iff {state : WatermarkState} {ts : Int} :
    state.advance ts = state ↔ ts ≤ state.currentWatermark := by
  rw [advance]
  split_ifs with hlt
  · refine iff_of_false (fun h => ?_) (not_le.mpr hlt)
    exact hlt.ne' (congrArg currentWatermark h)
  · exact iff_of_true rfl (not_lt.mp hlt)

theorem currentWatermark_le_advanceAll (state : WatermarkState) (times : List Int) :
    state.currentWatermark ≤ (state.advanceAll times).currentWatermark := by
  induction times generalizing state with
  | nil => exact le_refl _
  | cons ts times ih => exact (state.le_advance ts).1.trans (ih _)

/-- A batch leaves the watermark where it is when none of its timestamps is past it. -/
theorem advanceAll_eq_self_iff {state : WatermarkState} {times : List Int} :
    state.advanceAll times = state ↔ ∀ ts ∈ times, ts ≤ state.currentWatermark := by
  induction times generalizing state with
  | nil => simp [advanceAll]
  | cons ts times ih =>
    rw [List.forall_mem_cons]
    constructor
    · intro h
      have hstep : state.advance ts = state := by
        rw [advance_eq_self_iff]
        refine ((state.le_advance ts).2.trans ?_).trans_eq (congrArg currentWatermark h)
        exact currentWatermark_le_advanceAll _ times
      have hrest : state.advanceAll times = state := by
        rw [advanceAll, List.foldl_cons, hstep] at h
        exact h
      exact ⟨advance_eq_self_iff.mp hstep, ih.mp hrest⟩
    · rintro ⟨hle, hrest⟩
      rw [advanceAll, List.foldl_cons, advance_eq_self_iff.mpr hle]
      exact ih.mpr hrest

end WatermarkState

namespace WindowedSystem
variable {sys : WindowedSystem} {arrow : WindowArrow} {data : Dataset WindowResources}
  {state : WindowState} {schema result : Schema} {idx : Nat} {dataType : DataType} {watermark : Int}
  {skipped : Nat} {rows : List WindowRow} {placed : List PlacedRow}

/-- The window function has an answer for a group. -/
def aggregates (sys : WindowedSystem) (arrow : WindowArrow) (schema result : Schema) (idx : Nat)
    (dataType : DataType) (watermark : Int) (emitted : Finset (Int × Int)) : List PlacedRow → Bool
  | [] => true
  | head :: tail =>
    (sys.aggregateSlice arrow schema result idx dataType watermark (decide (head.group ∈ emitted))
      head.windowId head.keyHash ((head :: tail).map PlacedRow.row)).isOk

/-- The groups were all emitted before. -/
def OldGroups (emitted : Finset (Int × Int)) (groups : List (List PlacedRow)) : Prop :=
  ∀ g ∈ groups, ∀ head ∈ g.head?, head.group ∈ emitted

theorem emitted_subset (fired : Fired) (groups : List (List PlacedRow)) :
    fired.emitted ⊆
      (sys.aggregateGroups arrow schema result idx dataType watermark fired groups).1.emitted := by
  induction groups generalizing fired with
  | nil => exact subset_rfl
  | cons group groups ih =>
    cases group with
    | nil => exact ih fired
    | cons head tail =>
      rw [aggregateGroups]
      split
      · exact subset_rfl
      · exact (Finset.subset_insert _ _).trans (ih ⟨_, _, _, _⟩)

/-- The groups aggregated before the first failure leave the emitted set alone when all are in it. -/
theorem emitted_aggregateGroups_iff (fired : Fired) (groups : List (List PlacedRow)) :
    (sys.aggregateGroups arrow schema result idx dataType watermark fired groups).1.emitted =
        fired.emitted ↔
      OldGroups fired.emitted
        (groups.takeWhile (sys.aggregates arrow schema result idx dataType watermark fired.emitted)) := by
  induction groups generalizing fired with
  | nil => exact iff_of_true rfl (by rintro _ ⟨⟩)
  | cons group groups ih =>
    cases group with
    | nil =>
      rw [List.takeWhile_cons_of_pos rfl, OldGroups, List.forall_mem_cons]
      exact (ih fired).trans (and_iff_right (by rintro _ ⟨⟩)).symm
    | cons head tail =>
      rw [aggregateGroups]
      split
      · rename_i e he
        have hfails : sys.aggregates arrow schema result idx dataType watermark fired.emitted
            (head :: tail) = false := by
          rw [aggregates, he]
          rfl
        rw [List.takeWhile_cons, hfails]
        exact iff_of_true rfl (by rintro _ ⟨⟩)
      · rename_i batch hbatch
        have hfires : sys.aggregates arrow schema result idx dataType watermark fired.emitted
            (head :: tail) = true := by
          rw [aggregates, hbatch]
          rfl
        rw [List.takeWhile_cons_of_pos hfires, OldGroups, List.forall_mem_cons]
        by_cases hold : head.group ∈ fired.emitted
        · have hinsert : insert head.group fired.emitted = fired.emitted := Finset.insert_eq_of_mem hold
          have hstep := ih { fired with
            calls := fired.calls ++ [⟨head.windowId, head.keyHash, (head :: tail).map PlacedRow.row,
              decide (head.group ∈ fired.emitted)⟩]
            emitted := insert head.group fired.emitted
            onTime := if decide (head.group ∈ fired.emitted) then fired.onTime else fired.onTime ++ [batch]
            late := if decide (head.group ∈ fired.emitted) then fired.late ++ [batch] else fired.late }
          dsimp only at hstep
          rw [hinsert] at hstep
          dsimp only
          rw [hinsert]
          refine hstep.trans (and_iff_right fun other hother => ?_).symm
          cases hother
          exact hold
        · refine iff_of_false (fun h => hold ?_) fun h => hold (h.1 head rfl)
          rw [← h]
          exact emitted_subset ⟨_, _, _, _⟩ groups (Finset.mem_insert_self _ _)

/-! ## What a failed run leaves -/

/-- Nothing that the run does before it fails is news: no timestamp is past the watermark, and the groups
aggregated before the failure were all emitted. -/
structure Quiet (sys : WindowedSystem) (arrow : WindowArrow) (data : Dataset WindowResources)
    (state : WindowState) (schema : Schema) (rows : List WindowRow) : Prop where
  times : ∀ wm, state.watermark = some wm → ∀ row ∈ rows, row.timeMs ≤ wm.currentWatermark
  groups : ∀ placed result idx dataType, sys.place arrow schema (kept state rows) = .ok placed →
    sys.prepareAggregateInputs schema = .ok (result, idx, dataType) →
    OldGroups state.emitted
      ((groups arrow (placed.filter (inPartition data.resources.keyPartition))).takeWhile
        (sys.aggregates arrow schema result idx dataType
          (((advanced state rows).watermark.map WatermarkState.currentWatermark).getD I64_MIN) state.emitted))

theorem advanced_eq_self_iff : advanced state rows = state ↔
    ∀ wm, state.watermark = some wm → ∀ row ∈ rows, row.timeMs ≤ wm.currentWatermark := by
  obtain ⟨watermark, emitted⟩ := state
  rw [advanced, WindowState.mk.injEq, and_iff_left rfl]
  cases watermark with
  | none => exact iff_of_true rfl nofun
  | some wm =>
    rw [Option.map_some, Option.some.injEq, WatermarkState.advanceAll_eq_self_iff]
    simp

/-- A run over an instance's share leaves the state alone when the groups that it gets to are old. -/
theorem runGroups_state_iff {sideOutput : List RecordBatch} :
    (sys.runGroups arrow data state schema skipped sideOutput placed).state = state ↔
      ∀ result idx dataType, sys.prepareAggregateInputs schema = .ok (result, idx, dataType) →
        OldGroups state.emitted ((groups arrow placed).takeWhile
          (sys.aggregates arrow schema result idx dataType
            ((state.watermark.map WatermarkState.currentWatermark).getD I64_MIN) state.emitted)) := by
  cases hprepare : sys.prepareAggregateInputs schema with
  | error e =>
    rw [runGroups, hprepare]
    exact iff_of_true rfl nofun
  | ok prepared =>
    obtain ⟨result, idx, dataType⟩ := prepared
    have hiff : (sys.aggregateGroups arrow schema result idx dataType
        ((state.watermark.map WatermarkState.currentWatermark).getD I64_MIN)
        ⟨state.emitted, [], [], []⟩ (groups arrow placed)).1.emitted = state.emitted ↔ _ :=
      emitted_aggregateGroups_iff ⟨state.emitted, [], [], []⟩ (groups arrow placed)
    have hstate : (sys.runGroups arrow data state schema skipped sideOutput placed).state =
        { state with emitted := (sys.aggregateGroups arrow schema result idx dataType
          ((state.watermark.map WatermarkState.currentWatermark).getD I64_MIN)
          ⟨state.emitted, [], [], []⟩ (groups arrow placed)).1.emitted } := by
      rw [runGroups, hprepare]
      dsimp only
      split
      · rename_i hfired
        rw [hfired]
      · rename_i hfired
        rw [hfired]
        split_ifs
        · split <;> rfl
        · rfl
    rw [hstate]
    refine (Iff.trans ?_ hiff).trans ⟨fun h result' idx' dataType' heq => ?_, fun h => h result idx dataType rfl⟩
    · exact ⟨fun h => congrArg WindowState.emitted h, fun h => by rw [h]⟩
    · cases heq
      exact h

theorem watermark_runGroups {sideOutput : List RecordBatch} :
    (sys.runGroups arrow data state schema skipped sideOutput placed).state.watermark = state.watermark := by
  unfold runGroups
  split
  · rfl
  · dsimp only
    split
    · rfl
    · split_ifs
      · split <;> rfl
      · rfl

theorem runTimed_state_iff {e : SaciError}
    (h : (sys.runTimed arrow data state schema skipped rows).result = .error e) :
    (sys.runTimed arrow data state schema skipped rows).state = state ↔
      Quiet sys arrow data state schema rows := by
  by_cases hkept : kept state rows = []
  · rw [runTimed_of_kept_nil hkept] at h
    cases h
  cases hplace : sys.place arrow schema (kept state rows) with
  | error e =>
    rw [runTimed_of_place_error hkept hplace]
    refine advanced_eq_self_iff.trans ⟨fun htimes => ⟨htimes, fun placed _ _ _ hok => ?_⟩, Quiet.times⟩
    cases hplace.symm.trans hok
  | ok placed =>
    rw [runTimed_of_place hkept hplace] at h ⊢
    split_ifs at h ⊢
    have hadvanced : ∀ out : Outcome, out.state.watermark = (advanced state rows).watermark →
        (out.state = state ↔ advanced state rows = state ∧ out.state = advanced state rows) := by
      intro out hwm
      refine ⟨fun hout => ?_, fun h => h.2.trans h.1⟩
      have hsame : advanced state rows = state := by
        rw [hout] at hwm
        rw [advanced, WindowState.mk.injEq]
        exact ⟨hwm.symm, rfl⟩
      exact ⟨hsame, hout.trans hsame.symm⟩
    rw [hadvanced _ watermark_runGroups, advanced_eq_self_iff, runGroups_state_iff]
    refine ⟨fun ⟨htimes, hgroups⟩ => ⟨htimes, fun placed' result idx dataType hok hprepare => ?_⟩,
      fun hquiet => ⟨hquiet.times, fun result idx dataType hprepare =>
        hquiet.groups placed result idx dataType hplace hprepare⟩⟩
    cases hplace.symm.trans hok
    exact hgroups result idx dataType hprepare

/-- Where a run fails, the watermark and the emitted set are what they were, and a retry does what a first
attempt would have done, whatever the window function answers by then. -/
structure Untouched (sys : WindowedSystem) (arrow : WindowArrow) (data : Dataset WindowResources)
    (state : WindowState) : Prop where
  kept_state : (sys.run arrow data state).state = state
  retry : ∀ function : WindowFunction,
    { sys with function }.run arrow data (sys.run arrow data state).state =
      { sys with function }.run arrow data state

/-- **Error atomicity.** A run that fails leaves its state untouched exactly when nothing that it did
before was news. -/
theorem untouched_iff {e : SaciError} (h : (sys.run arrow data state).result = .error e) :
    Untouched sys arrow data state ↔
      ∀ batch times, sys.source data = .ok batch → sys.times batch = .ok times →
        Quiet sys arrow data state batch.schema (timed batch.rows times) := by
  have hstate : Untouched sys arrow data state ↔ (sys.run arrow data state).state = state :=
    ⟨Untouched.kept_state, fun h => ⟨h, fun function => by rw [h]⟩⟩
  rw [hstate]
  cases hsource : sys.source data with
  | error e =>
    rw [run, hsource]
    exact iff_of_true rfl (by rintro _ _ ⟨⟩)
  | ok batch =>
    cases htimes : sys.times batch with
    | error e =>
      rw [run, hsource] at h ⊢
      dsimp only at h ⊢
      split_ifs at h ⊢ with hrows
      rw [htimes]
      refine iff_of_true rfl fun batch' times hok htimes' => ?_
      cases hok
      cases htimes.symm.trans htimes'
    | ok times =>
      rw [run_of_times hsource htimes] at h ⊢
      split_ifs at h ⊢
      rw [runTimed_state_iff h]
      refine ⟨fun hquiet batch' times' hok htimes' => ?_, fun hquiet => hquiet batch times rfl htimes⟩
      cases hok
      cases htimes.symm.trans htimes'
      exact hquiet

end WindowedSystem

namespace WindowedSystem.Sample

/-- A window function that refuses every group. -/
def refuses : WindowedSystem :=
  { sys with function := .process fun _ _ => .error (.generic "process") }

def fresh : WindowState := WindowState.new (some 100)

/-- The call fails, and the watermark has moved. -/
theorem refuses_touches : (refuses.run arrow data fresh).result = .error (.generic "process") ∧
    ¬Untouched refuses arrow data fresh := by
  refine ⟨rfl, fun h => ?_⟩
  have hmoved : (refuses.run arrow data fresh).state.watermark = some ⟨1000, 100⟩ := rfl
  rw [h.kept_state] at hmoved
  exact absurd hmoved (by decide)

/-- A system whose source is not registered fails before it looks at a row. -/
theorem missing_untouched : Untouched { sys with sourceComponent := "Quote" } arrow data fresh := by
  have hfails : ({ sys with sourceComponent := "Quote" }.run arrow data fresh).result =
    .error (.generic "WindowedSystem: component 'Quote' not registered") := rfl
  exact (untouched_iff hfails).mpr nofun

end WindowedSystem.Sample
end Saci
