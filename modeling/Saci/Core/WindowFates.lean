import Saci.Core.WindowedSystem
import Mathlib.Data.List.Sort
import Mathlib.Data.Prod.Lex
import Mathlib.Data.List.Perm.Basic
import Mathlib.Data.List.Perm.Lattice
import Mathlib.Algebra.BigOperators.Group.List.Lemmas

/-!
# The fate of a row in a windowed run

A row is skipped, late, in another instance's share of the keys, or delivered to the groups of its
windows. Delivery is exact in every run; the late rows are lost from the side output where an instance has
no share of the rows that are kept.
-/

namespace Saci

/-! ## The groups of a run -/

/-- The rows handed to the window function, each with its group. -/
def deliveries (calls : List WindowCall) : List PlacedRow :=
  calls.flatMap fun call => call.rows.map fun row => ⟨row, call.windowId, call.keyHash⟩

theorem deliveries_append (calls more : List WindowCall) :
    deliveries (calls ++ more) = deliveries calls ++ deliveries more := List.flatMap_append

namespace WindowedSystem
variable {sys : WindowedSystem} {arrow : WindowArrow} {schema result : Schema} {idx : Nat}
  {dataType : DataType} {watermark : Int} {fired fired' : Fired} {placed : List PlacedRow}

/-- The rows of a list of placed rows are in one group. -/
def OneGroup (group : List PlacedRow) : Prop := ∀ a ∈ group, ∀ b ∈ group, a.group = b.group

theorem deliveries_oneGroup {head : PlacedRow} {tail : List PlacedRow} (h : OneGroup (head :: tail))
    (late : Bool) :
    deliveries [⟨head.windowId, head.keyHash, (head :: tail).map PlacedRow.row, late⟩] = head :: tail := by
  rw [deliveries, List.flatMap_singleton, List.map_map]
  refine (List.map_congr_left fun placed hplaced => ?_).trans (List.map_id _)
  have hgroup := h head List.mem_cons_self placed hplaced
  rw [PlacedRow.group, PlacedRow.group, Prod.mk.injEq] at hgroup
  rw [Function.comp_apply, hgroup.1, hgroup.2, id]

/-- Every group is handed to the window function whole. -/
theorem deliveries_aggregateGroups {groups : List (List PlacedRow)} (hone : ∀ g ∈ groups, OneGroup g)
    (h : sys.aggregateGroups arrow schema result idx dataType watermark fired groups = (fired', .ok ())) :
    deliveries fired'.calls = deliveries fired.calls ++ groups.flatten := by
  induction groups generalizing fired with
  | nil =>
    cases h
    rw [List.flatten_nil, List.append_nil]
  | cons group groups ih =>
    have hrest : ∀ g ∈ groups, OneGroup g := fun g hg => hone g (List.mem_cons_of_mem _ hg)
    cases group with
    | nil => exact ih hrest h
    | cons head tail =>
      rw [aggregateGroups] at h
      split at h
      · cases h
      · rw [ih hrest h, deliveries_append, deliveries_oneGroup (hone _ List.mem_cons_self),
          List.append_assoc, List.flatten_cons]

theorem filterMap_range_getElem? {α : Type} (l : List α) :
    (List.range l.length).filterMap (l[·]?) = l := by
  induction l with
  | nil => rfl
  | cons a l ih =>
    rw [List.length_cons, List.range_succ_eq_map, List.filterMap_cons_some List.getElem?_cons_zero,
      List.filterMap_map]
    exact congrArg _ ih

/-- Sorting loses no row. -/
theorem flatten_groups (harrow : arrow.Sorts) (placed : List PlacedRow) :
    (groups arrow placed).flatten.Perm placed := by
  have hperm := (harrow.perm (placed.map PlacedRow.group)).filterMap (placed[·]?)
  rw [List.length_map, filterMap_range_getElem?] at hperm
  rw [groups, List.flatten_splitBy]
  exact hperm

theorem oneGroup_of_mem_groups {group : List PlacedRow} (h : group ∈ groups arrow placed) :
    OneGroup group := by
  have hchain := (List.isChain_of_mem_splitBy h).imp fun a b hab => of_decide_eq_true hab
  have htrans : Trans (fun a b : PlacedRow => a.group = b.group)
      (fun a b : PlacedRow => a.group = b.group) fun a b : PlacedRow => a.group = b.group := ⟨Eq.trans⟩
  have hpair := List.isChain_iff_pairwise.mp hchain
  intro a ha b hb
  by_cases hab : a = b
  · rw [hab]
  · have hsymm : Std.Symm fun a b : PlacedRow => a.group = b.group := ⟨fun _ _ => Eq.symm⟩
    exact hpair.forall ha hb hab

/-! ## The windows of a row -/

variable {rows : List WindowRow}

theorem length_computeKeyHash {cols : List ArrayRef} {hashes : List Int}
    (h : computeKeyHash arrow cols = .ok hashes) :
    hashes.length = (cols.head?.map fun col => col.cells.length).getD 0 := by
  obtain ⟨texts, -, h⟩ := bind_eq_ok_iff.mp h
  cases h
  rw [List.length_map, List.length_range]

/-- Every row has a key. -/
theorem length_keyHashes {hashes : List Int} (h : sys.keyHashes arrow schema rows = .ok hashes) :
    hashes.length = rows.length := by
  unfold keyHashes at h
  split_ifs at h with hempty
  · cases h
    exact List.length_map ..
  · obtain ⟨cols, hcols, h⟩ := bind_eq_ok_iff.mp h
    rw [length_computeKeyHash h]
    have hall := forall₂_of_mapM_eq_ok hcols
    cases hfields : sys.keyFields with
    | nil => exact absurd (List.isEmpty_iff.mpr hfields) hempty
    | cons field fields =>
      rw [hfields] at hall
      cases hall with
      | cons hcol _ =>
        split at hcol
        · cases hcol
        · cases hcol
          exact List.length_map ..

/-- The rows of a run that are in windows, each in those that the geometry assigns it. -/
def Assigned (sys : WindowedSystem) (rows : List WindowRow) (placed : List PlacedRow) : Prop :=
  match sys.spec with
  | .tumbling sizeMs offsetMs =>
    placed.map (fun p => (p.row, p.windowId)) =
      rows.map fun row => (row, WindowSpec.assignTumbling row.timeMs sizeMs offsetMs)
  | .session _ => placed.map PlacedRow.row = rows
  | .sliding sizeMs slideMs offsetMs =>
    placed.map (fun p => (p.row, p.windowId)) =
      rows.flatMap fun row =>
        (WindowSpec.assignSliding row.timeMs sizeMs slideMs offsetMs).map fun id => (row, id)

theorem zipWith_fst {α β γ : Type} (f : α → γ) {l : List α} {l' : List β} (h : l'.length = l.length) :
    List.zipWith (fun a _ => f a) l l' = l.map f := by
  induction l generalizing l' with
  | nil => rfl
  | cons a l ih =>
    cases l' with
    | nil => cases h
    | cons b l' => rw [List.zipWith_cons_cons, List.map_cons, ih (Nat.succ.inj h)]

theorem length_assignSessions (keysAndTimes : List (Int × Int)) (gapMs : Int) :
    (assignSessions arrow keysAndTimes gapMs).length = keysAndTimes.length := by
  rw [assignSessions, List.length_map, List.length_range]

theorem assigned_place (h : sys.place arrow schema rows = .ok placed) : Assigned sys rows placed := by
  unfold place at h
  unfold Assigned
  cases hspec : sys.spec with
  | tumbling sizeMs offsetMs =>
    rw [hspec] at h
    obtain ⟨hashes, hhashes, h⟩ := bind_eq_ok_iff.mp h
    cases h
    have hlength := length_keyHashes hhashes
    dsimp only
    rw [List.map_zipWith]
    dsimp only
    rw [zipWith_fst (fun row : WindowRow => (row, WindowSpec.assignTumbling row.timeMs sizeMs offsetMs))
      hlength]
  | session gapMs =>
    rw [hspec] at h
    obtain ⟨hashes, hhashes, h⟩ := bind_eq_ok_iff.mp h
    cases h
    dsimp only
    have hids : (assignSessions arrow (hashes.zip (rows.map WindowRow.timeMs)) gapMs).length =
        rows.length := by
      rw [length_assignSessions, List.length_zip, List.length_map, length_keyHashes hhashes, min_self]
    have hzip : hashes.length =
        (rows.zip (assignSessions arrow (hashes.zip (rows.map WindowRow.timeMs)) gapMs)).length := by
      rw [List.length_zip, hids, min_self, length_keyHashes hhashes]
    rw [List.map_zipWith, zipWith_fst Prod.fst hzip]
    exact List.map_fst_zip hids.ge
  | sliding sizeMs slideMs offsetMs =>
    rw [hspec] at h
    dsimp only at h
    split_ifs at h
    obtain ⟨hashes, hhashes, h⟩ := bind_eq_ok_iff.mp h
    cases h
    dsimp only
    have hlength := length_keyHashes hhashes
    rw [List.length_map] at hlength
    rw [List.map_zipWith, zipWith_fst (fun placed => (placed.1, placed.2)) hlength]
    exact List.map_id _

/-! ## The four fates -/

/-- The row is beyond the lateness budget. -/
def isLate (state : WindowState) (row : WindowRow) : Bool :=
  state.watermark.any fun wm => wm.isBeyondLateness row.timeMs

/-- The rows with a timestamp within the lateness budget. -/
def kept (state : WindowState) (rows : List WindowRow) : List WindowRow :=
  rows.filter fun row => !isLate state row

/-- The watermark after a batch. -/
def advanced (state : WindowState) (rows : List WindowRow) : WindowState :=
  { state with watermark := state.watermark.map (·.advanceAll (rows.map WindowRow.timeMs)) }

theorem applyWatermarkFilter_eq (state : WindowState) (rows : List WindowRow) :
    applyWatermarkFilter state rows =
      (advanced state rows, kept state rows, rows.filter (isLate state)) := by
  obtain ⟨watermark, emitted⟩ := state
  cases watermark with
  | none =>
    have hkept : kept ⟨none, emitted⟩ rows = rows := List.filter_eq_self.mpr fun _ _ => rfl
    have hlate : rows.filter (isLate ⟨none, emitted⟩) = [] := List.filter_eq_nil_iff.mpr fun _ _ => nofun
    rw [hkept, hlate]
    rfl
  | some wm => rfl

/-- The rows of the late side output. -/
def Outcome.sideRows (out : Outcome) : List (List Cell) :=
  ((out.data.resources.results.map WindowResults.sideOutput).getD []).flatMap RecordBatch.rows

/-- The window function is handed the instance's share of the rows that are kept, each once for every
window that it is assigned. -/
def Delivered (sys : WindowedSystem) (arrow : WindowArrow) (partition : Option KeyPartition)
    (state : WindowState) (schema : Schema) (rows : List WindowRow) (calls : List WindowCall) : Prop :=
  ∃ placed, (kept state rows ≠ [] → sys.place arrow schema (kept state rows) = .ok placed) ∧
    Assigned sys (kept state rows) placed ∧ (deliveries calls).Perm (placed.filter (inPartition partition))

/-- Every row of the source meets one fate: it is counted as skipped, or it is in the late side output, or
it is in another instance's share, or it is delivered to the groups of its windows. -/
structure Accounted (sys : WindowedSystem) (arrow : WindowArrow) (partition : Option KeyPartition)
    (state : WindowState) (schema : Schema) (times : List (Option Int)) (rows : List WindowRow)
    (out : Outcome) : Prop where
  skipped : out.skipped = times.countP Option.isNone
  late : out.sideRows = (rows.filter (isLate state)).map WindowRow.cells
  delivered : Delivered sys arrow partition state schema rows out.calls

/-- The rows of an instance's share are kept, and none of them is the instance's, while late rows are to be
put out. -/
structure Swallowed (sys : WindowedSystem) (arrow : WindowArrow) (kp : KeyPartition) (state : WindowState)
    (schema : Schema) (rows : List WindowRow) : Prop where
  instances : 1 < kp.numInstances
  late : ∃ row ∈ rows, isLate state row = true
  kept : kept state rows ≠ []
  others : ∃ placed, sys.place arrow schema (WindowedSystem.kept state rows) = .ok placed ∧
    ∀ p ∈ placed, inPartition (some kp) p = false

variable {data : Dataset WindowResources} {state : WindowState} {skipped : Nat}
  {sideOutput : List RecordBatch} {times : List (Option Int)}

theorem sideRows_insertResults (results : WindowResults) (state : WindowState)
    (result : SaciResult Unit) (skipped : Nat) (calls : List WindowCall) :
    Outcome.sideRows ⟨state, insertResults data results, result, skipped, calls⟩ =
      results.sideOutput.flatMap RecordBatch.rows := rfl

/-- A run over an instance's share that succeeds hands it to the window function whole. -/
theorem runGroups_ok (harrow : arrow.Sorts)
    (h : (sys.runGroups arrow data state schema skipped sideOutput placed).result = .ok ()) :
    (deliveries (sys.runGroups arrow data state schema skipped sideOutput placed).calls).Perm placed ∧
      (sys.runGroups arrow data state schema skipped sideOutput placed).sideRows =
        sideOutput.flatMap RecordBatch.rows ∧
      (sys.runGroups arrow data state schema skipped sideOutput placed).skipped = skipped := by
  revert h
  unfold runGroups
  split
  · nofun
  · dsimp only
    split
    · nofun
    · rename_i fired hfired
      have hcalls : (deliveries fired.calls).Perm placed := by
        have hdeliver := deliveries_aggregateGroups (fun g hg => oneGroup_of_mem_groups hg) hfired
        rw [hdeliver]
        exact flatten_groups harrow placed
      split_ifs
      · split
        · nofun
        · exact fun _ => ⟨hcalls, rfl, rfl⟩
      · exact fun _ => ⟨hcalls, rfl, rfl⟩

theorem flatMap_sideOutput (schema : Schema) (rows : List WindowRow) :
    (if rows.isEmpty then [] else [(⟨schema, rows.map WindowRow.cells⟩ : RecordBatch)]).flatMap
      RecordBatch.rows = rows.map WindowRow.cells := by
  cases rows with
  | nil => rfl
  | cons row rows => exact List.append_nil _

theorem assigned_nil (h : Assigned sys [] placed) : placed = [] := by
  unfold Assigned at h
  split at h
  · exact List.map_eq_nil_iff.mp h
  · exact List.map_eq_nil_iff.mp h
  · exact List.map_eq_nil_iff.mp h

theorem nil_assigned (sys : WindowedSystem) : Assigned sys [] [] := by
  unfold Assigned
  split <;> rfl

/-- The batch of the late rows. -/
def lateBatch (state : WindowState) (schema : Schema) (rows : List WindowRow) : List RecordBatch :=
  if (rows.filter (isLate state)).isEmpty then []
  else [⟨schema, (rows.filter (isLate state)).map WindowRow.cells⟩]

theorem runTimed_of_kept_nil (h : kept state rows = []) :
    sys.runTimed arrow data state schema skipped rows =
      ⟨advanced state rows,
        insertResults data ⟨sys.emptyResultSchema, [], [], lateBatch state schema rows⟩, .ok (), skipped, []⟩ := by
  rw [runTimed, applyWatermarkFilter_eq]
  dsimp only
  rw [h]
  rfl

theorem runTimed_of_place (h : kept state rows ≠ [])
    (hplace : sys.place arrow schema (kept state rows) = .ok placed) :
    sys.runTimed arrow data state schema skipped rows =
      if ((data.resources.keyPartition.any fun kp => 1 < kp.numInstances) &&
          (placed.filter (inPartition data.resources.keyPartition)).isEmpty) = true then
        ⟨advanced state rows, (insertResults data ⟨sys.emptyResultSchema, [], [], []⟩).insertResource fun r =>
          { r with droppedLate := some [] }, .ok (), skipped, []⟩
      else
        sys.runGroups arrow data (advanced state rows) schema skipped (lateBatch state schema rows)
          (placed.filter (inPartition data.resources.keyPartition)) := by
  rw [runTimed, applyWatermarkFilter_eq]
  dsimp only
  rw [if_neg (by rwa [List.isEmpty_iff]), hplace]
  rfl

theorem runTimed_of_place_error {e : SaciError} (h : kept state rows ≠ [])
    (hplace : sys.place arrow schema (kept state rows) = .error e) :
    sys.runTimed arrow data state schema skipped rows = ⟨advanced state rows, data, .error e, skipped, []⟩ := by
  rw [runTimed, applyWatermarkFilter_eq]
  dsimp only
  rw [if_neg (by rwa [List.isEmpty_iff]), hplace]

/-- A run over rows with timestamps that succeeds delivers its share, and accounts for all of the rows
unless it swallows the late ones. -/
theorem runTimed_accounted_iff (harrow : arrow.Sorts) (hskipped : skipped = times.countP Option.isNone)
    (h : (sys.runTimed arrow data state schema skipped rows).result = .ok ()) :
    Delivered sys arrow data.resources.keyPartition state schema rows
      (sys.runTimed arrow data state schema skipped rows).calls ∧
    (Accounted sys arrow data.resources.keyPartition state schema times rows
        (sys.runTimed arrow data state schema skipped rows) ↔
      ∀ kp, data.resources.keyPartition = some kp → ¬Swallowed sys arrow kp state schema rows) := by
  by_cases hkept : kept state rows = []
  · rw [runTimed_of_kept_nil hkept]
    have hdelivered : Delivered sys arrow data.resources.keyPartition state schema rows [] :=
      ⟨[], fun hne => absurd hkept hne, hkept ▸ nil_assigned sys, .refl _⟩
    refine ⟨hdelivered, fun _ kp _ hswallowed => hswallowed.kept hkept, fun _ =>
      ⟨hskipped, ?_, hdelivered⟩⟩
    rw [sideRows_insertResults]
    exact flatMap_sideOutput schema _
  cases hplace : sys.place arrow schema (kept state rows) with
  | error e =>
    rw [runTimed_of_place_error hkept hplace] at h
    cases h
  | ok placed =>
    have hassigned := assigned_place hplace
    rw [runTimed_of_place hkept hplace] at h ⊢
    split_ifs at h ⊢ with hshare
    · -- the instance has no share
      rw [Bool.and_eq_true, List.isEmpty_iff, Option.any_eq_true] at hshare
      obtain ⟨⟨kp, hkp, hmany⟩, hnone⟩ := hshare
      have hdelivered : Delivered sys arrow data.resources.keyPartition state schema rows [] :=
        ⟨placed, fun _ => hplace, hassigned, List.Perm.of_eq hnone.symm⟩
      refine ⟨hdelivered, fun haccounted kp' hkp' hswallowed => ?_, fun hkeeps =>
        ⟨hskipped, ?_, hdelivered⟩⟩
      · obtain ⟨row, hrow, hlate⟩ := hswallowed.late
        have hlost : ([] : List (List Cell)) = (rows.filter (isLate state)).map WindowRow.cells :=
          haccounted.late
        exact List.not_mem_nil
          ((List.map_eq_nil_iff.mp hlost.symm) ▸ List.mem_filter.mpr ⟨hrow, hlate⟩)
      · have hlate : rows.filter (isLate state) = [] := by
          refine List.filter_eq_nil_iff.mpr fun row hrow hlate => hkeeps kp hkp
            ⟨of_decide_eq_true hmany, ⟨row, hrow, hlate⟩, hkept, placed, hplace, fun p hp => ?_⟩
          rw [hkp, List.filter_eq_nil_iff] at hnone
          exact Bool.eq_false_iff.mpr (hnone p hp)
        rw [hlate]
        rfl
    · obtain ⟨hcalls, hside, hskip⟩ := runGroups_ok harrow h
      have hdelivered := (⟨placed, fun _ => hplace, hassigned, hcalls⟩ :
        Delivered sys arrow data.resources.keyPartition state schema rows _)
      refine ⟨hdelivered, fun _ kp hkp hswallowed => hshare ?_, fun _ =>
        ⟨hskip.trans hskipped, ?_, hdelivered⟩⟩
      · obtain ⟨placed', hplace', hothers⟩ := hswallowed.others
        cases hplace.symm.trans hplace'
        rw [hkp, Option.any_some, Bool.and_eq_true, List.isEmpty_iff, List.filter_eq_nil_iff]
        exact ⟨decide_eq_true hswallowed.instances, fun p hp => Bool.eq_false_iff.mp (hothers p hp)⟩
      · rw [hside]
        exact flatMap_sideOutput schema _

/-- An instance that swallows the late rows says that it succeeded. -/
theorem result_of_swallowed {kp : KeyPartition} (hkp : data.resources.keyPartition = some kp)
    (h : Swallowed sys arrow kp state schema rows) :
    (sys.runTimed arrow data state schema skipped rows).result = .ok () := by
  obtain ⟨placed, hplace, hothers⟩ := h.others
  rw [runTimed_of_place h.kept hplace, if_pos]
  rw [hkp, Option.any_some, Bool.and_eq_true, List.isEmpty_iff, List.filter_eq_nil_iff]
  exact ⟨decide_eq_true h.instances, fun p hp => Bool.eq_false_iff.mp (hothers p hp)⟩

/-! ## Whole runs -/

variable {batch : RecordBatch}

theorem length_times (h : sys.times batch = .ok times) : times.length = batch.numRows := by
  unfold WindowedSystem.times at h
  split at h
  · cases h
  · unfold toMsArray at h
    dsimp only at h
    split at h <;> cases h <;> simp [RecordBatch.column, RecordBatch.numRows]

theorem timed_nil (times : List (Option Int)) : timed [] times = [] := by
  cases times with
  | nil => rfl
  | cons ts times => cases ts <;> rfl

/-- A run over a source with a time column. -/
theorem run_of_times (hsource : sys.source data = .ok batch) (htimes : sys.times batch = .ok times) :
    sys.run arrow data state =
      if timed batch.rows times = [] then
        ⟨state, insertResults data ⟨sys.emptyResultSchema, [], [], []⟩, .ok (), times.countP Option.isNone, []⟩
      else
        sys.runTimed arrow data state batch.schema (times.countP Option.isNone) (timed batch.rows times) := by
  rw [run, hsource]
  dsimp only
  split_ifs with hrows htimed htimed
  · have hnil : times = [] := List.length_eq_zero_iff.mp ((length_times htimes).trans hrows)
    rw [hnil]
    rfl
  · have hnil : batch.rows = [] := List.length_eq_zero_iff.mp hrows
    exact absurd (hnil ▸ timed_nil times) htimed
  · rw [htimes]
    dsimp only
    rw [htimed]
  · rw [htimes]
    dsimp only
    cases hcons : timed batch.rows times with
    | nil => exact absurd hcons htimed
    | cons row rows => rfl

/-- A run that hands nothing over and leaves the emitted set. -/
structure Idle (out : Outcome) (state : WindowState) : Prop where
  calls : out.calls = []
  emitted : out.state.emitted = state.emitted

/-- A run over rows with timestamps comes to its groups, or is idle. -/
theorem runTimed_cases :
    Idle (sys.runTimed arrow data state schema skipped rows) state ∨
      ∃ placed, sys.place arrow schema (kept state rows) = .ok placed ∧
        sys.runTimed arrow data state schema skipped rows =
          sys.runGroups arrow data (advanced state rows) schema skipped (lateBatch state schema rows)
            (placed.filter (inPartition data.resources.keyPartition)) := by
  by_cases hkept : kept state rows = []
  · rw [runTimed_of_kept_nil hkept]
    exact .inl ⟨rfl, rfl⟩
  cases hplace : sys.place arrow schema (kept state rows) with
  | error e =>
    rw [runTimed_of_place_error hkept hplace]
    exact .inl ⟨rfl, rfl⟩
  | ok placed =>
    rw [runTimed_of_place hkept hplace]
    split_ifs
    · exact .inl ⟨rfl, rfl⟩
    · exact .inr ⟨placed, rfl, rfl⟩

/-- A run comes to its rows with timestamps, or is idle. -/
theorem run_cases (sys : WindowedSystem) (arrow : WindowArrow) (data : Dataset WindowResources)
    (state : WindowState) :
    Idle (sys.run arrow data state) state ∨
      ∃ batch times, sys.source data = .ok batch ∧ sys.times batch = .ok times ∧
        sys.run arrow data state =
          sys.runTimed arrow data state batch.schema (times.countP Option.isNone)
            (timed batch.rows times) := by
  cases hsource : sys.source data with
  | error e =>
    rw [run, hsource]
    exact .inl ⟨rfl, rfl⟩
  | ok batch =>
    cases htimes : sys.times batch with
    | error e =>
      rw [run, hsource]
      dsimp only
      split_ifs
      · exact .inl ⟨rfl, rfl⟩
      · rw [htimes]
        exact .inl ⟨rfl, rfl⟩
    | ok times =>
      rw [run_of_times hsource htimes]
      split_ifs
      · exact .inl ⟨rfl, rfl⟩
      · exact .inr ⟨batch, times, rfl, htimes, rfl⟩

/-- A run that succeeds delivers its share, and accounts for all of the rows unless it swallows the late
ones. -/
theorem run_accounted_iff (harrow : arrow.Sorts) (hsource : sys.source data = .ok batch)
    (htimes : sys.times batch = .ok times) (h : (sys.run arrow data state).result = .ok ()) :
    Delivered sys arrow data.resources.keyPartition state batch.schema (timed batch.rows times)
      (sys.run arrow data state).calls ∧
    (Accounted sys arrow data.resources.keyPartition state batch.schema times (timed batch.rows times)
        (sys.run arrow data state) ↔
      ∀ kp, data.resources.keyPartition = some kp →
        ¬Swallowed sys arrow kp state batch.schema (timed batch.rows times)) := by
  rw [run_of_times hsource htimes] at h ⊢
  split_ifs at h ⊢ with hnil
  · have hdelivered : Delivered sys arrow data.resources.keyPartition state batch.schema [] [] :=
      ⟨[], fun hne => absurd rfl hne, nil_assigned sys, .refl _⟩
    rw [hnil]
    refine ⟨hdelivered, fun _ kp _ hswallowed => hswallowed.kept rfl, fun _ => ⟨rfl, rfl, hdelivered⟩⟩
  · exact runTimed_accounted_iff harrow rfl h

/-- The dataset of one of the instances that share the keys. -/
def share (data : Dataset WindowResources) (partition : Option KeyPartition) : Dataset WindowResources :=
  data.insertResource fun r => { r with keyPartition := partition }

/-- The rows of the runs of `n` instances over one dataset: each meets one fate in each of them, and what
they deliver is a disjoint cover of what a single instance delivers. -/
structure RowsAccounted (sys : WindowedSystem) (arrow : WindowArrow) (data : Dataset WindowResources)
    (state : WindowState) (n : Nat) : Prop where
  fates : ∀ i < n, ∀ batch times, sys.source data = .ok batch → sys.times batch = .ok times →
    (sys.run arrow (share data (some ⟨i, n⟩)) state).result = .ok () →
    Accounted sys arrow (some ⟨i, n⟩) state batch.schema times (timed batch.rows times)
      (sys.run arrow (share data (some ⟨i, n⟩)) state)
  cover : (∀ i < n, (sys.run arrow (share data (some ⟨i, n⟩)) state).result = .ok ()) →
    (sys.run arrow (share data none) state).result = .ok () →
    ((List.range n).flatMap fun i => deliveries (sys.run arrow (share data (some ⟨i, n⟩)) state).calls).Perm
      (deliveries (sys.run arrow (share data none) state).calls)

theorem perm_filters_lt {α : Type} (f : α → Nat) (l : List α) (n : Nat) :
    ((List.range n).flatMap fun i => l.filter fun x => f x = i).Perm (l.filter fun x => f x < n) := by
  induction n with
  | zero => exact List.Perm.of_eq (List.filter_eq_nil_iff.mpr fun _ _ => by simp).symm
  | succ n ih =>
    have hsplit := List.filter_append_perm (fun x => decide (f x < n)) (l.filter fun x => f x < n + 1)
    rw [List.filter_filter, List.filter_filter] at hsplit
    have hlow : ∀ x ∈ l, (decide (f x < n) && decide (f x < n + 1)) = decide (f x < n) := fun x _ => by
      simp only [← Bool.decide_and]
      exact decide_eq_decide.mpr (by omega)
    have hlast : ∀ x ∈ l, (!decide (f x < n) && decide (f x < n + 1)) = decide (f x = n) := fun x _ => by
      rw [← decide_not, ← Bool.decide_and]
      exact decide_eq_decide.mpr (by omega)
    rw [List.filter_congr hlow, List.filter_congr hlast] at hsplit
    rw [List.range_succ, List.flatMap_append, List.flatMap_singleton]
    exact (ih.append_right _).trans hsplit

/-- The shares of the instances cover the rows. -/
theorem perm_shares {n : Nat} (hn : 0 < n) (placed : List PlacedRow) :
    ((List.range n).flatMap fun i => placed.filter (inPartition (some ⟨i, n⟩))).Perm placed := by
  have hmod : ∀ p : PlacedRow, 0 ≤ p.keyHash % n ∧ p.keyHash % n < n := fun p =>
    ⟨Int.emod_nonneg _ (by omega), Int.emod_lt_of_pos _ (by omega)⟩
  have hshare : ∀ i ∈ List.range n, placed.filter (inPartition (some ⟨i, n⟩)) =
      placed.filter fun p => (p.keyHash % (n : Int)).toNat = i := by
    intro i hi
    have hi := List.mem_range.mp hi
    refine List.filter_congr fun p _ => ?_
    have := hmod p
    rw [inPartition, Option.all_some, ← decide_not, ← Bool.decide_or]
    exact decide_eq_decide.mpr (by dsimp only; omega)
  rw [List.flatMap_congr hshare]
  refine (perm_filters_lt _ _ _).trans (List.Perm.of_eq (List.filter_eq_self.mpr fun p _ => ?_))
  have := hmod p
  exact decide_eq_true (by omega)

theorem run_of_no_rows (hsource : sys.source data = .ok batch) (h : batch.rows = []) :
    sys.run arrow data state =
      ⟨state, insertResults data ⟨sys.emptyResultSchema, [], [], []⟩, .ok (), 0, []⟩ := by
  rw [run, hsource]
  exact if_pos (congrArg List.length h)

/-- A run that succeeds has read the timestamps of a source with rows. -/
theorem exists_times (h : (sys.run arrow data state).result = .ok ()) :
    ∃ batch, sys.source data = .ok batch ∧
      (batch.rows = [] ∨ ∃ times, sys.times batch = .ok times) := by
  unfold run at h
  split at h
  · cases h
  · rename_i batch hsource
    refine ⟨batch, hsource, ?_⟩
    dsimp only at h
    split_ifs at h with hrows
    · exact .inl (List.length_eq_zero_iff.mp hrows)
    · split at h
      · cases h
      · rename_i times htimes
        exact .inr ⟨times, htimes⟩

/-- **Row accounting.** Over a dataset, `n` instances account for every row of the source exactly when none
of them swallows late rows: late rows vanish where rows are kept and all of them are in the other
instances' shares. -/
theorem rows_accounted_iff (harrow : arrow.Sorts) (data : Dataset WindowResources) (state : WindowState)
    {n : Nat} (hn : 0 < n) :
    RowsAccounted sys arrow data state n ↔
      ∀ i < n, ∀ batch times, sys.source data = .ok batch → sys.times batch = .ok times →
        ¬Swallowed sys arrow ⟨i, n⟩ state batch.schema (timed batch.rows times) := by
  have hiff : ∀ i batch times, sys.source data = .ok batch → sys.times batch = .ok times →
      (sys.run arrow (share data (some ⟨i, n⟩)) state).result = .ok () →
      (Accounted sys arrow (some ⟨i, n⟩) state batch.schema times (timed batch.rows times)
          (sys.run arrow (share data (some ⟨i, n⟩)) state) ↔
        ¬Swallowed sys arrow ⟨i, n⟩ state batch.schema (timed batch.rows times)) := by
    intro i batch times hsource htimes hok
    have hshare : sys.source (share data (some ⟨i, n⟩)) = .ok batch := hsource
    refine (run_accounted_iff harrow hshare htimes hok).2.trans ?_
    exact ⟨fun h => h ⟨i, n⟩ rfl, fun h kp hkp => by cases hkp; exact h⟩
  constructor
  · intro h i hi batch times hsource htimes hswallowed
    have hshare : sys.source (share data (some ⟨i, n⟩)) = .ok batch := hsource
    have hrun : sys.run arrow (share data (some ⟨i, n⟩)) state = _ := run_of_times hshare htimes
    rw [if_neg fun hnil => hswallowed.kept (by rw [hnil]; rfl)] at hrun
    have hok : (sys.run arrow (share data (some ⟨i, n⟩)) state).result = .ok () := by
      rw [hrun]
      exact result_of_swallowed rfl hswallowed
    exact (hiff i batch times hsource htimes hok).mp (h.fates i hi batch times hsource htimes hok) hswallowed
  · intro h
    refine ⟨fun i hi batch times hsource htimes hok =>
      (hiff i batch times hsource htimes hok).mpr (h i hi batch times hsource htimes), fun hall hwhole => ?_⟩
    obtain ⟨batch, hsource, hempty | ⟨times, htimes⟩⟩ := exists_times hwhole
    · have hnone : ∀ partition, (sys.run arrow (share data partition) state).calls = [] := fun partition => by
        have hshare : sys.source (share data partition) = .ok batch := hsource
        rw [run_of_no_rows hshare hempty]
      rw [hnone, List.flatMap_eq_nil_iff.mpr fun i _ => by rw [hnone]; rfl]
      exact .refl _
    obtain ⟨placed, hplace, hassigned, hperm⟩ :=
      (run_accounted_iff harrow (show sys.source (share data none) = .ok batch from hsource) htimes hwhole).1
    have hshares : ∀ i ∈ List.range n, (deliveries (sys.run arrow (share data (some ⟨i, n⟩)) state).calls).Perm
        (placed.filter (inPartition (some ⟨i, n⟩))) := by
      intro i hi
      have hshare : sys.source (share data (some ⟨i, n⟩)) = .ok batch := hsource
      obtain ⟨placed', hplace', hassigned', hperm'⟩ :=
        (run_accounted_iff harrow hshare htimes (hall i (List.mem_range.mp hi))).1
      by_cases hkept : kept state (timed batch.rows times) = []
      · rw [hkept] at hassigned hassigned'
        rwa [assigned_nil hassigned, ← assigned_nil hassigned']
      · cases (hplace hkept).symm.trans (hplace' hkept)
        exact hperm'
    have hwhole : placed.filter (inPartition none) = placed := List.filter_eq_self.mpr fun _ _ => rfl
    rw [show (share data none).resources.keyPartition = none from rfl, hwhole] at hperm
    exact (List.Perm.flatMap_left _ hshares).trans ((perm_shares hn placed).trans hperm.symm)

end WindowedSystem

namespace WindowedSystem.Sample

/-- Positions in the order of their keys. -/
def lexsort (keys : List (Int × Int)) : List Nat :=
  (keys.zipIdx.insertionSort fun a b => toLex a.1 ≤ toLex b.1).map Prod.snd

def arrow : WindowArrow where
  castUtf8 col := .ok (col.cells.map fun
    | .text value => some value
    | _ => none)
  lexsort := lexsort
  reduce _ _ := 0

theorem sorts_arrow : arrow.Sorts where
  perm keys := by
    have hperm := (List.perm_insertionSort (fun a b : (Int × Int) × Nat => toLex a.1 ≤ toLex b.1)
      keys.zipIdx).map Prod.snd
    rwa [List.zipIdx_map_snd, ← List.range_eq_range'] at hperm
  sorted keys := by
    have hsorted := List.pairwise_insertionSort (fun a b : (Int × Int) × Nat => toLex a.1 ≤ toLex b.1)
      keys.zipIdx
    have hkeys : (lexsort keys).filterMap (keys[·]?) =
        (keys.zipIdx.insertionSort fun a b => toLex a.1 ≤ toLex b.1).map Prod.fst := by
      rw [lexsort, List.filterMap_map]
      refine (List.filterMap_congr fun x hx => ?_).trans (congrFun List.filterMap_eq_map _)
      have hx := (List.mem_insertionSort _).mp hx
      exact List.mem_zipIdx_iff_getElem?.mp hx
    rw [show arrow.lexsort keys = lexsort keys from rfl, hkeys]
    refine List.pairwise_map.mpr (hsorted.imp fun h => ?_)
    exact Prod.Lex.toLex_le_toLex.mp h

def trades : Schema := ⟨[⟨"ts", .int64, true⟩]⟩

/-- Two rows, a second apart. -/
def data : Dataset WindowResources where
  components := [⟨"Trade", 1, trades, [⟨trades, [[.int 0], [.int 1000]]⟩], none⟩]
  rowCount := 2
  alive := [true, true]
  liveCount := 2
  deadCount := 0
  resources := ⟨none, none, none⟩

def sys : WindowedSystem :=
  ⟨"Trade", "ts", [], .tumbling 1000 0, .process fun _ batch => .ok batch⟩

/-- The first row is late. -/
def state : WindowState := ⟨some ⟨1000, 100⟩, ∅⟩

/-- Without keys the first of two instances has every row: the second one loses the late row. -/
theorem second_swallows : ¬RowsAccounted sys arrow data state 2 := by
  intro h
  have hlate := (h.fates 1 (by decide) ⟨trades, [[.int 0], [.int 1000]]⟩ [some 0, some 1000] rfl rfl rfl).late
  exact absurd hlate (by decide)

theorem sole_accounts : RowsAccounted sys arrow data state 1 :=
  (rows_accounted_iff sorts_arrow data state Nat.one_pos).mpr fun _ _ _ _ _ _ hswallowed =>
    absurd hswallowed.instances (lt_irrefl 1)

end WindowedSystem.Sample
end Saci
