import Saci.Core.DatasetRows
import Saci.Core.WindowFates
import Mathlib.Algebra.Order.BigOperators.Group.List

/-!
# What a window has accumulated

The accumulator has a row for each source, window and key, and goes from run to run. A flush puts the
aggregate of its own run in the place of what earlier runs have left, with a count of one, and leaves out
the groups that fire late. So the rows of the accumulator are the aggregates of their groups over all the
runs exactly when every group has had one row.
-/

namespace Saci
namespace WindowedSystem
variable {sys : WindowedSystem} {arrow : WindowArrow} {data data' : Dataset WindowResources}
  {field : String} {aggregate : ReduceAggregate}

/-! ## The row of a group -/

/-- The cells that the aggregate of a group reads. -/
def inputs (idx : Nat) (call : WindowCall) : List Cell := call.rows.map fun row => row.cells.getD idx .null

/-- The result of a built-in aggregate for a group. -/
def reduced (sys : WindowedSystem) (arrow : WindowArrow) (aggregate : ReduceAggregate) (result : Schema)
    (idx : Nat) (call : WindowCall) : RecordBatch :=
  ⟨result, [[.int call.windowId, .int call.keyHash, .float (arrow.reduce aggregate (inputs idx call))] ++
    if sys.spec.isSession then
      [Cell.int ((call.rows.map WindowRow.timeMs).min?.getD 0), .int ((call.rows.map WindowRow.timeMs).max?.getD 0)]
    else []]⟩

/-- What a flush writes for a group. -/
def written (sys : WindowedSystem) (arrow : WindowArrow) (aggregate : ReduceAggregate) (result : Schema)
    (idx : Nat) (call : WindowCall) : Accumulator where
  version := some CURRENT_ACCUMULATOR_VERSION
  sourceComponent := sys.sourceComponent
  windowId := call.windowId
  keyHash := call.keyHash
  count := 1
  sumF64 := some (arrow.reduce aggregate (inputs idx call))
  minF64 := none
  maxF64 := none
  sessionStartTs := headInt (sys.reduced arrow aggregate result idx call) "session_start_ts"
  sessionEndTs := headInt (sys.reduced arrow aggregate result idx call) "session_end_ts"
  finalizedAtWatermark := none

/-- No aggregate is named as one of the other columns of a result. -/
theorem aggregateOutputName_ne (aggregate : ReduceAggregate) (field : String) :
    aggregateOutputName aggregate field ∉
      ["window_id", "key_hash", "session_start_ts", "session_end_ts"] := by
  have hhead : ∀ name : String, aggregateOutputName aggregate field = name →
      name.toList.take 3 ∈ ["sum".toList, "min".toList, "max".toList, "cou".toList, "mea".toList] := by
    rintro name rfl
    cases aggregate <;> simp [aggregateOutputName, toString]
  intro h
  simp only [List.mem_cons, List.not_mem_nil, or_false] at h
  rcases h with h | h | h | h
  all_goals
    have hmem := hhead _ h
    revert hmem
    decide

variable {idx : Nat} {call : WindowCall}

/-- The schema of the results of a built-in aggregate. -/
def reducedSchema (sys : WindowedSystem) (aggregate : ReduceAggregate) (field : String) : Schema :=
  sys.resultSchema ⟨aggregateOutputName aggregate field, .float64, true⟩

/-- The row of a result, from its first row and what the columns have there. -/
theorem accumulatorOf_eq {batch : RecordBatch} {row : List Cell} {windowIds keyHashes : List Int}
    {windowId keyHash : Int} (hrow : batch.rows.head? = some row)
    (hwindows : intColumn batch "window_id" = some windowIds) (hwindow : windowIds.head? = some windowId)
    (hkeys : intColumn batch "key_hash" = some keyHashes) (hkey : keyHashes.head? = some keyHash)
    {counted : Int × Option UInt64}
    (hcounted : countAndSum (batch.schema.fields.zipIdx.map fun (field, i) => (field, row[i]?)) (0, none) =
      counted) :
    sys.accumulatorOf batch = some ⟨some CURRENT_ACCUMULATOR_VERSION, sys.sourceComponent, windowId, keyHash,
      counted.1, counted.2, none, none, headInt batch "session_start_ts", headInt batch "session_end_ts", none⟩ := by
  subst hcounted
  rw [accumulatorOf, hrow, hwindows, hkeys]
  simp only [Option.bind_eq_bind, Option.bind_some, hwindow, hkey]
  rfl

/-- A flush counts one row for a group, however many there are. -/
theorem accumulatorOf_reduced :
    sys.accumulatorOf (sys.reduced arrow aggregate (reducedSchema sys aggregate field) idx call) =
      some (sys.written arrow aggregate (reducedSchema sys aggregate field) idx call) := by
  have hname := aggregateOutputName_ne aggregate field
  simp only [List.mem_cons, List.not_mem_nil, or_false] at hname
  have hwindow : intColumn (sys.reduced arrow aggregate (reducedSchema sys aggregate field) idx call) "window_id" =
    some [call.windowId] := rfl
  have hkey : intColumn (sys.reduced arrow aggregate (reducedSchema sys aggregate field) idx call) "key_hash" =
    some [call.keyHash] := rfl
  let batch := sys.reduced arrow aggregate (reducedSchema sys aggregate field) idx call
  have hcount : countAndSum (batch.schema.fields.zipIdx.map fun (field, i) =>
      (field, (batch.rows.headI)[i]?)) (0, none) = (1, some (arrow.reduce aggregate (inputs idx call))) := by
    cases hspec : sys.spec.isSession <;>
      simp [batch, reduced, reducedSchema, resultSchema, sessionFields, hspec, countAndSum, hname]
  exact accumulatorOf_eq rfl hwindow rfl hkey rfl hcount

/-! ## A flush -/

/-- A row of the accumulator is for a group of the source. -/
def IsFor (sys : WindowedSystem) (group : Int × Int) (cells : List Cell) : Prop :=
  cells[1]? = some (.text sys.sourceComponent) ∧ cells[2]? = some (.int group.1) ∧ cells[3]? = some (.int group.2)

instance (group : Int × Int) : DecidablePred (IsFor sys group) := fun _ => inferInstanceAs (Decidable (_ ∧ _ ∧ _))

def Accumulator.group (acc : Accumulator) : Int × Int := (acc.windowId, acc.keyHash)

theorem isFor_toRow {acc : Accumulator} (h : acc.sourceComponent = sys.sourceComponent) {group : Int × Int} :
    IsFor sys group acc.toRow ↔ acc.group = group := by
  simp [IsFor, Accumulator.toRow, Accumulator.group, h, Prod.ext_iff]

/-- Nothing is superseded where the accumulator has none of the groups. -/
theorem superseded_eq_nil {accs : List Accumulator} {groups : List (Int × Int)} {rowCount : Nat}
    (h : ∀ acc ∈ accs, acc.group ∉ groups) :
    sys.superseded ⟨accumulatorSchema, accs.map Accumulator.toRow⟩ groups rowCount = [] := by
  have hsources : textColumn ⟨accumulatorSchema, accs.map Accumulator.toRow⟩ "source_component" =
      some (accs.map Accumulator.sourceComponent) := by
    refine congrArg some ?_
    rw [RecordBatch.column, List.map_map, List.map_map]
    rfl
  have hwindows : intColumn ⟨accumulatorSchema, accs.map Accumulator.toRow⟩ "window_id" =
      some (accs.map Accumulator.windowId) := by
    refine congrArg some ?_
    rw [RecordBatch.column, List.map_map, List.map_map]
    rfl
  have hkeys : intColumn ⟨accumulatorSchema, accs.map Accumulator.toRow⟩ "key_hash" =
      some (accs.map Accumulator.keyHash) := by
    refine congrArg some ?_
    rw [RecordBatch.column, List.map_map, List.map_map]
    rfl
  rw [superseded, hsources, hwindows, hkeys]
  refine List.filter_eq_nil_iff.mpr fun i hi hmatch => ?_
  have hlt : i < accs.length := by
    have hlt := (List.mem_range.mp hi).trans_le (min_le_right _ _)
    rwa [RecordBatch.numRows, List.length_map] at hlt
  rw [Bool.and_eq_true, List.any_eq_true] at hmatch
  obtain ⟨-, group, hgroup, hmatch⟩ := hmatch
  simp only [List.getElem?_map, List.getElem?_eq_getElem hlt, Option.map_some, Option.some.injEq,
    Bool.and_eq_true, decide_eq_true_eq] at hmatch
  have hsame : accs[i].group = group := Prod.ext hmatch.1 hmatch.2
  exact h _ (List.getElem_mem hlt) (hsame ▸ hgroup)

/-- What a flush leaves of the accumulator. -/
structure Flushed (data : Dataset WindowResources) (accs news : List Accumulator) (rows : List (List Cell)) :
    Prop where
  sublist : rows.Sublist ((accs ++ news).map Accumulator.toRow)
  alive : rows.length = (accs ++ news).length → news ≠ [] → data.AllAlive (accs ++ news).length
  all : (∀ acc ∈ accs, acc.group ∉ news.map Accumulator.group) →
    (news ≠ [] → data.AllAlive (accs ++ news).length) → rows = (accs ++ news).map Accumulator.toRow

/-- What compacting leaves of the accumulator, once the superseded rows are marked and the new ones are in. -/
theorem flushed_compact {accs news : List Accumulator} {marked appended : Dataset WindowResources}
    (hcounted : data.Counted) (hne : news ≠ []) (hdead : Dataset.MarkedDead data marked)
    (hsame : (∀ acc ∈ accs, acc.group ∉ news.map Accumulator.group) → marked = data)
    (hbatch : appended.batchFor ACCUMULATOR = some ⟨accumulatorSchema, (accs ++ news).map Accumulator.toRow⟩)
    (hcount : appended.deadCount = marked.deadCount)
    (halive : ∀ i < (accs ++ news).length,
      appended.isAlive i = if i < marked.rowCount then marked.isAlive i else true)
    (hcompact : appended.compact = (data', .ok ())) :
    ∃ rows, data'.batchFor ACCUMULATOR = some ⟨accumulatorSchema, rows⟩ ∧ Flushed data accs news rows := by
  by_cases hzero : appended.deadCount = 0
  · rw [Dataset.compact, if_pos hzero] at hcompact
    cases hcompact
    have hnone : data.deadCount = 0 := by
      have hle := hdead.deadCount
      omega
    exact ⟨_, hbatch, .refl _, fun _ _ => hcounted.allAlive hnone _, fun _ _ => rfl⟩
  · have hkept := Dataset.batchFor_compact ACCUMULATOR hcompact hzero
    rw [hbatch] at hkept
    refine ⟨_, hkept, RecordBatch.maskFilter_sublist _ _, fun hlen _ i hi hlt => ?_, fun hfresh hall => ?_⟩
    · have hmask := RecordBatch.length_maskFilter_eq_iff.mp (hlen.trans (List.length_map _).symm)
      rw [List.length_map] at hmask
      have hbit : appended.isAlive i = true := hmask i hlt
      rw [halive i hlt, if_pos (hdead.rowCount ▸ hi)] at hbit
      exact hdead.alive i hbit
    · obtain rfl := hsame hfresh
      refine (RecordBatch.maskFilter_sublist _ _).eq_of_length
        (RecordBatch.length_maskFilter_eq_iff.mpr fun i hi => ?_)
      rw [List.length_map] at hi
      have hbit : appended.isAlive i = true := by
        rw [halive i hi]
        split_ifs with hrow
        · exact hall hne i hrow hi
        · rfl
      exact hbit

theorem flushAccumulator_spec {accs : List Accumulator} {results : List RecordBatch} {news : List Accumulator}
    (hcounted : data.Counted)
    (hacc : data.batchFor ACCUMULATOR = some ⟨accumulatorSchema, accs.map Accumulator.toRow⟩)
    (hnews : results.map sys.accumulatorOf = news.map some)
    (hgroups : results.flatMap batchGroups = news.map Accumulator.group)
    (h : sys.flushAccumulator data results = (data', .ok ())) :
    ∃ rows, data'.batchFor ACCUMULATOR = some ⟨accumulatorSchema, rows⟩ ∧ Flushed data accs news rows := by
  rw [flushAccumulator] at h
  split_ifs at h with hempty
  · have hnil : news = [] := by
      rw [List.isEmpty_iff.mp hempty] at hnews
      exact List.map_eq_nil_iff.mp hnews.symm
    cases h
    subst hnil
    refine ⟨_, hacc, ?_, fun _ hne => absurd rfl hne, fun _ _ => ?_⟩
    · rw [List.append_nil]
    · rw [List.append_nil]
  have hne : news ≠ [] := by
    rintro rfl
    exact hempty (List.isEmpty_iff.mpr (List.map_eq_nil_iff.mp hnews))
  have hrows : results.filterMap sys.accumulatorOf = news := by
    have hmap : (results.map sys.accumulatorOf).filterMap id = (news.map some).filterMap id := by rw [hnews]
    rw [List.filterMap_map, List.filterMap_map] at hmap
    exact hmap.trans List.filterMap_some
  rw [hacc] at h
  dsimp only at h
  rw [hrows, if_neg fun hnil => hne (List.isEmpty_iff.mp hnil)] at h
  obtain ⟨marked, hmarked⟩ : ∃ marked, (sys.superseded ⟨accumulatorSchema, accs.map Accumulator.toRow⟩
      (results.flatMap batchGroups) data.rowCount).foldl Dataset.markDead data = marked := ⟨_, rfl⟩
  have hdead : Dataset.MarkedDead data marked := hmarked ▸ Dataset.markedDead_foldl data _
  have hsame : (∀ acc ∈ accs, acc.group ∉ news.map Accumulator.group) → marked = data := by
    intro hfresh
    rw [← hmarked, hgroups, superseded_eq_nil hfresh]
    rfl
  rw [hmarked] at h
  cases happend : marked.append (fun rows => .ok ⟨accumulatorSchema, rows.map Accumulator.toRow⟩)
      ACCUMULATOR news with
  | error e =>
    rw [happend] at h
    cases h
  | ok result =>
    obtain ⟨appended, range⟩ := result
    rw [happend] at h
    have hfor : marked.batchFor ACCUMULATOR = some ⟨accumulatorSchema, accs.map Accumulator.toRow⟩ := by
      rw [Dataset.batchFor, Dataset.find, hdead.components]
      exact hacc
    obtain ⟨hbatch, hcount, halive⟩ := Dataset.append_spec hfor
      ((hdead.length.trans hcounted.alive).trans hdead.rowCount.symm) hne happend
    have hlength : RecordBatch.numRows ⟨accumulatorSchema, accs.map Accumulator.toRow⟩ + news.length =
        (accs ++ news).length := by
      rw [List.length_append, RecordBatch.numRows, List.length_map]
    have hfull : accs.map Accumulator.toRow ++ news.map Accumulator.toRow =
        (accs ++ news).map Accumulator.toRow := List.map_append.symm
    rw [hlength] at halive
    dsimp only at hbatch
    rw [hfull] at hbatch
    dsimp only [Except.map] at h
    split at h
    · cases h
    rename_i compacted hcompact
    cases h
    exact flushed_compact hcounted hne hdead hsame hbatch hcount halive hcompact

/-! ## A run -/

variable {schema result : Schema} {dataType : DataType} {watermark : Int} {fired fired' : Fired}
  {state : WindowState} {skipped : Nat} {sideOutput : List RecordBatch} {placed : List PlacedRow}

/-- The groups that fire on time. -/
def onTime (calls : List WindowCall) : List WindowCall := calls.filter fun call => !call.isLateFiring

theorem aggregateSlice_reduce (hfunction : sys.function = .reduce field aggregate) {late : Bool}
    {batch : RecordBatch} (h : sys.aggregateSlice arrow schema result idx dataType watermark late
      call.windowId call.keyHash call.rows = .ok batch) :
    dataType = .float64 ∧ batch = sys.reduced arrow aggregate result idx call := by
  unfold aggregateSlice at h
  rw [hfunction] at h
  dsimp only at h
  split_ifs at h with htype hsession
  all_goals cases h
  all_goals
    refine ⟨not_not.mp htype, ?_⟩
    simp only [reduced, inputs, hsession]
    rfl

/-- Which groups of a run fire late, once `emitted` were emitted. -/
structure Called (emitted : Finset (Int × Int)) (calls : List WindowCall) : Prop where
  late : ∀ call ∈ calls, call.group ∈ emitted → call.isLateFiring = true
  first : (calls.map WindowCall.group).Nodup → ∀ call ∈ calls, call.isLateFiring = true → call.group ∈ emitted

theorem Called.cons {emitted : Finset (Int × Int)} {calls : List WindowCall}
    (h : Called (insert call.group emitted) calls) (hlate : call.isLateFiring = decide (call.group ∈ emitted)) :
    Called emitted (call :: calls) := by
  constructor
  · rintro other (_ | ⟨_, hother⟩) hmem
    · exact hlate.trans (decide_eq_true hmem)
    · exact h.late other hother (Finset.mem_insert_of_mem hmem)
  · rintro hnodup other (_ | ⟨_, hother⟩) hfires
    · exact of_decide_eq_true (hlate.symm.trans hfires)
    · rw [List.map_cons, List.nodup_cons] at hnodup
      refine (Finset.mem_insert.mp (h.first hnodup.2 other hother hfires)).resolve_left fun hsame => ?_
      exact hnodup.1 (hsame ▸ List.mem_map_of_mem hother)

/-- The results on time are those of the groups that fire on time. -/
theorem aggregateGroups_reduce (hfunction : sys.function = .reduce field aggregate)
    {groups : List (List PlacedRow)}
    (h : sys.aggregateGroups arrow schema result idx dataType watermark fired groups = (fired', .ok ())) :
    ∃ calls, fired'.calls = fired.calls ++ calls ∧ (∀ call ∈ calls, call.rows ≠ [] ∧ dataType = .float64) ∧
      Called fired.emitted calls ∧
      fired'.onTime = fired.onTime ++ (onTime calls).map (sys.reduced arrow aggregate result idx) := by
  induction groups generalizing fired with
  | nil =>
    cases h
    exact ⟨[], (List.append_nil _).symm, nofun, ⟨nofun, fun _ => nofun⟩, (List.append_nil _).symm⟩
  | cons group groups ih =>
    cases group with
    | nil => exact ih h
    | cons head tail =>
      rw [aggregateGroups] at h
      split at h
      · cases h
      · rename_i batch hbatch
        obtain ⟨calls, hcalls, hrows, hcalled, honTime⟩ := ih h
        let call : WindowCall := ⟨head.windowId, head.keyHash, (head :: tail).map PlacedRow.row,
          decide (head.group ∈ fired.emitted)⟩
        have hslice : dataType = .float64 ∧ batch = sys.reduced arrow aggregate result idx call :=
          aggregateSlice_reduce hfunction hbatch
        obtain ⟨htype, rfl⟩ := hslice
        refine ⟨call :: calls, hcalls.trans (List.append_assoc ..), ?_, .cons hcalled rfl, ?_⟩
        · rintro other (_ | ⟨_, hother⟩)
          · exact ⟨List.cons_ne_nil _ _, htype⟩
          · exact hrows other hother
        · rw [honTime]
          dsimp only
          rw [onTime, onTime, List.filter_cons]
          cases hlate : decide (head.group ∈ fired.emitted) with
          | true => rw [if_pos rfl, if_neg (by rw [show call.isLateFiring = true from hlate]; decide)]
          | false =>
            rw [if_neg Bool.false_ne_true, if_pos (by rw [show call.isLateFiring = false from hlate]; rfl),
              List.map_cons, List.append_assoc]
            rfl

/-- The column that the aggregate of a run reads. -/
def inputIdx (sys : WindowedSystem) (data : Dataset WindowResources) : Nat :=
  match sys.source data, sys.function with
  | .ok batch, .reduce inputField _ => (batch.schema.indexOf inputField).getD 0
  | _, _ => 0

/-- What the flush of a run writes for a group. -/
def writtenBy (sys : WindowedSystem) (arrow : WindowArrow) (field : String) (aggregate : ReduceAggregate)
    (data : Dataset WindowResources) (call : WindowCall) : Accumulator :=
  sys.written arrow aggregate (reducedSchema sys aggregate field) (sys.inputIdx data) call

/-- What a run that succeeds has done with the accumulator. -/
structure RunFlushed (sys : WindowedSystem) (arrow : WindowArrow) (field : String) (aggregate : ReduceAggregate)
    (data : Dataset WindowResources) (emitted : Finset (Int × Int)) (accs : List Accumulator) (out : Outcome) :
    Prop where
  rows : ∀ call ∈ out.calls, call.rows ≠ []
  called : Called emitted out.calls
  flushed : ∃ rows, out.data.batchFor ACCUMULATOR = some ⟨accumulatorSchema, rows⟩ ∧
    Flushed data accs ((onTime out.calls).map (sys.writtenBy arrow field aggregate data)) rows

theorem Flushed.nil (data : Dataset WindowResources) (accs : List Accumulator) :
    Flushed data accs [] (accs.map Accumulator.toRow) where
  sublist := by rw [List.append_nil]
  alive _ hne := absurd rfl hne
  all _ _ := by rw [List.append_nil]

/-- A run without groups leaves the accumulator alone. -/
theorem RunFlushed.quiet {emitted : Finset (Int × Int)} {accs : List Accumulator}
    (hacc : data.batchFor ACCUMULATOR = some ⟨accumulatorSchema, accs.map Accumulator.toRow⟩)
    (results : WindowResults) (result : SaciResult Unit) :
    RunFlushed sys arrow field aggregate data emitted accs
      ⟨state, insertResults data results, result, skipped, []⟩ :=
  ⟨nofun, ⟨nofun, fun _ => nofun⟩, _, hacc, .nil data accs⟩

theorem runGroups_flushed (hfunction : sys.function = .reduce field aggregate) {accs : List Accumulator}
    {batch : RecordBatch} (hsource : sys.source data = .ok batch) (hcounted : data.Counted)
    (hacc : data.batchFor ACCUMULATOR = some ⟨accumulatorSchema, accs.map Accumulator.toRow⟩)
    (h : (sys.runGroups arrow data state batch.schema skipped sideOutput placed).result = .ok ()) :
    RunFlushed sys arrow field aggregate data state.emitted accs
      (sys.runGroups arrow data state batch.schema skipped sideOutput placed) := by
  revert h
  unfold runGroups
  split
  · nofun
  rename_i result idx dataType hprepare
  dsimp only
  split
  · nofun
  rename_i fired hfired
  obtain ⟨calls, hcalls, hrows, hcalled, honTime⟩ := aggregateGroups_reduce hfunction hfired
  rw [List.nil_append] at hcalls honTime
  rw [if_pos (by rw [hacc]; rfl)]
  split
  · nofun
  rename_i flushed hflush
  intro _
  rw [hcalls]
  refine ⟨fun call hcall => (hrows call hcall).1, hcalled, ?_⟩
  have hschema : calls ≠ [] → result = reducedSchema sys aggregate field ∧ idx = sys.inputIdx data := by
    intro hne
    obtain ⟨call, hcall⟩ := List.exists_mem_of_ne_nil _ hne
    have htype := (hrows call hcall).2
    unfold prepareAggregateInputs at hprepare
    rw [hfunction] at hprepare
    dsimp only at hprepare
    split at hprepare
    · cases hprepare
    · rename_i idx hidx
      cases hprepare
      rw [inputIdx, hsource, hfunction]
      dsimp only
      rw [hidx, reducedSchema, htype]
      exact ⟨rfl, rfl⟩
  have hsame : (onTime calls).map (sys.reduced arrow aggregate result idx) = (onTime calls).map
      (sys.reduced arrow aggregate (reducedSchema sys aggregate field) (sys.inputIdx data)) := by
    by_cases hne : calls = []
    · rw [hne]
      rfl
    · obtain ⟨rfl, rfl⟩ := hschema hne
      rfl
  rw [honTime, hsame] at hflush
  have hnews : ((onTime calls).map (sys.reduced arrow aggregate (reducedSchema sys aggregate field)
      (sys.inputIdx data))).map sys.accumulatorOf =
        ((onTime calls).map (sys.writtenBy arrow field aggregate data)).map some := by
    rw [List.map_map, List.map_map]
    exact List.map_congr_left fun call _ => accumulatorOf_reduced
  have hgroups : ((onTime calls).map (sys.reduced arrow aggregate (reducedSchema sys aggregate field)
      (sys.inputIdx data))).flatMap batchGroups =
        ((onTime calls).map (sys.writtenBy arrow field aggregate data)).map Accumulator.group := by
    rw [List.flatMap_map, List.map_map]
    exact List.map_eq_flatMap.symm
  obtain ⟨rows, hbatch, hflushed⟩ := flushAccumulator_spec hcounted hacc hnews hgroups hflush
  exact ⟨rows, hbatch, hflushed⟩

theorem runTimed_flushed (hfunction : sys.function = .reduce field aggregate) {accs : List Accumulator}
    {batch : RecordBatch} {timed : List WindowRow} (hsource : sys.source data = .ok batch)
    (hcounted : data.Counted)
    (hacc : data.batchFor ACCUMULATOR = some ⟨accumulatorSchema, accs.map Accumulator.toRow⟩)
    (h : (sys.runTimed arrow data state batch.schema skipped timed).result = .ok ()) :
    RunFlushed sys arrow field aggregate data state.emitted accs
      (sys.runTimed arrow data state batch.schema skipped timed) := by
  by_cases hkept : kept state timed = []
  · rw [runTimed_of_kept_nil hkept]
    exact .quiet hacc _ _
  cases hplace : sys.place arrow batch.schema (kept state timed) with
  | error e =>
    rw [runTimed_of_place_error hkept hplace] at h
    cases h
  | ok placed =>
    rw [runTimed_of_place hkept hplace] at h ⊢
    split_ifs at h ⊢
    · exact ⟨nofun, ⟨nofun, fun _ => nofun⟩, _, hacc, .nil data accs⟩
    · exact runGroups_flushed hfunction hsource hcounted hacc h

/-- A run that succeeds flushes the groups that fire on time, and no others. -/
theorem run_flushed (hfunction : sys.function = .reduce field aggregate) {accs : List Accumulator}
    (hcounted : data.Counted)
    (hacc : data.batchFor ACCUMULATOR = some ⟨accumulatorSchema, accs.map Accumulator.toRow⟩)
    (h : (sys.run arrow data state).result = .ok ()) :
    RunFlushed sys arrow field aggregate data state.emitted accs (sys.run arrow data state) := by
  obtain ⟨batch, hsource, hempty | ⟨times, htimes⟩⟩ := exists_times h
  · rw [run_of_no_rows hsource hempty]
    exact .quiet hacc _ _
  · rw [run_of_times hsource htimes] at h ⊢
    split_ifs at h ⊢
    · exact .quiet hacc _ _
    · exact runTimed_flushed hfunction hsource hcounted hacc h

/-! ## Runs, each seeded by the one before -/

/-- A dataset that a run starts on, with these rows in the accumulator. -/
structure Seeded (data : Dataset WindowResources) (rows : List (List Cell)) : Prop where
  counted : data.Counted
  batch : data.batchFor ACCUMULATOR = some ⟨accumulatorSchema, rows⟩

/-- What runs leave in the accumulator, each seeded with what the one before it has left. The state that a
run starts from is any: the system may be a new one, or may have failed in between. -/
inductive Runs (sys : WindowedSystem) (arrow : WindowArrow) :
    List (Dataset WindowResources × WindowState) → List (List Cell) → Prop
  | start : Runs sys arrow [] []
  | run {past rows data state rows'} (before : Runs sys arrow past rows) (seeded : Seeded data rows)
      (ok : (sys.run arrow data state).result = .ok ())
      (left : (sys.run arrow data state).data.batchFor ACCUMULATOR = some ⟨accumulatorSchema, rows'⟩) :
      Runs sys arrow (past ++ [(data, state)]) rows'

variable {past : List (Dataset WindowResources × WindowState)} {rows : List (List Cell)}

/-- The groups of a run, each with the dataset of the run. -/
def groupsOf (sys : WindowedSystem) (arrow : WindowArrow) (step : Dataset WindowResources × WindowState) :
    List (Dataset WindowResources × WindowCall) :=
  (sys.run arrow step.1 step.2).calls.map fun call => (step.1, call)

/-- The groups of all the runs. -/
def seen (sys : WindowedSystem) (arrow : WindowArrow) (past : List (Dataset WindowResources × WindowState)) :
    List (Dataset WindowResources × WindowCall) := past.flatMap (sys.groupsOf arrow)

/-- The inputs of a group, from every run. -/
def groupInputs (sys : WindowedSystem) (arrow : WindowArrow)
    (past : List (Dataset WindowResources × WindowState)) (group : Int × Int) : List Cell :=
  ((sys.seen arrow past).filter fun p => p.2.group = group).flatMap fun p => inputs (sys.inputIdx p.1) p.2

/-- The accumulator has one row for every group that was seen, with the number of its rows and their
aggregate. -/
def Accumulated (sys : WindowedSystem) (arrow : WindowArrow) (aggregate : ReduceAggregate)
    (past : List (Dataset WindowResources × WindowState)) (rows : List (List Cell)) : Prop :=
  ∀ p ∈ sys.seen arrow past, ∃ acc : Accumulator,
    rows.filter (fun cells => IsFor sys p.2.group cells) = [acc.toRow] ∧
    acc.count = (sys.groupInputs arrow past p.2.group).length ∧
    acc.sumF64 = some (arrow.reduce aggregate (sys.groupInputs arrow past p.2.group))

/-- Every group has one row over all the runs, and was not emitted before the run that has it; and no
dead row of a dataset is where the accumulator has its rows. -/
structure SoleRows (sys : WindowedSystem) (arrow : WindowArrow)
    (past : List (Dataset WindowResources × WindowState)) : Prop where
  sole : ∀ p ∈ sys.seen arrow past, (sys.groupInputs arrow past p.2.group).length = 1
  fresh : ∀ step ∈ past, ∀ p ∈ sys.groupsOf arrow step, p.2.group ∉ step.2.emitted
  alive : ∀ step ∈ past, sys.groupsOf arrow step ≠ [] → ∀ acc, step.1.batchFor ACCUMULATOR = some acc →
    step.1.AllAlive (acc.numRows + (sys.groupsOf arrow step).length)

theorem seen_append_singleton (step : Dataset WindowResources × WindowState) :
    sys.seen arrow (past ++ [step]) = sys.seen arrow past ++ sys.groupsOf arrow step := by
  rw [seen, seen, List.flatMap_append, List.flatMap_singleton]

theorem length_groupInputs (group : Int × Int) : (sys.groupInputs arrow past group).length =
    (((sys.seen arrow past).filter fun p => p.2.group = group).map fun p => p.2.rows.length).sum := by
  rw [groupInputs, List.length_flatMap]
  refine congrArg List.sum (List.map_congr_left fun p _ => ?_)
  rw [inputs, List.length_map]

/-- The one call of a group that has one row over all the runs. -/
theorem filter_seen_eq (hrows : ∀ p ∈ sys.seen arrow past, p.2.rows ≠ [])
    {p : Dataset WindowResources × WindowCall} (hp : p ∈ sys.seen arrow past)
    (hsole : (sys.groupInputs arrow past p.2.group).length = 1) :
    ((sys.seen arrow past).filter fun q => q.2.group = p.2.group) = [p] := by
  rw [length_groupInputs] at hsole
  have hmem : p ∈ (sys.seen arrow past).filter fun q => q.2.group = p.2.group :=
    List.mem_filter.mpr ⟨hp, decide_eq_true rfl⟩
  have hpos : ∀ n ∈ ((sys.seen arrow past).filter fun q => q.2.group = p.2.group).map
      fun q => q.2.rows.length, 1 ≤ n := by
    intro n hn
    obtain ⟨q, hq, rfl⟩ := List.mem_map.mp hn
    exact List.length_pos_iff.mpr (hrows q (List.mem_filter.mp hq).1)
  have hle := List.length_le_sum_of_one_le _ hpos
  rw [hsole, List.length_map] at hle
  obtain ⟨q, hq⟩ := List.length_eq_one_iff.mp (le_antisymm hle (List.length_pos_of_mem hmem))
  rw [hq] at hmem ⊢
  rw [List.mem_singleton.mp hmem]

/-- Where every group has one row, no group comes twice. -/
theorem nodup_seen (hrows : ∀ p ∈ sys.seen arrow past, p.2.rows ≠ [])
    (hsole : ∀ p ∈ sys.seen arrow past, (sys.groupInputs arrow past p.2.group).length = 1) :
    ((sys.seen arrow past).map fun p => p.2.group).Nodup := by
  rw [List.nodup_iff_count_le_one]
  intro group
  by_cases hmem : group ∈ (sys.seen arrow past).map fun p => p.2.group
  · obtain ⟨p, hp, rfl⟩ := List.mem_map.mp hmem
    have hfilter := congrArg List.length (filter_seen_eq hrows hp (hsole p hp))
    rw [List.count, List.countP_map, List.countP_eq_length_filter]
    have hpred : ((fun x => x == p.2.group) ∘ fun p : Dataset WindowResources × WindowCall => p.2.group) =
        fun q => decide (q.2.group = p.2.group) := funext fun q => beq_eq_decide _ _
    rw [hpred, hfilter]
    rfl
  · rw [List.count_eq_zero.mpr hmem]
    exact Nat.zero_le _

/-- The condition holds of the runs so far where it holds of one more. -/
theorem SoleRows.of_append {step : Dataset WindowResources × WindowState}
    (hrows : ∀ p ∈ sys.seen arrow past, p.2.rows ≠ []) (h : SoleRows sys arrow (past ++ [step])) :
    SoleRows sys arrow past where
  sole p hp := by
    have hone := h.sole p (by rw [seen_append_singleton]; exact List.mem_append_left _ hp)
    rw [length_groupInputs, seen_append_singleton, List.filter_append, List.map_append, List.sum_append] at hone
    rw [length_groupInputs]
    have hmem : p ∈ (sys.seen arrow past).filter fun q => q.2.group = p.2.group :=
      List.mem_filter.mpr ⟨hp, decide_eq_true rfl⟩
    have hle : p.2.rows.length ≤ _ :=
      List.le_sum_of_mem (List.mem_map_of_mem (f := fun q => q.2.rows.length) hmem)
    have hpos := List.length_pos_iff.mpr (hrows p hp)
    omega
  fresh step' hstep := h.fresh step' (List.mem_append_left _ hstep)
  alive step' hstep := h.alive step' (List.mem_append_left _ hstep)

/-- What the accumulator comes to over any runs. -/
structure Ledger (sys : WindowedSystem) (arrow : WindowArrow) (field : String) (aggregate : ReduceAggregate)
    (past : List (Dataset WindowResources × WindowState)) (accs : List Accumulator) : Prop where
  each : ∀ acc ∈ accs, acc.sourceComponent = sys.sourceComponent ∧ acc.count = 1
  rows : ∀ p ∈ sys.seen arrow past, p.2.rows ≠ []
  length : accs.length ≤ (sys.seen arrow past).length
  whole : accs.length = (sys.seen arrow past).length →
    (∀ step ∈ past, ∀ p ∈ sys.groupsOf arrow step, p.2.group ∉ step.2.emitted) ∧
    ∀ step ∈ past, sys.groupsOf arrow step ≠ [] → ∀ acc, step.1.batchFor ACCUMULATOR = some acc →
      step.1.AllAlive (acc.numRows + (sys.groupsOf arrow step).length)
  sole : SoleRows sys arrow past →
    accs = (sys.seen arrow past).map fun p => sys.writtenBy arrow field aggregate p.1 p.2

section
variable {accs accs' news : List Accumulator} {state : WindowState}

theorem Ledger.rows_run (hledger : Ledger sys arrow field aggregate past accs)
    (hrows : ∀ call ∈ (sys.run arrow data state).calls, call.rows ≠ []) :
    ∀ p ∈ sys.seen arrow (past ++ [(data, state)]), p.2.rows ≠ [] := by
  intro p hp
  rw [seen_append_singleton] at hp
  rcases List.mem_append.mp hp with hold | hnew
  · exact hledger.rows p hold
  · obtain ⟨call, hcall, rfl⟩ := List.mem_map.mp hnew
    exact hrows call hcall

/-- Where a run leaves as many rows as there were groups, it met none of them before, and the rows it
extended were alive. -/
theorem Ledger.whole_run (hledger : Ledger sys arrow field aggregate past accs)
    (hseeded : Seeded data (accs.map Accumulator.toRow))
    (hcalled : Called state.emitted (sys.run arrow data state).calls)
    (hnews : news = (onTime (sys.run arrow data state).calls).map (sys.writtenBy arrow field aggregate data))
    (hflushed : Flushed data accs news (accs'.map Accumulator.toRow))
    (hlength : accs'.length ≤ accs.length + news.length)
    (hwhole : accs'.length = (sys.seen arrow (past ++ [(data, state)])).length) :
    (∀ step ∈ past ++ [(data, state)], ∀ p ∈ sys.groupsOf arrow step, p.2.group ∉ step.2.emitted) ∧
      ∀ step ∈ past ++ [(data, state)], sys.groupsOf arrow step ≠ [] →
        ∀ acc, step.1.batchFor ACCUMULATOR = some acc →
          step.1.AllAlive (acc.numRows + (sys.groupsOf arrow step).length) := by
  have hgroups : (sys.groupsOf arrow (data, state)).length = (sys.run arrow data state).calls.length :=
    List.length_map _
  have hcount : news.length = (onTime (sys.run arrow data state).calls).length := by
    rw [hnews, List.length_map]
  have hle : (onTime (sys.run arrow data state).calls).length ≤ (sys.run arrow data state).calls.length :=
    List.length_filter_le _ _
  have hbefore := hledger.length
  rw [seen_append_singleton, List.length_append] at hwhole
  have hlen : (onTime (sys.run arrow data state).calls).length = (sys.run arrow data state).calls.length := by
    omega
  have hall : onTime (sys.run arrow data state).calls = (sys.run arrow data state).calls :=
    List.filter_sublist.eq_of_length hlen
  obtain ⟨hfresh, halive⟩ := hledger.whole (by omega)
  refine ⟨fun step hstep => ?_, fun step hstep => ?_⟩
  · rcases List.mem_append.mp hstep with hold | hnew
    · exact hfresh step hold
    · obtain rfl := List.mem_singleton.mp hnew
      intro p hp hemitted
      obtain ⟨call, hcall, rfl⟩ := List.mem_map.mp hp
      have hlate := hcalled.late call hcall hemitted
      have honTime := (List.mem_filter.mp (hall ▸ hcall)).2
      rw [hlate] at honTime
      cases honTime
  · rcases List.mem_append.mp hstep with hold | hnew
    · exact halive step hold
    · obtain rfl := List.mem_singleton.mp hnew
      intro hne acc hacc
      cases hacc.symm.trans hseeded.batch
      have hfull : (accs'.map Accumulator.toRow).length = (accs ++ news).length := by
        rw [List.length_map, List.length_append]
        omega
      have hnonempty : news ≠ [] := by
        rw [← List.length_pos_iff] at hne ⊢
        omega
      have hallAlive := hflushed.alive hfull hnonempty
      rw [List.length_append] at hallAlive
      rw [RecordBatch.numRows, List.length_map, hgroups]
      convert hallAlive using 2
      omega

/-- Where every row of a group comes in one run, a run adds the row of each of its groups. -/
theorem Ledger.sole_run (hledger : Ledger sys arrow field aggregate past accs)
    (hseeded : Seeded data (accs.map Accumulator.toRow))
    (hrows : ∀ call ∈ (sys.run arrow data state).calls, call.rows ≠ [])
    (hcalled : Called state.emitted (sys.run arrow data state).calls)
    (hnews : news = (onTime (sys.run arrow data state).calls).map (sys.writtenBy arrow field aggregate data))
    (hflushed : Flushed data accs news (accs'.map Accumulator.toRow)) (hsub : accs'.Sublist (accs ++ news))
    (hsole : SoleRows sys arrow (past ++ [(data, state)])) :
    accs' = (sys.seen arrow (past ++ [(data, state)])).map fun p =>
      sys.writtenBy arrow field aggregate p.1 p.2 := by
  have hseen : sys.seen arrow (past ++ [(data, state)]) = _ := seen_append_singleton (data, state)
  have haccs := hledger.sole (hsole.of_append hledger.rows)
  have hnodup := nodup_seen (hledger.rows_run hrows) hsole.sole
  rw [hseen, List.map_append, List.nodup_append] at hnodup
  obtain ⟨-, hnodup, hdisjoint⟩ := hnodup
  rw [groupsOf, List.map_map] at hnodup hdisjoint
  have hlast : (data, state) ∈ past ++ [(data, state)] := List.mem_append_right _ (List.mem_singleton.mpr rfl)
  have hall : onTime (sys.run arrow data state).calls = (sys.run arrow data state).calls := by
    refine List.filter_eq_self.mpr fun call hcall => ?_
    rw [Bool.not_eq_true']
    refine Bool.of_not_eq_true fun hlate => ?_
    exact hsole.fresh _ hlast (data, call) (List.mem_map_of_mem hcall) (hcalled.first hnodup call hcall hlate)
  rw [hall] at hnews
  have hfresh : ∀ acc ∈ accs, acc.group ∉ news.map Accumulator.group := by
    intro acc hacc hmem
    rw [haccs] at hacc
    obtain ⟨p, hp, rfl⟩ := List.mem_map.mp hacc
    rw [hnews, List.map_map] at hmem
    exact hdisjoint _ (List.mem_map_of_mem hp) _ hmem rfl
  have halive : news ≠ [] → data.AllAlive (accs ++ news).length := by
    intro hne
    have hsome : sys.groupsOf arrow (data, state) ≠ [] := by
      rintro hnil
      rw [groupsOf, List.map_eq_nil_iff] at hnil
      rw [hnews, hnil] at hne
      exact hne rfl
    have hallAlive := hsole.alive _ hlast hsome _ hseeded.batch
    rw [RecordBatch.numRows, List.length_map, groupsOf, List.length_map] at hallAlive
    rwa [hnews, List.length_append, List.length_map]
  have hrowsEq := hflushed.all hfresh halive
  have hlen := congrArg List.length hrowsEq
  rw [List.length_map, List.length_map] at hlen
  rw [hsub.eq_of_length hlen, haccs, hnews, hseen, List.map_append, groupsOf, List.map_map]
  rfl

end

/-- A run keeps the ledger. -/
theorem Ledger.run (hfunction : sys.function = .reduce field aggregate) {accs : List Accumulator}
    (hledger : Ledger sys arrow field aggregate past accs) {state : WindowState}
    (hseeded : Seeded data (accs.map Accumulator.toRow)) (hok : (sys.run arrow data state).result = .ok ())
    (hleft : (sys.run arrow data state).data.batchFor ACCUMULATOR = some ⟨accumulatorSchema, rows⟩) :
    ∃ accs', rows = accs'.map Accumulator.toRow ∧
      Ledger sys arrow field aggregate (past ++ [(data, state)]) accs' := by
  obtain ⟨hrows, hcalled, rows', hbatch, hflushed⟩ := run_flushed hfunction hseeded.counted hseeded.batch hok
  cases hleft.symm.trans hbatch
  obtain ⟨news, hnews⟩ : ∃ news, news =
    (onTime (sys.run arrow data state).calls).map (sys.writtenBy arrow field aggregate data) := ⟨_, rfl⟩
  rw [← hnews] at hflushed
  obtain ⟨accs', hsub, rfl⟩ := List.sublist_map_iff.mp hflushed.sublist
  have hlength : accs'.length ≤ accs.length + news.length := List.length_append ▸ hsub.length_le
  refine ⟨accs', rfl, fun acc hacc => ?_, hledger.rows_run hrows, ?_,
    hledger.whole_run hseeded hcalled hnews hflushed hlength,
    hledger.sole_run hseeded hrows hcalled hnews hflushed hsub⟩
  · rcases List.mem_append.mp (hsub.subset hacc) with hold | hnew
    · exact hledger.each acc hold
    · rw [hnews] at hnew
      obtain ⟨call, -, rfl⟩ := List.mem_map.mp hnew
      exact ⟨rfl, rfl⟩
  · have hbefore := hledger.length
    have hcount : news.length ≤ (sys.groupsOf arrow (data, state)).length := by
      rw [hnews, List.length_map, groupsOf, List.length_map]
      exact List.length_filter_le _ _
    rw [seen_append_singleton, List.length_append]
    omega

theorem Runs.ledger (hfunction : sys.function = .reduce field aggregate) (h : Runs sys arrow past rows) :
    ∃ accs, rows = accs.map Accumulator.toRow ∧ Ledger sys arrow field aggregate past accs := by
  induction h with
  | start =>
    have hseen : sys.seen arrow [] = [] := rfl
    refine ⟨[], rfl, fun _ hacc => absurd hacc List.not_mem_nil, ?_, ?_, fun _ => ⟨?_, ?_⟩, fun _ => ?_⟩
    · rw [hseen]
      exact fun _ hp => absurd hp List.not_mem_nil
    · exact Nat.zero_le _
    · exact fun _ hstep => absurd hstep List.not_mem_nil
    · exact fun _ hstep => absurd hstep List.not_mem_nil
    · rw [hseen]
      rfl
  | run before seeded ok left ih =>
    obtain ⟨accs, rfl, hledger⟩ := ih
    exact hledger.run hfunction seeded ok left

/-- Rows of the accumulator for a group, among those of accumulators of the source. -/
theorem filter_isFor {accs : List Accumulator} (h : ∀ acc ∈ accs, acc.sourceComponent = sys.sourceComponent)
    (group : Int × Int) : (accs.map Accumulator.toRow).filter (fun cells => IsFor sys group cells) =
      (accs.filter fun acc => acc.group = group).map Accumulator.toRow := by
  rw [List.filter_map]
  refine congrArg _ (List.filter_congr fun acc hacc => ?_)
  exact decide_eq_decide.mpr (isFor_toRow (h acc hacc))

/-- **Accumulation.** After runs each seeded with what the one before it has left, the accumulator has the
aggregates of the groups over all of the runs exactly when every group had one row. -/
theorem accumulated_iff (hfunction : sys.function = .reduce field aggregate) (h : Runs sys arrow past rows) :
    Accumulated sys arrow aggregate past rows ↔ SoleRows sys arrow past := by
  obtain ⟨accs, rfl, hledger⟩ := h.ledger hfunction
  have hsource := fun acc hacc => (hledger.each acc hacc).1
  constructor
  · intro hall
    have hfound : ∀ p ∈ sys.seen arrow past, ∃ acc ∈ accs, acc.group = p.2.group ∧
        (sys.groupInputs arrow past p.2.group).length = 1 := by
      intro p hp
      obtain ⟨other, hrow, hcount, -⟩ := hall p hp
      rw [filter_isFor hsource] at hrow
      obtain ⟨acc, hfilter, hsame⟩ := List.map_eq_singleton_iff.mp hrow
      have hacc := List.mem_filter.mp (hfilter.symm ▸ List.mem_singleton.mpr rfl : acc ∈ accs.filter _)
      refine ⟨acc, hacc.1, of_decide_eq_true hacc.2, ?_⟩
      have hone : other.count = 1 := by
        have hcell : acc.toRow[4]? = other.toRow[4]? := by rw [hsame]
        have hcell : acc.count = other.count := Cell.int.inj (Option.some.inj hcell)
        exact hcell.symm.trans (hledger.each acc hacc.1).2
      exact Int.ofNat_inj.mp (hcount.symm.trans hone)
    have hsole := fun p hp => (hfound p hp).choose_spec.2.2
    -- every group has its own row, so no row was lost and none was left out
    have hsub : (sys.seen arrow past).map (fun p => p.2.group) ⊆ accs.map Accumulator.group := by
      intro group hgroup
      obtain ⟨p, hp, rfl⟩ := List.mem_map.mp hgroup
      obtain ⟨acc, hacc, hgroup, -⟩ := hfound p hp
      exact List.mem_map.mpr ⟨acc, hacc, hgroup⟩
    have hle := ((nodup_seen hledger.rows hsole).subperm hsub).length_le
    rw [List.length_map, List.length_map] at hle
    obtain ⟨hfresh, halive⟩ := hledger.whole (le_antisymm hledger.length hle)
    exact ⟨hsole, hfresh, halive⟩
  · intro hsole p hp
    have hone := hsole.sole p hp
    have hfilter := filter_seen_eq hledger.rows hp hone
    have hinputs : sys.groupInputs arrow past p.2.group = inputs (sys.inputIdx p.1) p.2 := by
      rw [groupInputs, hfilter, List.flatMap_singleton]
    refine ⟨sys.writtenBy arrow field aggregate p.1 p.2, ?_, ?_, ?_⟩
    · rw [filter_isFor hsource, hledger.sole hsole, List.filter_map]
      exact congrArg (List.map _ <| List.map _ ·) hfilter
    · rw [hone]
      rfl
    · rw [hinputs]
      rfl

end WindowedSystem

namespace WindowedSystem.Sample

/-- A sum over the prices of windows of a second. -/
def sums : WindowedSystem := ⟨"Trade", "ts", [], .tumbling 1000 0, .reduce "price" .sum⟩

def prices : Schema := ⟨[⟨"ts", .int64, true⟩, ⟨"price", .float64, true⟩]⟩

/-- One trade, and the accumulator as it is seeded. -/
def seededData (ts : Int) (accs : List (List Cell)) : Dataset WindowResources where
  components := [⟨"Trade", 1, prices, [⟨prices, [[.int ts, .float 7]]⟩], none⟩,
    ⟨ACCUMULATOR, 1, accumulatorSchema, [⟨accumulatorSchema, accs⟩], none⟩]
  rowCount := 1
  alive := [true]
  liveCount := 1
  deadCount := 0
  resources := ⟨none, none, none⟩

/-- The row that the first run leaves. -/
def firstRow : List Cell :=
  [.int 1, .text "Trade", .int 0, .int 0, .int 1, .float 0, .null, .null, .null, .null, .null]

theorem counted_seededData {ts : Int} {accs : List (List Cell)} (h : accs.length ≤ 1) :
    (seededData ts accs).Counted where
  alive := rfl
  dead := rfl
  rows entry hentry := by
    rcases hentry with _ | ⟨_, _ | ⟨_, hnil⟩⟩
    · exact le_refl 1
    · exact h
    · cases hnil

def first : Dataset WindowResources × WindowState := (seededData 0 [], WindowState.new none)

/-- A trade of the same second, in the next run. -/
def second : Dataset WindowResources × WindowState :=
  (seededData 500 [firstRow], (sums.run arrow first.1 first.2).state)

theorem first_run : Runs sums arrow [first] [firstRow] :=
  .run .start ⟨counted_seededData zero_le_one, rfl⟩ rfl rfl

theorem second_run : Runs sums arrow ([first] ++ [second]) [firstRow] :=
  .run first_run ⟨counted_seededData (le_refl 1), rfl⟩ rfl rfl

/-- The second trade fires its window late, and the accumulator counts the first one only. -/
theorem second_run_lost :
    Runs sums arrow [first, second] [firstRow] ∧ ¬Accumulated sums arrow .sum [first, second] [firstRow] := by
  refine ⟨second_run, fun h => ?_⟩
  obtain ⟨acc, hrow, hcount, -⟩ := h (first.1, ⟨0, 0, [⟨[.int 0, .float 7], 0⟩], false⟩) (.head _)
  have htwo : acc.count = 2 := hcount
  have hcell : acc.toRow[4]? = firstRow[4]? := by
    rw [← List.singleton_inj.mp hrow]
  rw [show acc.toRow[4]? = some (.int acc.count) from rfl, htwo] at hcell
  exact absurd hcell (by decide)

/-- One run over one trade accumulates it. -/
theorem first_accumulated : Accumulated sums arrow .sum [first] [firstRow] := by
  have hseen : sums.seen arrow [first] = [(first.1, ⟨0, 0, [⟨[.int 0, .float 7], 0⟩], false⟩)] := rfl
  refine (accumulated_iff rfl first_run).mpr ⟨fun p hp => ?_, fun step hstep p hp => ?_,
    fun step hstep _ _ _ i hi _ => ?_⟩
  · rw [hseen] at hp
    cases List.mem_singleton.mp hp
    rfl
  · cases List.mem_singleton.mp hstep
    exact Finset.notMem_empty _
  · cases List.mem_singleton.mp hstep
    obtain rfl : i = 0 := Nat.lt_one_iff.mp hi
    rfl

end WindowedSystem.Sample
end Saci
