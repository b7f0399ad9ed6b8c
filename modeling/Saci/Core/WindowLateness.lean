import Saci.Core.WindowSessions

/-!
# Late firings

A system keeps the pairs of a window number and a key hash that it has emitted, and calls a group that is
among them a late firing. Sessions are numbered anew in every run, and so one session may pass for another,
or not for itself.
-/

namespace Saci
namespace WindowedSystem

/-- A run: the dataset and the state that it starts from. -/
abbrev Step := Dataset WindowResources × WindowState

/-- A group handed to the window function in a run. -/
structure Firing where
  step : Step
  call : WindowCall

/-- The schema of the source, and its rows that have a timestamp. -/
def timedOf (sys : WindowedSystem) (data : Dataset WindowResources) : Schema × List WindowRow :=
  match sys.source data with
  | .error _ => (⟨[]⟩, [])
  | .ok batch =>
    match sys.times batch with
    | .error _ => (batch.schema, [])
    | .ok times => (batch.schema, timed batch.rows times)

/-- The rows of a run within the lateness budget. -/
def keptOf (sys : WindowedSystem) (step : Step) : List WindowRow := kept step.2 (sys.timedOf step.1).2

/-- The groups of a run. -/
def firings (sys : WindowedSystem) (arrow : WindowArrow) (step : Step) : List Firing :=
  (sys.run arrow step.1 step.2).calls.map (⟨step, ·⟩)

/-- The window function has an answer for a group. -/
def answers (sys : WindowedSystem) (arrow : WindowArrow) (schema result : Schema) (idx : Nat)
    (dataType : DataType) (watermark : Int) (call : WindowCall) : Bool :=
  (sys.aggregateSlice arrow schema result idx dataType watermark call.isLateFiring call.windowId call.keyHash
    call.rows).isOk

/-- The window function had an answer for a group of a run. -/
def answered (sys : WindowedSystem) (arrow : WindowArrow) (f : Firing) : Bool :=
  match sys.prepareAggregateInputs (sys.timedOf f.step.1).1 with
  | .error _ => false
  | .ok (result, idx, dataType) =>
    sys.answers arrow (sys.timedOf f.step.1).1 result idx dataType
      (((advanced f.step.2 (sys.timedOf f.step.1).2).watermark.map WatermarkState.currentWatermark).getD I64_MIN)
      f.call

/-! ## What a run fires -/

variable {sys : WindowedSystem} {arrow : WindowArrow} {text : DataType → Cell → Option String}
  {schema result : Schema} {idx : Nat} {dataType : DataType} {watermark : Int} {data : Dataset WindowResources}
  {state : WindowState} {skipped : Nat} {sideOutput : List RecordBatch} {placed : List PlacedRow}

/-- A call is for one of the groups. -/
def IsCallOf (groups : List (List PlacedRow)) (call : WindowCall) : Prop :=
  ∃ head tail, head :: tail ∈ groups ∧ call.group = head.group ∧
    call.rows = (head :: tail).map PlacedRow.row

/-- What calling the groups comes to, once `emitted` were emitted. -/
structure CallsGroups (groups : List (List PlacedRow)) (answers : WindowCall → Bool)
    (emitted emitted' : Finset (Int × Int)) (result : SaciResult Unit) (calls : List WindowCall) : Prop where
  late : ∀ call ∈ calls, call.isLateFiring = decide (call.group ∈ emitted)
  emits : ∀ group, group ∈ emitted' ↔ group ∈ emitted ∨ ∃ call ∈ calls, answers call = true ∧ call.group = group
  ok : result = .ok () → ∀ call ∈ calls, answers call = true
  groups : ∀ call ∈ calls, IsCallOf groups call

theorem IsCallOf.cons {group : List PlacedRow} {groups : List (List PlacedRow)} {call : WindowCall}
    (h : IsCallOf groups call) : IsCallOf (group :: groups) call :=
  let ⟨head, tail, hmem, hrest⟩ := h
  ⟨head, tail, List.mem_cons_of_mem _ hmem, hrest⟩

/-- Groups that are apart fire late where they were emitted before the run. -/
theorem aggregateGroups_calls {groups : List (List PlacedRow)}
    (happart : groups.Pairwise fun g g' => ∀ a ∈ g, ∀ b ∈ g', a.group ≠ b.group) (fired : Fired) :
    ∃ calls, (sys.aggregateGroups arrow schema result idx dataType watermark fired groups).1.calls =
        fired.calls ++ calls ∧
      CallsGroups groups (sys.answers arrow schema result idx dataType watermark) fired.emitted
        (sys.aggregateGroups arrow schema result idx dataType watermark fired groups).1.emitted
        (sys.aggregateGroups arrow schema result idx dataType watermark fired groups).2 calls := by
  induction groups generalizing fired with
  | nil => exact ⟨[], (List.append_nil _).symm, (by rintro _ ⟨⟩), fun group => by simp [aggregateGroups], by rintro _ _ ⟨⟩, by rintro _ ⟨⟩⟩
  | cons group groups ih =>
    obtain ⟨hhead, hrest⟩ := List.pairwise_cons.mp happart
    cases group with
    | nil =>
      obtain ⟨calls, hcalls, hspec⟩ := ih hrest fired
      exact ⟨calls, hcalls, hspec.late, hspec.emits, hspec.ok, fun call hcall => (hspec.groups call hcall).cons⟩
    | cons head tail =>
      let call : WindowCall := ⟨head.windowId, head.keyHash, (head :: tail).map PlacedRow.row,
        decide (head.group ∈ fired.emitted)⟩
      have hcall : IsCallOf ((head :: tail) :: groups) call := ⟨head, tail, List.mem_cons_self, rfl, rfl⟩
      rw [aggregateGroups]
      split
      · rename_i e he
        have hfails : sys.answers arrow schema result idx dataType watermark call = false := by
          rw [answers, he]
          rfl
        refine ⟨[call], rfl, ?_, fun group => ?_, (by rintro ⟨⟩), ?_⟩
        · rintro other (_ | ⟨_, hnil⟩)
          · rfl
          · cases hnil
        · refine ⟨.inl, fun h => h.resolve_right ?_⟩
          rintro ⟨other, (_ | ⟨_, hnil⟩), hanswer, -⟩
          · cases hfails.symm.trans hanswer
          · cases hnil
        · rintro other (_ | ⟨_, hnil⟩)
          · exact hcall
          · cases hnil
      · rename_i batch hbatch
        have hanswers : sys.answers arrow schema result idx dataType watermark call = true := by
          rw [answers, hbatch]
          rfl
        obtain ⟨calls, hcalls, hspec⟩ := ih hrest ⟨insert head.group fired.emitted, _, _, _⟩
        refine ⟨call :: calls, hcalls.trans (List.append_assoc ..), ?_, fun group => ?_, fun hok => ?_, ?_⟩
        · rintro other (_ | ⟨_, hother⟩)
          · rfl
          · obtain ⟨head', tail', hmem, hgroup, -⟩ := hspec.groups other hother
            have hne : other.group ≠ head.group := by
              rw [hgroup]
              exact (hhead _ hmem head List.mem_cons_self head' List.mem_cons_self).symm
            rw [hspec.late other hother]
            exact decide_eq_decide.mpr ⟨fun h => (Finset.mem_insert.mp h).resolve_left hne,
              Finset.mem_insert_of_mem⟩
        · rw [hspec.emits, Finset.mem_insert]
          constructor
          · rintro ((rfl | hold) | ⟨other, hother, hanswer, hgroup⟩)
            · exact .inr ⟨call, List.mem_cons_self, hanswers, rfl⟩
            · exact .inl hold
            · exact .inr ⟨other, List.mem_cons_of_mem _ hother, hanswer, hgroup⟩
          · rintro (hold | ⟨other, (_ | ⟨_, hother⟩), hanswer, hgroup⟩)
            · exact .inl (.inr hold)
            · exact .inl (.inl hgroup.symm)
            · exact .inr ⟨other, hother, hanswer, hgroup⟩
        · rintro other (_ | ⟨_, hother⟩)
          · exact hanswers
          · exact hspec.ok hok other hother
        · rintro other (_ | ⟨_, hother⟩)
          · exact hcall
          · exact (hspec.groups other hother).cons

/-- The rows of a group are placed where the group is. -/
structure IsGrouped (sys : WindowedSystem) (text : DataType → Cell → Option String) (step : Step)
    (call : WindowCall) : Prop where
  rows : call.rows ≠ []
  placed : ∀ row ∈ call.rows,
    sys.IsPlaced text (sys.timedOf step.1).1 (sys.keptOf step) ⟨row, call.windowId, call.keyHash⟩

/-- What a run fires. -/
structure Fires (sys : WindowedSystem) (arrow : WindowArrow) (text : DataType → Cell → Option String)
    (step : Step) (out : Outcome) : Prop where
  late : ∀ call ∈ out.calls, call.isLateFiring = decide (call.group ∈ step.2.emitted)
  emits : ∀ group, group ∈ out.state.emitted ↔
    group ∈ step.2.emitted ∨ ∃ call ∈ out.calls, sys.answered arrow ⟨step, call⟩ = true ∧ call.group = group
  ok : out.result = .ok () → ∀ call ∈ out.calls, sys.answered arrow ⟨step, call⟩ = true
  grouped : ∀ call ∈ out.calls, IsGrouped sys text step call

/-- A run that fires nothing emits nothing. -/
theorem Fires.nothing {step : Step} {out : Outcome} (hcalls : out.calls = [])
    (hemitted : out.state.emitted = step.2.emitted) : Fires sys arrow text step out where
  late := by
    rw [hcalls]
    exact nofun
  emits group := by
    rw [hcalls, hemitted]
    exact (or_iff_left (by rintro ⟨_, hnil, -⟩; cases hnil)).symm
  ok _ := by
    rw [hcalls]
    exact nofun
  grouped := by
    rw [hcalls]
    exact nofun

/-- What a run over an instance's share leaves of the groups that it calls. -/
structure LeftBy (out : Outcome) (fired : Fired × SaciResult Unit) : Prop where
  calls : out.calls = fired.1.calls
  emitted : out.state.emitted = fired.1.emitted
  ok : out.result = .ok () → fired.2 = .ok ()

theorem runGroups_leftBy (hprepare : sys.prepareAggregateInputs schema = .ok (result, idx, dataType)) :
    LeftBy (sys.runGroups arrow data state schema skipped sideOutput placed)
      (sys.aggregateGroups arrow schema result idx dataType
        ((state.watermark.map WatermarkState.currentWatermark).getD I64_MIN) ⟨state.emitted, [], [], []⟩
        (groups arrow placed)) := by
  rw [runGroups, hprepare]
  dsimp only
  split
  · rename_i hfired
    rw [hfired]
    exact ⟨rfl, rfl, nofun⟩
  · rename_i hfired
    rw [hfired]
    split_ifs
    · split
      · exact ⟨rfl, rfl, nofun⟩
      · exact ⟨rfl, rfl, fun _ => rfl⟩
    · exact ⟨rfl, rfl, fun _ => rfl⟩

theorem LeftBy.callsGroups {out : Outcome} {emitted : Finset (Int × Int)} {groups : List (List PlacedRow)}
    (h : LeftBy out (sys.aggregateGroups arrow schema result idx dataType watermark ⟨emitted, [], [], []⟩ groups))
    (happart : groups.Pairwise fun g g' => ∀ a ∈ g, ∀ b ∈ g', a.group ≠ b.group) :
    ∃ calls, out.calls = calls ∧
      CallsGroups groups (sys.answers arrow schema result idx dataType watermark) emitted out.state.emitted
        out.result calls := by
  obtain ⟨calls, hcalls, hspec⟩ := aggregateGroups_calls happart ⟨emitted, [], [], []⟩
  rw [← h.emitted] at hspec
  exact ⟨calls, h.calls.trans hcalls, hspec.late, hspec.emits, fun hok => hspec.ok (h.ok hok), hspec.groups⟩

/-- The rows of a group are among the rows placed. -/
theorem placed_of_isCallOf (harrow : arrow.Sorts) {call : WindowCall} (h : IsCallOf (groups arrow placed) call) :
    call.rows ≠ [] ∧ ∀ row ∈ call.rows, ⟨row, call.windowId, call.keyHash⟩ ∈ placed := by
  obtain ⟨head, tail, hmem, hgroup, hrows⟩ := h
  rw [hrows]
  refine ⟨List.cons_ne_nil _ _, fun row hrow => ?_⟩
  obtain ⟨p, hp, rfl⟩ := List.mem_map.mp hrow
  have hsame : p.group = call.group :=
    (oneGroup_of_mem_groups hmem p hp head List.mem_cons_self).trans hgroup.symm
  have hp' : p ∈ placed := (flatten_groups harrow placed).mem_iff.mp (List.mem_flatten.mpr ⟨_, hmem, hp⟩)
  rw [PlacedRow.group, WindowCall.group, Prod.mk.injEq] at hsame
  rw [← hsame.1, ← hsame.2]
  exact hp'

theorem runGroups_fires (harrow : arrow.Sorts) {rows : List WindowRow}
    (htimed : sys.timedOf data = (schema, rows))
    (hplaced : ∀ p ∈ placed, sys.IsPlaced text schema (kept state rows) p) :
    Fires sys arrow text (data, state)
      (sys.runGroups arrow data (advanced state rows) schema skipped sideOutput placed) := by
  cases hprepare : sys.prepareAggregateInputs schema with
  | error e =>
    rw [runGroups, hprepare]
    exact .nothing rfl rfl
  | ok prepared =>
    obtain ⟨result, idx, dataType⟩ := prepared
    obtain ⟨wm, hwm⟩ : ∃ wm, ((advanced state rows).watermark.map WatermarkState.currentWatermark).getD I64_MIN =
        wm := ⟨_, rfl⟩
    have hleft : LeftBy (sys.runGroups arrow data (advanced state rows) schema skipped sideOutput placed)
        (sys.aggregateGroups arrow schema result idx dataType wm ⟨state.emitted, [], [], []⟩
          (groups arrow placed)) := hwm ▸ runGroups_leftBy hprepare
    obtain ⟨calls, hcalls, hspec⟩ := hleft.callsGroups (pairwise_groups harrow placed)
    have hanswered : ∀ call, sys.answered arrow ⟨(data, state), call⟩ = sys.answers arrow schema result idx
        dataType wm call := by
      intro call
      rw [answered]
      dsimp only
      rw [htimed]
      dsimp only
      rw [hprepare, ← hwm]
    constructor
    · rw [hcalls]
      exact hspec.late
    · intro group
      rw [hcalls, hspec.emits group]
      simp only [hanswered]
    · intro hok call hcall
      rw [hcalls] at hcall
      rw [hanswered]
      exact hspec.ok hok call hcall
    · intro call hcall
      rw [hcalls] at hcall
      obtain ⟨hrows, hmem⟩ := placed_of_isCallOf harrow (hspec.groups call hcall)
      refine ⟨hrows, fun row hrow => ?_⟩
      rw [keptOf, htimed]
      exact hplaced _ (hmem row hrow)

theorem runTimed_fires (harrow : arrow.Sorts) (hcast : arrow.Casts text) (hspec : sys.spec.IsApart)
    {rows : List WindowRow} (htimed : sys.timedOf data = (schema, rows)) :
    Fires sys arrow text (data, state) (sys.runTimed arrow data state schema skipped rows) := by
  rcases @runTimed_cases sys arrow schema rows data state skipped with hidle | ⟨placed, hplace, heq⟩
  · exact .nothing hidle.calls hidle.emitted
  · rw [heq]
    exact runGroups_fires harrow htimed fun p hp =>
      isPlaced_place harrow hcast hspec hplace p (List.mem_of_mem_filter hp)

theorem run_fires (harrow : arrow.Sorts) (hcast : arrow.Casts text) (hspec : sys.spec.IsApart) (step : Step) :
    Fires sys arrow text step (sys.run arrow step.1 step.2) := by
  obtain ⟨data, state⟩ := step
  rcases run_cases sys arrow data state with hidle | ⟨batch, times, hsource, htimes, heq⟩
  · exact .nothing hidle.calls hidle.emitted
  · have htimed : sys.timedOf data = (batch.schema, timed batch.rows times) := by
      rw [timedOf, hsource]
      dsimp only
      rw [htimes]
    dsimp only
    rw [heq]
    exact runTimed_fires harrow hcast hspec htimed

/-! ## Windows -/

/-- The bounds of a window: for a session, the first and the last of its times. -/
def Firing.bounds (sys : WindowedSystem) (f : Firing) : Int × Int :=
  match sys.spec with
  | .tumbling sizeMs offsetMs =>
    (f.call.windowId * sizeMs + offsetMs, f.call.windowId * sizeMs + offsetMs + sizeMs)
  | .sliding sizeMs slideMs offsetMs =>
    (f.call.windowId * slideMs + offsetMs, f.call.windowId * slideMs + offsetMs + sizeMs)
  | .session _ =>
    ((f.call.rows.map WindowRow.timeMs).min?.getD 0, (f.call.rows.map WindowRow.timeMs).max?.getD 0)

/-- The keys of the rows of a group: more than one where keys have one hash. -/
def Firing.keys (sys : WindowedSystem) (text : DataType → Cell → Option String) (f : Firing) :
    Finset (List (Option String)) :=
  (f.call.rows.map (sys.keyOf text (sys.timedOf f.step.1).1)).toFinset

/-- Two groups are of the very same window. -/
def SameWindow (sys : WindowedSystem) (text : DataType → Cell → Option String) (f g : Firing) : Prop :=
  f.bounds sys = g.bounds sys ∧ f.keys sys text = g.keys sys text

/-- The hash of a group's key, and the time of one of its rows. -/
def Firing.keyTime (sys : WindowedSystem) (text : DataType → Cell → Option String) (f : Firing) : Int × Int :=
  ((sys.keyTimes text (sys.timedOf f.step.1).1 f.call.rows).head?).getD (0, 0)

/-- How many sessions of its run come before a session, in the order of their keys and times. -/
def Firing.rank (sys : WindowedSystem) (text : DataType → Cell → Option String) (gapMs : Int) (f : Firing) : Nat :=
  sessionRank gapMs
    ((sys.keyTimes text (sys.timedOf f.step.1).1 (sys.keptOf f.step)).insertionSort KeyTimeLE)
    (f.keyTime sys text)

/-- Two groups have keys of one hash, and are in one place: windows of the same bounds, or sessions with as
many before them, each in its run. -/
def SamePlace (sys : WindowedSystem) (text : DataType → Cell → Option String) (f g : Firing) : Prop :=
  (f.keyTime sys text).1 = (g.keyTime sys text).1 ∧
    match sys.spec with
    | .session gapMs => f.rank sys text gapMs = g.rank sys text gapMs
    | _ => f.bounds sys = g.bounds sys

variable {f g : Firing}

theorem IsGrouped.keyTime_fst (h : IsGrouped sys text f.step f.call) :
    (f.keyTime sys text).1 = f.call.keyHash ∧
      ∀ gapMs, sys.spec = .session gapMs → f.call.windowId = f.rank sys text gapMs := by
  cases hrows : f.call.rows with
  | nil => exact absurd hrows h.rows
  | cons row rows =>
    have hplaced := h.placed row (by rw [hrows]; exact List.mem_cons_self)
    have hpair : f.keyTime sys text = (f.call.keyHash, row.timeMs) := by
      rw [Firing.keyTime, keyTimes, hrows]
      exact Prod.ext hplaced.1.symm rfl
    refine ⟨congrArg Prod.fst hpair, fun gapMs hgap => ?_⟩
    rw [Firing.rank, hpair]
    exact hplaced.2 gapMs hgap

/-- A system tells groups apart by their places. -/
theorem samePlace_iff (hspec : sys.spec.IsApart) (hf : IsGrouped sys text f.step f.call)
    (hg : IsGrouped sys text g.step g.call) : SamePlace sys text f g ↔ f.call.group = g.call.group := by
  have hgroup : f.call.group = g.call.group ↔
      f.call.keyHash = g.call.keyHash ∧ f.call.windowId = g.call.windowId := by
    rw [WindowCall.group, WindowCall.group, Prod.mk.injEq, and_comm]
  rw [SamePlace, hf.keyTime_fst.1, hg.keyTime_fst.1, hgroup]
  refine and_congr_right' ?_
  cases htype : sys.spec with
  | session gapMs =>
    dsimp only
    rw [hf.keyTime_fst.2 gapMs htype, hg.keyTime_fst.2 gapMs htype]
    exact Int.ofNat_inj.symm
  | tumbling sizeMs offsetMs =>
    rw [htype] at hspec
    simp only [Firing.bounds, htype, Prod.mk.injEq]
    refine ⟨fun h => ?_, fun h => by rw [h]; exact ⟨rfl, rfl⟩⟩
    exact Int.eq_of_mul_eq_mul_right hspec.ne' (add_right_cancel h.1)
  | sliding sizeMs slideMs offsetMs =>
    rw [htype] at hspec
    simp only [Firing.bounds, htype, Prod.mk.injEq]
    refine ⟨fun h => ?_, fun h => by rw [h]; exact ⟨rfl, rfl⟩⟩
    exact Int.eq_of_mul_eq_mul_right hspec.ne' (add_right_cancel h.1)

/-! ## Runs one after the other -/

/-- The runs over the datasets, each from the state that the one before it has left. -/
def history (sys : WindowedSystem) (arrow : WindowArrow) : WindowState → List (Dataset WindowResources) → List Step
  | _, [] => []
  | state, data :: rest => (data, state) :: history sys arrow (sys.run arrow data state).state rest

/-- The run has results: one that fails puts none out. -/
def succeeds (sys : WindowedSystem) (arrow : WindowArrow) (step : Step) : Bool :=
  (sys.run arrow step.1 step.2).result = .ok ()

/-- The groups that runs have emitted. -/
def emittedIn (sys : WindowedSystem) (arrow : WindowArrow) (steps : List Step) : List Firing :=
  (steps.filter (sys.succeeds arrow)).flatMap (sys.firings arrow)

/-- The groups that runs had an answer for before they failed. -/
def droppedIn (sys : WindowedSystem) (arrow : WindowArrow) (steps : List Step) : List Firing :=
  ((steps.filter fun step => !sys.succeeds arrow step).flatMap (sys.firings arrow)).filter (sys.answered arrow)

variable {start : WindowState} {datas : List (Dataset WindowResources)} {before after : List Step} {step : Step}

theorem mem_firings : f ∈ sys.firings arrow step ↔
    f.step = step ∧ f.call ∈ (sys.run arrow step.1 step.2).calls := by
  rw [firings, List.mem_map]
  constructor
  · rintro ⟨call, hcall, rfl⟩
    exact ⟨rfl, hcall⟩
  · rintro ⟨rfl, hcall⟩
    exact ⟨f.call, hcall, rfl⟩

/-- What runs emit or drop is what they have an answer for. -/
theorem mem_answered_iff (harrow : arrow.Sorts) (hcast : arrow.Casts text) (hspec : sys.spec.IsApart) :
    (f ∈ sys.emittedIn arrow before ∨ f ∈ sys.droppedIn arrow before) ↔
      ∃ step ∈ before, f ∈ sys.firings arrow step ∧ sys.answered arrow f = true := by
  simp only [emittedIn, droppedIn, List.mem_filter, List.mem_flatMap, Bool.not_eq_true']
  constructor
  · rintro (⟨step, ⟨hstep, hok⟩, hf⟩ | ⟨⟨step, ⟨hstep, -⟩, hf⟩, hanswered⟩)
    · refine ⟨step, hstep, hf, ?_⟩
      obtain ⟨rfl, hcall⟩ := mem_firings.mp hf
      exact (run_fires harrow hcast hspec f.step).ok (of_decide_eq_true hok) _ hcall
    · exact ⟨step, hstep, hf, hanswered⟩
  · rintro ⟨step, hstep, hf, hanswered⟩
    cases hok : sys.succeeds arrow step with
    | true => exact .inl ⟨step, ⟨hstep, hok⟩, hf⟩
    | false => exact .inr ⟨⟨step, ⟨hstep, hok⟩, hf⟩, hanswered⟩

/-- The emitted set over any runs: the groups of what they had an answer for. -/
theorem emitted_history (harrow : arrow.Sorts) (hcast : arrow.Casts text) (hspec : sys.spec.IsApart)
    (h : sys.history arrow start datas = before ++ step :: after) (group : Int × Int) :
    group ∈ step.2.emitted ↔ group ∈ start.emitted ∨
      ∃ f, (f ∈ sys.emittedIn arrow before ∨ f ∈ sys.droppedIn arrow before) ∧ f.call.group = group := by
  simp only [mem_answered_iff harrow hcast hspec]
  induction datas generalizing start before with
  | nil => cases before <;> cases h
  | cons data datas ih =>
    cases before with
    | nil =>
      cases h
      exact (or_iff_left (by rintro ⟨_, ⟨_, hnil, -⟩, -⟩; cases hnil)).symm
    | cons first before =>
      rw [history, List.cons_append, List.cons.injEq] at h
      obtain ⟨rfl, hrest⟩ := h
      rw [ih hrest, (run_fires harrow hcast hspec (data, start)).emits, or_assoc]
      refine or_congr_right ⟨?_, ?_⟩
      · rintro (⟨call, hcall, hanswered, hgroup⟩ | ⟨f, ⟨step, hstep, hf⟩, hgroup⟩)
        · exact ⟨⟨(data, start), call⟩, ⟨_, List.mem_cons_self, mem_firings.mpr ⟨rfl, hcall⟩, hanswered⟩, hgroup⟩
        · exact ⟨f, ⟨step, List.mem_cons_of_mem _ hstep, hf⟩, hgroup⟩
      · rintro ⟨f, ⟨step, (_ | ⟨_, hstep⟩), hf, hanswered⟩, hgroup⟩
        · obtain ⟨hsame, hcall⟩ := mem_firings.mp hf
          refine .inl ⟨f.call, hcall, ?_, hgroup⟩
          rw [← hsame]
          exact hanswered
        · exact .inr ⟨f, ⟨step, hstep, hf, hanswered⟩, hgroup⟩

/-! ## The truth of a report -/

/-- A group is called a late firing where the very same window was emitted in an earlier run, and passes for
no other window of an earlier run. -/
structure Truthful (sys : WindowedSystem) (arrow : WindowArrow) (text : DataType → Cell → Option String)
    (before : List Step) (f : Firing) : Prop where
  late : f.call.isLateFiring = true ↔ ∃ p ∈ sys.emittedIn arrow before, SameWindow sys text p f
  apart : ∀ p ∈ sys.emittedIn arrow before, p.call.group = f.call.group → SameWindow sys text p f

/-- Every group of every run is reported truly. -/
def ToldTruly (sys : WindowedSystem) (arrow : WindowArrow) (text : DataType → Cell → Option String)
    (allowedLatenessMs : Option Int) (datas : List (Dataset WindowResources)) : Prop :=
  ∀ before step after, sys.history arrow (WindowState.new allowedLatenessMs) datas = before ++ step :: after →
    ∀ f ∈ sys.firings arrow step, Truthful sys arrow text before f

/-- A window has its place to itself: another that an earlier run has emitted is not in its place, it is in
its own place again if it was emitted, and what a failed run has aggregated there was emitted. -/
structure KeepsPlace (sys : WindowedSystem) (arrow : WindowArrow) (text : DataType → Cell → Option String)
    (before : List Step) (f : Firing) : Prop where
  alone : ∀ p ∈ sys.emittedIn arrow before, SamePlace sys text p f → SameWindow sys text p f
  again : (∃ p ∈ sys.emittedIn arrow before, SameWindow sys text p f) →
    ∃ p, (p ∈ sys.emittedIn arrow before ∨ p ∈ sys.droppedIn arrow before) ∧ SamePlace sys text p f
  failed : (∃ p ∈ sys.droppedIn arrow before, SamePlace sys text p f) →
    ∃ p ∈ sys.emittedIn arrow before, SameWindow sys text p f

/-- The groups of earlier runs are in the place of a group where they pass for it. -/
theorem samePlace_iff_of_mem (harrow : arrow.Sorts) (hcast : arrow.Casts text) (hspec : sys.spec.IsApart)
    (hf : f ∈ sys.firings arrow step)
    (hg : g ∈ sys.emittedIn arrow before ∨ g ∈ sys.droppedIn arrow before) :
    SamePlace sys text g f ↔ g.call.group = f.call.group := by
  obtain ⟨step', -, hg, -⟩ := (mem_answered_iff harrow hcast hspec).mp hg
  obtain ⟨rfl, hcall⟩ := mem_firings.mp hf
  obtain ⟨rfl, hcall'⟩ := mem_firings.mp hg
  exact samePlace_iff hspec ((run_fires harrow hcast hspec g.step).grouped _ hcall')
    ((run_fires harrow hcast hspec f.step).grouped _ hcall)

/-- A group is a late firing where an earlier run has answered in its place. -/
theorem isLateFiring_iff (harrow : arrow.Sorts) (hcast : arrow.Casts text) (hspec : sys.spec.IsApart)
    {allowedLatenessMs : Option Int}
    (h : sys.history arrow (WindowState.new allowedLatenessMs) datas = before ++ step :: after)
    (hf : f ∈ sys.firings arrow step) :
    f.call.isLateFiring = true ↔
      ∃ p, (p ∈ sys.emittedIn arrow before ∨ p ∈ sys.droppedIn arrow before) ∧ SamePlace sys text p f := by
  have hfires := run_fires harrow hcast hspec step
  have hstart : f.call.group ∉ (WindowState.new allowedLatenessMs).emitted := Finset.notMem_empty _
  rw [hfires.late _ (mem_firings.mp hf).2, decide_eq_true_iff, emitted_history harrow hcast hspec h,
    or_iff_right hstart]
  refine exists_congr fun p => and_congr_right fun hp => ?_
  exact (samePlace_iff_of_mem harrow hcast hspec hf hp).symm

theorem truthful_iff (harrow : arrow.Sorts) (hcast : arrow.Casts text) (hspec : sys.spec.IsApart)
    {allowedLatenessMs : Option Int}
    (h : sys.history arrow (WindowState.new allowedLatenessMs) datas = before ++ step :: after)
    (hf : f ∈ sys.firings arrow step) :
    Truthful sys arrow text before f ↔ KeepsPlace sys arrow text before f := by
  have hlate := isLateFiring_iff harrow hcast hspec h hf
  constructor
  · intro htrue
    refine ⟨fun p hp hplace => ?_, fun hsame => hlate.mp (htrue.late.mpr hsame), ?_⟩
    · exact htrue.apart p hp ((samePlace_iff_of_mem harrow hcast hspec hf (.inl hp)).mp hplace)
    · rintro ⟨p, hp, hplace⟩
      exact htrue.late.mp (hlate.mpr ⟨p, .inr hp, hplace⟩)
  · intro hkeeps
    refine ⟨⟨fun hfires => ?_, fun hsame => hlate.mpr (hkeeps.again hsame)⟩, fun p hp hgroup => ?_⟩
    · obtain ⟨p, hp | hp, hplace⟩ := hlate.mp hfires
      · exact ⟨p, hp, hkeeps.alone p hp hplace⟩
      · exact hkeeps.failed ⟨p, hp, hplace⟩
    · exact hkeeps.alone p hp ((samePlace_iff_of_mem harrow hcast hspec hf (.inl hp)).mpr hgroup)

/-- **Late firings.** Over any runs of a system, every group is reported truly exactly when every window
has its place to itself. -/
theorem toldTruly_iff (harrow : arrow.Sorts) (hcast : arrow.Casts text) (hspec : sys.spec.validate = .ok ())
    (allowedLatenessMs : Option Int) (datas : List (Dataset WindowResources)) :
    ToldTruly sys arrow text allowedLatenessMs datas ↔
      ∀ before step after,
        sys.history arrow (WindowState.new allowedLatenessMs) datas = before ++ step :: after →
        ∀ f ∈ sys.firings arrow step, KeepsPlace sys arrow text before f := by
  have happart := WindowSpec.isApart_of_validate hspec
  constructor
  · intro htold before step after h f hf
    exact (truthful_iff harrow hcast happart h hf).mp (htold before step after h f hf)
  · intro hkeeps before step after h f hf
    exact (truthful_iff harrow hcast happart h hf).mpr (hkeeps before step after h f hf)

end WindowedSystem

namespace WindowedSystem.Sample

/-- Sessions without keys, apart by a second. -/
def sessions : WindowedSystem := { sys with spec := .session 1000 }

/-- One trade. -/
def tradeAt (ts : Int) : Dataset WindowResources where
  components := [⟨"Trade", 1, trades, [⟨trades, [[.int ts]]⟩], none⟩]
  rowCount := 1
  alive := [true]
  liveCount := 1
  deadCount := 0
  resources := ⟨none, none, none⟩

def text (_ : DataType) : Cell → Option String
  | .text value => some value
  | _ => none

theorem casts_arrow : arrow.Casts text where
  texts h := by
    cases h
    rfl

def firstRun : Step := (tradeAt 0, WindowState.new none)

/-- The only session of a run of one trade. -/
def only (ts : Int) (state : WindowState) (late : Bool) : Firing :=
  ⟨(tradeAt ts, state), ⟨0, 0, [⟨[.int ts], ts⟩], late⟩⟩

/-- A session five seconds after the first is called a late firing of it. -/
theorem second_session_late : ¬ToldTruly sessions arrow text none [tradeAt 0, tradeAt 5000] := by
  intro h
  have hlate := (h [firstRun] (tradeAt 5000, ⟨none, {(0, 0)}⟩) [] rfl (only 5000 ⟨none, {(0, 0)}⟩ true)
    (.head _)).late.mp rfl
  obtain ⟨p, hp, hbounds, -⟩ := hlate
  obtain rfl := List.mem_singleton.mp (show p ∈ [only 0 (WindowState.new none) false] from hp)
  cases hbounds

/-- The first run has nothing to take a group for. -/
theorem keepsPlace_nil (f : Firing) : KeepsPlace sessions arrow text [] f where
  alone p hp := nomatch hp
  again := by
    rintro ⟨_, hnil, -⟩
    cases hnil
  failed := by
    rintro ⟨_, hnil, -⟩
    cases hnil

/-- A session that comes again as it was is called late, and it is. -/
theorem same_session_told : ToldTruly sessions arrow text none [tradeAt 0, tradeAt 0] := by
  refine (toldTruly_iff sorts_arrow casts_arrow rfl none _).mpr fun before step after h f hf => ?_
  have hhistory : sessions.history arrow (WindowState.new none) [tradeAt 0, tradeAt 0] =
    [firstRun, (tradeAt 0, ⟨none, {(0, 0)}⟩)] := rfl
  rw [hhistory] at h
  match before, h with
  | [], _ => exact keepsPlace_nil f
  | [_], h =>
    cases h
    have hfirst : only 0 (WindowState.new none) false ∈ sessions.emittedIn arrow [firstRun] :=
      List.mem_singleton.mpr rfl
    obtain rfl := List.mem_singleton.mp (show f ∈ [only 0 ⟨none, {(0, 0)}⟩ true] from hf)
    have hsame : SameWindow sessions text (only 0 (WindowState.new none) false) (only 0 ⟨none, {(0, 0)}⟩ true) :=
      ⟨rfl, rfl⟩
    refine ⟨fun p hp _ => ?_, fun _ => ⟨_, .inl hfirst, rfl, rfl⟩, fun _ => ⟨_, hfirst, hsame⟩⟩
    obtain rfl := List.mem_singleton.mp (show p ∈ [only 0 (WindowState.new none) false] from hp)
    exact hsame
  | _ :: _ :: before, h => cases before <;> cases h

end WindowedSystem.Sample
end Saci
