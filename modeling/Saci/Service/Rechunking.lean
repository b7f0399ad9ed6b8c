import Mathlib.Data.List.DropRight
import Saci.Service.Standalone
import Saci.Service.Stream

/-!
# Re-chunking

What the carry-over of both runners keeps: the chunks admitted from a source, with what the runner
still holds of it, are its arrivals, row for row. No pass admits more than its target from a source
that may be cut, and a source on a path to a windowed node is never cut.
-/

namespace Saci.Workflow

/-! ## Reading a trace -/

namespace Event

def arrivedAt (i : Nat) : Event → Option RecordBatch
  | arrived source batch => if source = i then some batch else none
  | _ => none

def admittedAt (i : Nat) : Event → Option RecordBatch
  | admitted source chunk => if source = i then some chunk else none
  | _ => none

def isBegan : Event → Bool
  | began => true
  | _ => false

/-- The event says nothing of chunks: no arrival, no admission, no begin of a pass. -/
def Quiet (e : Event) : Prop :=
  (∀ i, e.arrivedAt i = none) ∧ (∀ i, e.admittedAt i = none) ∧ e.isBegan = false

end Event

/-- The batches a source yielded. -/
def arrivals (i : Nat) (events : List Event) : List RecordBatch :=
  events.filterMap (Event.arrivedAt i)

/-- The chunks admitted from a source. -/
def chunks (i : Nat) (events : List Event) : List RecordBatch :=
  events.filterMap (Event.admittedAt i)

/-- What happened since the pass began. -/
def thisPass (events : List Event) : List Event := events.rtakeWhile fun e => !e.isBegan

/-- The rows of some batches, in order. -/
def rowsOf (batches : List RecordBatch) : List (List Cell) := batches.flatMap RecordBatch.rows

/-- The rows of a batch that may be there. -/
def heldRows (batch : Option RecordBatch) : List (List Cell) := batch.elim [] RecordBatch.rows

/-- How many rows a source admitted since the pass began. -/
def passRows (i : Nat) (events : List Event) : Nat := (rowsOf (chunks i (thisPass events))).length

section
variable {i : Nat} {events quiet : List Event} {batches : List RecordBatch} {batch : RecordBatch}

@[simp] theorem rowsOf_append (batches batches' : List RecordBatch) :
    rowsOf (batches ++ batches') = rowsOf batches ++ rowsOf batches' := List.flatMap_append

@[simp] theorem rowsOf_singleton (batch : RecordBatch) : rowsOf [batch] = batch.rows :=
  List.flatMap_singleton _ _

theorem arrivals_append (events events' : List Event) :
    arrivals i (events ++ events') = arrivals i events ++ arrivals i events' :=
  List.filterMap_append

theorem chunks_append (events events' : List Event) :
    chunks i (events ++ events') = chunks i events ++ chunks i events' :=
  List.filterMap_append

theorem arrivals_quiet (h : ∀ e ∈ quiet, e.Quiet) : arrivals i quiet = [] :=
  List.filterMap_eq_nil_iff.mpr fun e he => (h e he).1 i

theorem chunks_quiet (h : ∀ e ∈ quiet, e.Quiet) : chunks i quiet = [] :=
  List.filterMap_eq_nil_iff.mpr fun e he => (h e he).2.1 i

/-- Within a pass, what happens is appended. -/
theorem thisPass_append {more : List Event} (h : ∀ e ∈ more, e.isBegan = false) :
    thisPass (events ++ more) = thisPass events ++ more := by
  induction more using List.reverseRecOn with
  | nil => rw [List.append_nil, List.append_nil]
  | append_singleton more e ih =>
    rw [← List.append_assoc, thisPass, List.rtakeWhile_concat_pos _ _ _ (by simp [h e (by simp)]),
      ← List.append_assoc, ← thisPass, ih fun e he => h e (List.mem_append_left _ he)]

theorem thisPass_began : thisPass (events ++ [.began]) = [] :=
  List.rtakeWhile_concat_neg _ _ _ (by simp [Event.isBegan])

theorem passRows_quiet (h : ∀ e ∈ quiet, e.Quiet) : passRows i (events ++ quiet) = passRows i events := by
  rw [passRows, thisPass_append fun e he => (h e he).2.2, chunks_append, chunks_quiet h,
    List.append_nil, passRows]

end

/-! ## What says nothing of chunks -/

section
variable {R : Type} {nodes : List (BuiltNode R)} {results : Nat → Nat → SaciResult Unit}

/-- Events of a kind that is not of chunks. -/
theorem Event.quiet_of {e : Event}
    (h : ∀ i, (e.arrivedAt i, e.admittedAt i, e.isBegan) = (none, none, false)) : e.Quiet :=
  ⟨fun i => congrArg Prod.fst (h i), fun i => congrArg (·.2.1) (h i), congrArg (·.2.2) (h 0)⟩

theorem quiet_fanOutEdge (source : Nat) (component : String) (chunk : RecordBatch)
    (buffers : Buffers R) (edge : BuiltEdge) :
    ∀ e ∈ (fanOutEdge nodes source component chunk buffers edge).2, e.Quiet := by
  intro e he
  unfold fanOutEdge at he
  split at he
  · split at he
    · cases he
    · cases List.mem_singleton.mp he
      exact Event.quiet_of fun _ => rfl
  · cases List.mem_singleton.mp he
    exact Event.quiet_of fun _ => rfl
  · cases he

theorem quiet_forwardEdge (i : Nat) (routes : Option (List String)) (buffers : Buffers R)
    (edge : BuiltEdge) : ∀ e ∈ (forwardEdge nodes i routes buffers edge).2, e.Quiet := by
  intro e he
  unfold forwardEdge at he
  split_ifs at he
  · split at he
    · split at he
      · cases he
      · cases List.mem_singleton.mp he
        exact Event.quiet_of fun _ => rfl
    · split at he
      · split_ifs at he
        · cases List.mem_singleton.mp he
          exact Event.quiet_of fun _ => rfl
        · cases he
      · cases List.mem_singleton.mp he
        exact Event.quiet_of fun _ => rfl
    · cases he
  · cases he

theorem quiet_afterRun [Inhabited R] (nodes : List (BuiltNode R)) (i : Nat) (left : Dataset R)
    (result : SaciResult (Option (List String))) (buffers : Buffers R) :
    ∀ e ∈ (afterRun nodes i left result buffers).2, e.Quiet := by
  intro e he
  cases result with
  | error error =>
    cases List.mem_singleton.mp he
    exact Event.quiet_of fun _ => rfl
  | ok routes =>
    rcases List.mem_cons.mp he with rfl | he
    · exact Event.quiet_of fun _ => rfl
    · exact mem_overEdges (quiet_forwardEdge i routes) _ _ e he

theorem quiet_writeStaged (results : Nat → Nat → SaciResult Unit) (sink : Nat) (buffers : Buffers R) :
    ∀ e ∈ (writeStaged results sink buffers).2, e.Quiet := by
  intro e he
  rcases List.mem_append.mp he with he | he
  · obtain ⟨j, hj, rfl⟩ := List.mem_mapIdx.mp he
    exact Event.quiet_of fun _ => rfl
  · cases List.mem_singleton.mp he
    exact Event.quiet_of fun _ => rfl

theorem quiet_flushEach (sinks : List Nat) (buffers : Buffers R) :
    ∀ e ∈ (flushEach results sinks buffers).2, e.Quiet := by
  induction sinks generalizing buffers with
  | nil => exact fun e he => nomatch he
  | cons sink sinks ih =>
    intro e he
    rcases List.mem_append.mp he with he | he
    · exact quiet_writeStaged results sink buffers e he
    · rcases List.mem_cons.mp he with rfl | he
      · exact Event.quiet_of fun _ => rfl
      · exact ih _ e he

theorem quiet_finishAllSinks : ∀ e ∈ finishAllSinks nodes, e.Quiet := by
  intro e he
  obtain ⟨sink, -, rfl⟩ := List.mem_map.mp he
  exact Event.quiet_of fun _ => rfl

theorem quiet_finishAllSources : ∀ e ∈ finishAllSources nodes, e.Quiet := by
  intro e he
  obtain ⟨source, -, rfl⟩ := List.mem_map.mp he
  exact Event.quiet_of fun _ => rfl

/-! ## Admitting -/

variable (nodes) (buffers : Buffers R) (source : Nat) (component : String) (chunk : RecordBatch)

/-- The fan-out of a chunk says nothing of other chunks. -/
theorem admitChunk_eq : ∃ quiet : List Event, (∀ e ∈ quiet, e.Quiet) ∧
    (admitChunk nodes source component chunk buffers).2 = .admitted source chunk :: quiet :=
  ⟨_, mem_overEdges (quiet_fanOutEdge source component chunk) _ _, rfl⟩

theorem chunks_admitChunk (i : Nat) :
    chunks i (admitChunk nodes source component chunk buffers).2 = if source = i then [chunk] else [] := by
  obtain ⟨quiet, hquiet, heq⟩ := admitChunk_eq nodes buffers source component chunk
  rw [heq, ← List.singleton_append, chunks_append, chunks_quiet hquiet, List.append_nil]
  by_cases h : source = i
  · rw [if_pos h]
    exact List.filterMap_cons_some (if_pos h)
  · rw [if_neg h]
    exact List.filterMap_cons_none (if_neg h)

theorem arrivals_admitChunk (i : Nat) :
    arrivals i (admitChunk nodes source component chunk buffers).2 = [] := by
  obtain ⟨quiet, hquiet, heq⟩ := admitChunk_eq nodes buffers source component chunk
  rw [heq, ← List.singleton_append, arrivals_append, arrivals_quiet hquiet]
  rfl

theorem not_began_admitChunk :
    ∀ e ∈ (admitChunk nodes source component chunk buffers).2, e.isBegan = false := by
  obtain ⟨quiet, hquiet, heq⟩ := admitChunk_eq nodes buffers source component chunk
  rw [heq]
  exact fun e he => (List.mem_cons.mp he).elim (fun h => by rw [h]; rfl) fun he => (hquiet e he).2.2

end

/-! ## The batch runner -/

namespace Standalone
variable {R : Type}

/-- The chunks of a source account for its arrivals. -/
structure Rechunks (service : BuiltService R) (s : State R) (events : List Event) (i : Nat) :
    Prop where
  /-- No row is lost, duplicated or reordered. -/
  conserved : rowsOf (chunks i events) ++ heldRows (s.carry i) = rowsOf (arrivals i events)
  /-- A source that may be cut admits no more than its target in one pass. -/
  bounded : ¬FeedsWindowed service.nodes i →
    ∀ target, credit s.controllers i = some target → passRows i events ≤ target
  /-- A source that feeds a windowed node is never cut. -/
  whole : FeedsWindowed service.nodes i → chunks i events = arrivals i events

/-- The invariant that carries it. -/
structure Accounts (service : BuiltService R) (s : State R) (events : List Event) (i : Nat) : Prop
    extends Rechunks service s events i where
  counted : passRows i events = s.admittedRows i
  tailless : FeedsWindowed service.nodes i → s.carry i = none

variable {service : BuiltService R} {mode : RunMode} {s s' : State R} {events : List Event} {i : Nat}

theorem Accounts.quiet (h : Accounts service s events i) {quiet : List Event}
    (hquiet : ∀ e ∈ quiet, e.Quiet) (hcarry : s'.carry = s.carry)
    (hcontrollers : s'.controllers = s.controllers) (hrows : s'.admittedRows = s.admittedRows) :
    Accounts service s' (events ++ quiet) i where
  conserved := by
    rw [chunks_append, arrivals_append, chunks_quiet hquiet, arrivals_quiet hquiet, List.append_nil,
      List.append_nil, hcarry]
    exact h.conserved
  bounded hwindowed target htarget := by
    rw [passRows_quiet hquiet]
    exact h.bounded hwindowed target (hcontrollers ▸ htarget)
  whole hwindowed := by
    rw [chunks_append, arrivals_append, chunks_quiet hquiet, arrivals_quiet hquiet, List.append_nil,
      List.append_nil]
    exact h.whole hwindowed
  counted := by rw [passRows_quiet hquiet, hrows, h.counted]
  tailless hwindowed := by rw [hcarry, h.tailless hwindowed]

theorem Accounts.began (h : Accounts service s events i)
    (controllers : Nat → Option FlowController) :
    Accounts service
      { s with phase := .node 0, controllers, admittedRows := fun _ => 0, backlogged := false }
      (events ++ [.began]) i := by
  have hpass : passRows i (events ++ [.began]) = 0 := by rw [passRows, thisPass_began]; rfl
  have hchunks : chunks i (events ++ [.began]) = chunks i events := by
    rw [chunks_append]
    exact List.append_nil _
  have harrivals : arrivals i (events ++ [.began]) = arrivals i events := by
    rw [arrivals_append]
    exact List.append_nil _
  refine ⟨⟨?_, fun _ target _ => ?_, fun hwindowed => ?_⟩, hpass, h.tailless⟩
  · rw [hchunks, harrivals]
    exact h.conserved
  · rw [hpass]
    exact Nat.zero_le target
  · rw [hchunks, harrivals, h.whole hwindowed]

/-- Admitting a batch keeps the account of its source, once the batch is what is left to admit of its
arrivals: the carried tail, or a batch that has just arrived. -/
theorem Accounts.admitFrom_self {component : String} {batch : RecordBatch} (more : List Event)
    (h : Accounts service s events i)
    (hmore : chunks i more = [] ∧ ∀ e ∈ more, e.isBegan = false)
    (hrows : rowsOf (chunks i events) ++ batch.rows = rowsOf (arrivals i (events ++ more)))
    (hwhole : FeedsWindowed service.nodes i → chunks i events ++ [batch] = arrivals i (events ++ more)) :
    Accounts service (admitFrom service s i component batch).1
      (events ++ (more ++ (admitFrom service s i component batch).2)) i := by
  let limit := if service.wholeArrivals i then none else remaining s i
  have hchunks : chunks i (events ++ (more ++ (admitFrom service s i component batch).2)) =
      chunks i events ++ [(cutAt limit batch).1] := by
    rw [chunks_append, chunks_append, hmore.1, admitFrom, chunks_admitChunk, if_pos rfl, List.nil_append]
  have harrivals : arrivals i (events ++ (more ++ (admitFrom service s i component batch).2)) =
      arrivals i (events ++ more) := by
    rw [← List.append_assoc, arrivals_append, admitFrom, arrivals_admitChunk, List.append_nil]
  have hcarry : (admitFrom service s i component batch).1.carry i = (cutAt limit batch).2 :=
    Function.update_self ..
  have hlimit (hwindowed : FeedsWindowed service.nodes i) : limit = none :=
    if_pos (service.wholeArrivals_iff.mpr hwindowed)
  have hpass : passRows i (events ++ (more ++ (admitFrom service s i component batch).2)) =
      passRows i events + (cutAt limit batch).1.numRows := by
    have hbegan : ∀ e ∈ more ++ (admitFrom service s i component batch).2, e.isBegan = false :=
      fun e he => (List.mem_append.mp he).elim (hmore.2 e) (not_began_admitChunk _ _ _ _ _ e)
    rw [passRows, thisPass_append hbegan, chunks_append, chunks_append, hmore.1, admitFrom,
      chunks_admitChunk, if_pos rfl, List.nil_append, rowsOf_append, rowsOf_singleton, List.length_append]
    rfl
  refine ⟨⟨?_, fun hwindowed target htarget => ?_, fun hwindowed => ?_⟩, ?_, fun hwindowed => ?_⟩
  · rw [hchunks, harrivals, hcarry, rowsOf_append, rowsOf_singleton, List.append_assoc, heldRows,
      rows_cutAt, hrows]
  · have hremaining : limit = some (target - s.admittedRows i) := by
      have hcut : ¬service.wholeArrivals i = true := fun h => hwindowed (service.wholeArrivals_iff.mp h)
      have hcredit : credit s.controllers i = some target := htarget
      rw [show limit = remaining s i from if_neg hcut, remaining, hcredit, Option.map_some]
    have hbefore : s.admittedRows i ≤ target := h.counted ▸ h.bounded hwindowed target htarget
    have hchunk : (cutAt limit batch).1.numRows ≤ target - s.admittedRows i := by
      rw [hremaining]
      exact numRows_cutAt_le
    rw [hpass, h.counted]
    omega
  · rw [hchunks, harrivals, hlimit hwindowed, cutAt_none, hwhole hwindowed]
  · rw [hpass, h.counted]
    exact (Function.update_self i _ s.admittedRows).symm
  · rw [hcarry, hlimit hwindowed, cutAt_none]

/-- The other sources keep theirs. -/
theorem Accounts.admitFrom_other {source : Nat} {component : String} {batch : RecordBatch}
    (more : List Event) (h : Accounts service s events i) (hne : source ≠ i)
    (hmore : chunks i more = [] ∧ arrivals i more = [] ∧ ∀ e ∈ more, e.isBegan = false) :
    Accounts service (admitFrom service s source component batch).1
      (events ++ (more ++ (admitFrom service s source component batch).2)) i := by
  have hchunks : chunks i (more ++ (admitFrom service s source component batch).2) = [] := by
    rw [chunks_append, hmore.1, admitFrom, chunks_admitChunk, if_neg hne, List.nil_append]
  have harrivals : arrivals i (more ++ (admitFrom service s source component batch).2) = [] := by
    rw [arrivals_append, hmore.2.1, admitFrom, arrivals_admitChunk, List.nil_append]
  have hcarry : (admitFrom service s source component batch).1.carry i = s.carry i :=
    Function.update_of_ne hne.symm ..
  have hadmitted : (admitFrom service s source component batch).1.admittedRows i = s.admittedRows i :=
    Function.update_of_ne hne.symm ..
  have hpass : passRows i (events ++ (more ++ (admitFrom service s source component batch).2)) =
      passRows i events := by
    have hbegan : ∀ e ∈ more ++ (admitFrom service s source component batch).2, e.isBegan = false :=
      fun e he => (List.mem_append.mp he).elim (hmore.2.2 e) (not_began_admitChunk _ _ _ _ _ e)
    rw [passRows, thisPass_append hbegan, chunks_append, hchunks, List.append_nil, passRows]
  refine ⟨⟨?_, fun hwindowed target htarget => ?_, fun hwindowed => ?_⟩, ?_, fun hwindowed => ?_⟩
  · rw [chunks_append, arrivals_append, hchunks, harrivals, List.append_nil, List.append_nil, hcarry]
    exact h.conserved
  · rw [hpass]
    exact h.bounded hwindowed target htarget
  · rw [chunks_append, arrivals_append, hchunks, harrivals, List.append_nil, List.append_nil,
      h.whole hwindowed]
  · rw [hpass, hadmitted, h.counted]
  · rw [hcarry, h.tailless hwindowed]

variable [Inhabited R]

theorem accounts_start : Accounts service (start service) [] i where
  conserved := rfl
  bounded _ _ h := nomatch h
  whole _ := rfl
  counted := rfl
  tailless _ := rfl

/-- The step lemma. -/
theorem Accounts.step {turn : Turn R} {more : List Event} (h : Accounts service s events i)
    (hstep : step service mode s turn = .ok (s', more)) : Accounts service s' (events ++ more) i := by
  cases steps_of_step hstep with
  | shutDown =>
    refine h.quiet (fun e he => ?_) rfl rfl rfl
    exact (List.mem_append.mp he).elim (quiet_flushEach _ _ e) (quiet_finishAllSources e)
  | began _ controllers => exact h.began _
  | spent source => exact h.quiet (fun e he => nomatch he) rfl rfl rfl
  | carried source component schema batch _ _ _ hcarry _ =>
    by_cases hi : source = i
    · subst hi
      refine h.admitFrom_self [] ⟨rfl, fun e he => nomatch he⟩ ?_ fun hwindowed => ?_
      · rw [List.append_nil, ← h.conserved, hcarry]
        rfl
      · exact nomatch (hcarry.symm.trans (h.tailless hwindowed))
    · exact h.admitFrom_other [] hi ⟨rfl, rfl, fun e he => nomatch he⟩
  | arrived source component schema batch _ _ _ hcarry _ _ =>
    by_cases hi : source = i
    · subst hi
      have harrivals : arrivals source [.arrived source batch] = [batch] :=
        List.filterMap_cons_some (if_pos rfl)
      refine h.admitFrom_self [.arrived source batch] ⟨rfl, fun e he => ?_⟩ ?_ fun hwindowed => ?_
      · cases List.mem_singleton.mp he
        rfl
      · rw [arrivals_append, harrivals, rowsOf_append, rowsOf_singleton, ← h.conserved, hcarry]
        exact congrArg (· ++ batch.rows) (List.append_nil _).symm
      · rw [arrivals_append, harrivals, h.whole hwindowed]
    · refine h.admitFrom_other [.arrived source batch] hi ⟨rfl, ?_, fun e he => ?_⟩
      · exact List.filterMap_cons_none (if_neg hi)
      · cases List.mem_singleton.mp he
        rfl
  | drainedDry source _ _ _ _ hevents =>
    refine h.quiet (fun e he => ?_) rfl rfl rfl
    rcases hevents with rfl | ⟨error, rfl⟩
    · cases he
    · cases List.mem_singleton.mp he
      exact Event.quiet_of fun _ => rfl
  | ran node left result => exact h.quiet (quiet_afterRun _ node left result _) rfl rfl rfl
  | wrote sink => exact h.quiet (quiet_writeStaged _ sink _) rfl rfl rfl
  | stopped node =>
    refine h.quiet (fun e he => ?_) rfl rfl rfl
    rcases List.mem_cons.mp he with rfl | he
    · exact Event.quiet_of fun _ => rfl
    · exact (List.mem_append.mp he).elim (quiet_finishAllSinks e) (quiet_finishAllSources e)
  | completed node =>
    refine h.quiet (fun e he => ?_) rfl rfl rfl
    cases List.mem_singleton.mp he
    exact Event.quiet_of fun _ => rfl
  | paced => exact h.quiet (fun e he => nomatch he) rfl rfl rfl

/-- The run lemma. -/
theorem accounts_run {turns : List (Turn R)} {outs : List (List Event)}
    (h : run (step service mode) (start service) turns = .ok (s, outs)) (i : Nat) :
    Accounts service s outs.flatten i := by
  refine run_outputs_induction (P := fun s outs => Accounts service s outs.flatten i) accounts_start
    (fun s outs turn s' more hs hstep => ?_) h
  rw [List.flatten_append, List.flatten_singleton]
  exact hs.step hstep

end Standalone

/-! ## The stream runner -/

namespace Stream
variable {R : Type}

/-- The chunks of a source account for its arrivals. -/
structure Rechunks (service : BuiltService R) (s : State R) (events : List Event) (i : Nat) :
    Prop where
  /-- No row is lost, duplicated or reordered. -/
  conserved : rowsOf (chunks i events) ++ heldRows (s.pending i) ++ heldRows (s.prefetched i) =
    rowsOf (arrivals i events)
  /-- No item admits more than the target of its source. -/
  bounded : ∀ source node, s.phase = .item source node →
    ∀ target, credit s.controllers i = some target → passRows i events ≤ target
  /-- A source that feeds a windowed node is never cut. -/
  whole : FeedsWindowed service.nodes i →
    chunks i events ++ (s.prefetched i).toList = arrivals i events

/-- The invariant that carries it. -/
structure Accounts (service : BuiltService R) (s : State R) (events : List Event) (i : Nat) : Prop
    extends Rechunks service s events i where
  primeless : s.phase = .priming → s.prefetched i = none
  tailless : FeedsWindowed service.nodes i → s.pending i = none
  uncredited : FeedsWindowed service.nodes i → credit s.controllers i = none

variable {service : BuiltService R} {s s' : State R} {events : List Event} {i : Nat}

/-- A step that says nothing of chunks, and begins no item. -/
theorem Accounts.quiet (h : Accounts service s events i) {quiet : List Event}
    (hquiet : ∀ e ∈ quiet, e.Quiet) (hpending : s'.pending = s.pending)
    (hprefetched : s'.prefetched = s.prefetched) (hcontrollers : s'.controllers = s.controllers)
    (hpriming : s'.phase ≠ .priming)
    (hphase : ∀ source node, s'.phase = .item source node → ∃ node', s.phase = .item source node') :
    Accounts service s' (events ++ quiet) i where
  conserved := by
    rw [chunks_append, arrivals_append, chunks_quiet hquiet, arrivals_quiet hquiet, List.append_nil,
      List.append_nil, hpending, hprefetched]
    exact h.conserved
  bounded source node hitem target htarget := by
    obtain ⟨node', hbefore⟩ := hphase source node hitem
    rw [passRows_quiet hquiet]
    exact h.bounded source node' hbefore target (hcontrollers ▸ htarget)
  whole hwindowed := by
    rw [chunks_append, arrivals_append, chunks_quiet hquiet, arrivals_quiet hquiet, List.append_nil,
      List.append_nil, hprefetched]
    exact h.whole hwindowed
  primeless hphase := absurd hphase hpriming
  tailless hwindowed := by rw [hpending, h.tailless hwindowed]
  uncredited hwindowed := by rw [hcontrollers, h.uncredited hwindowed]

/-- Selecting a source says nothing of chunks. -/
theorem Accounts.select (h : Accounts service s events i) {source cursor : Nat}
    (controllers : Nat → Option FlowController) :
    Accounts service
      { s with
        phase := .serving source
        sourceCursor := cursor
        controllers := fun i => if service.wholeArrivals i then none else controllers i }
      (events ++ []) i := by
  rw [List.append_nil]
  refine ⟨⟨h.conserved, nofun, h.whole⟩, nofun,
    h.tailless, fun hwindowed => ?_⟩
  unfold credit
  dsimp only
  rw [if_pos (service.wholeArrivals_iff.mpr hwindowed)]

/-! ## The prime phase -/

section
variable (outcomes : Nat → Primed) {sources : List Nat}

theorem quiet_primeEach_chunks (sources : List Nat) (s : State R) :
    chunks i (primeEach outcomes sources s).2 = [] := by
  induction sources generalizing s with
  | nil => rfl
  | cons source sources ih =>
    rw [primeEach, chunks_append, ih, List.append_nil]
    cases outcomes source <;> rfl

/-- The prime phase touches only what it primes. -/
theorem frame_primeEach (sources : List Nat) (s : State R) :
    (primeEach outcomes sources s).1.pending = s.pending ∧
      (primeEach outcomes sources s).1.controllers = s.controllers ∧
      (primeEach outcomes sources s).1.buffers = s.buffers := by
  induction sources generalizing s with
  | nil => exact ⟨rfl, rfl, rfl⟩
  | cons source sources ih =>
    obtain ⟨hpending, hcontrollers, hbuffers⟩ := ih (primeOne s source (outcomes source)).1
    rw [primeEach, hpending, hcontrollers, hbuffers]
    cases outcomes source <;> exact ⟨rfl, rfl, rfl⟩

theorem primeOne_other (hne : source ≠ i) (outcome : Primed) :
    (primeOne s source outcome).1.prefetched i = s.prefetched i ∧
      arrivals i (primeOne s source outcome).2 = [] := by
  cases outcome with
  | batch batch => exact ⟨Function.update_of_ne hne.symm .., List.filterMap_cons_none (if_neg hne)⟩
  | eof | failed | elapsed => exact ⟨rfl, rfl⟩

theorem primeOne_self (h : s.prefetched i = none) (outcome : Primed) :
    arrivals i (primeOne s i outcome).2 = ((primeOne s i outcome).1.prefetched i).toList := by
  cases outcome with
  | batch batch =>
    have hnow : (primeOne s i (.batch batch)).1.prefetched i = some batch := Function.update_self ..
    rw [hnow]
    exact List.filterMap_cons_some (if_pos rfl)
  | eof | failed | elapsed => exact (congrArg Option.toList h).symm

theorem primeEach_other (hi : i ∉ sources) (s : State R) :
    (primeEach outcomes sources s).1.prefetched i = s.prefetched i ∧
      arrivals i (primeEach outcomes sources s).2 = [] := by
  induction sources generalizing s with
  | nil => exact ⟨rfl, rfl⟩
  | cons source sources ih =>
    obtain ⟨hne, hi⟩ := not_or.mp (List.mem_cons.not.mp hi)
    obtain ⟨hprefetched, harrivals⟩ := ih hi (primeOne s source (outcomes source)).1
    obtain ⟨hprefetched', harrivals'⟩ := primeOne_other (s := s) (Ne.symm hne) (outcomes source)
    rw [primeEach, hprefetched, hprefetched', arrivals_append, harrivals, harrivals']
    exact ⟨rfl, rfl⟩

/-- What a source yielded during the prime phase is what it is prefetched with. -/
theorem arrivals_primeEach (hnodup : sources.Nodup) (h : s.prefetched i = none) :
    arrivals i (primeEach outcomes sources s).2 =
      ((primeEach outcomes sources s).1.prefetched i).toList := by
  induction sources generalizing s with
  | nil => exact (congrArg Option.toList h).symm
  | cons source sources ih =>
    obtain ⟨hsource, hnodup⟩ := List.nodup_cons.mp hnodup
    rw [primeEach, arrivals_append]
    by_cases hi : source = i
    · subst hi
      obtain ⟨hprefetched, harrivals⟩ :=
        primeEach_other outcomes hsource (primeOne s source (outcomes source)).1
      rw [harrivals, List.append_nil, hprefetched, primeOne_self h]
    · obtain ⟨hprefetched, harrivals⟩ := primeOne_other (s := s) hi (outcomes source)
      rw [harrivals, List.nil_append]
      exact ih hnodup (hprefetched.trans h)

end

theorem nodup_sourceIndices (nodes : List (BuiltNode R)) : (sourceIndices nodes).Nodup :=
  List.nodup_range.filter _

theorem Accounts.primed (h : Accounts service s events i) (hphase : s.phase = .priming)
    (outcomes : Nat → Primed) :
    Accounts service
      { (primeEach outcomes (sourceIndices service.nodes) s).1 with phase := .head }
      (events ++ (primeEach outcomes (sourceIndices service.nodes) s).2) i := by
  obtain ⟨hpending, hcontrollers, -⟩ :=
    frame_primeEach outcomes (sourceIndices service.nodes) s
  have hchunks := quiet_primeEach_chunks (i := i) outcomes (sourceIndices service.nodes) s
  have harrivals := arrivals_primeEach outcomes (nodup_sourceIndices service.nodes) (h.primeless hphase)
  refine ⟨⟨?_, nofun, fun hwindowed => ?_⟩, nofun,
    fun hwindowed => ?_, fun hwindowed => ?_⟩
  · have hbefore := h.conserved
    rw [h.primeless hphase, show heldRows none = [] from rfl, List.append_nil] at hbefore
    rw [chunks_append, arrivals_append, hchunks, List.append_nil, rowsOf_append, ← hbefore, harrivals,
      hpending]
    refine congrArg _ ?_
    cases (primeEach outcomes (sourceIndices service.nodes) s).1.prefetched i with
    | none => rfl
    | some batch => exact (rowsOf_singleton batch).symm
  · have hbefore := h.whole hwindowed
    rw [h.primeless hphase, Option.toList_none, List.append_nil] at hbefore
    rw [chunks_append, arrivals_append, hchunks, List.append_nil, harrivals, hbefore]
  · rw [hpending, h.tailless hwindowed]
  · rw [hcontrollers, h.uncredited hwindowed]

/-! ## Items -/

/-- What an item admits of its source. -/
theorem Accounts.item_self {component : String} {batch : RecordBatch} (more : List Event)
    (huncredited : FeedsWindowed service.nodes i → credit s.controllers i = none)
    (hmore : chunks i more = [])
    (hrows : rowsOf (chunks i events) ++ batch.rows ++ heldRows (s.prefetched i) =
      rowsOf (arrivals i (events ++ more)))
    (hwhole : FeedsWindowed service.nodes i →
      chunks i events ++ [batch] ++ (s.prefetched i).toList = arrivals i (events ++ more)) :
    Accounts service (beginItem service s i component batch).1
      (events ++ (more ++ (beginItem service s i component batch).2)) i := by
  let cut := cutAt (credit s.controllers i) batch
  have hevents : (beginItem service s i component batch).2 =
      .began :: (admitChunk service.nodes i component cut.1 s.buffers).2 := rfl
  have hchunks : chunks i (beginItem service s i component batch).2 = [cut.1] := by
    rw [hevents, ← List.singleton_append, chunks_append, chunks_admitChunk, if_pos rfl]
    rfl
  have harrivals : arrivals i (beginItem service s i component batch).2 = [] := by
    rw [hevents, ← List.singleton_append, arrivals_append, arrivals_admitChunk]
    rfl
  have hpending : (beginItem service s i component batch).1.pending i = cut.2 :=
    Function.update_self ..
  have hpass : thisPass (events ++ (more ++ (beginItem service s i component batch).2)) =
      (admitChunk service.nodes i component cut.1 s.buffers).2 := by
    rw [hevents, ← List.singleton_append, ← List.append_assoc, ← List.append_assoc,
      thisPass_append (not_began_admitChunk _ _ _ _ _), thisPass_began, List.nil_append]
  refine ⟨⟨?_, fun _ _ _ target htarget => ?_, fun hwindowed => ?_⟩, nofun,
    fun hwindowed => ?_, huncredited⟩
  · rw [chunks_append, chunks_append, hmore, List.nil_append, hchunks, hpending,
      ← List.append_assoc events, arrivals_append _ (beginItem service s i component batch).2,
      harrivals, List.append_nil, ← hrows, rowsOf_append, rowsOf_singleton,
      List.append_assoc (rowsOf _), heldRows, rows_cutAt]
    rfl
  · have htarget : credit s.controllers i = some target := htarget
    rw [passRows, hpass, chunks_admitChunk, if_pos rfl, rowsOf_singleton]
    simp only [cut, htarget]
    exact numRows_cutAt_le
  · rw [chunks_append, chunks_append, hmore, List.nil_append, hchunks,
      ← List.append_assoc events, arrivals_append _ (beginItem service s i component batch).2,
      harrivals, List.append_nil, ← hwhole hwindowed]
    simp only [cut, huncredited hwindowed, cutAt_none]
    rfl
  · rw [hpending]
    simp only [cut, huncredited hwindowed, cutAt_none]

/-- The other sources are not touched by an item. -/
theorem Accounts.item_other {source : Nat} {component : String} {batch : RecordBatch}
    (more : List Event) (h : Accounts service s events i) (hne : source ≠ i)
    (hmore : chunks i more = [] ∧ arrivals i more = []) :
    Accounts service (beginItem service s source component batch).1
      (events ++ (more ++ (beginItem service s source component batch).2)) i := by
  let cut := cutAt (credit s.controllers source) batch
  have hevents : (beginItem service s source component batch).2 =
      .began :: (admitChunk service.nodes source component cut.1 s.buffers).2 := rfl
  have hchunks : chunks i (more ++ (beginItem service s source component batch).2) = [] := by
    rw [chunks_append, hmore.1, hevents, ← List.singleton_append, chunks_append, chunks_admitChunk,
      if_neg hne]
    rfl
  have harrivals : arrivals i (more ++ (beginItem service s source component batch).2) = [] := by
    rw [arrivals_append, hmore.2, hevents, ← List.singleton_append, arrivals_append, arrivals_admitChunk]
    rfl
  have hpending : (beginItem service s source component batch).1.pending i = s.pending i :=
    Function.update_of_ne hne.symm ..
  have hpass : passRows i (events ++ (more ++ (beginItem service s source component batch).2)) = 0 := by
    rw [passRows, hevents, ← List.singleton_append, ← List.append_assoc, ← List.append_assoc,
      thisPass_append (not_began_admitChunk _ _ _ _ _), thisPass_began, List.nil_append, chunks_admitChunk,
      if_neg hne]
    rfl
  refine ⟨⟨?_, fun _ _ _ target _ => ?_, fun hwindowed => ?_⟩, nofun,
    fun hwindowed => ?_, h.uncredited⟩
  · rw [chunks_append, arrivals_append, hchunks, harrivals, List.append_nil, List.append_nil, hpending]
    exact h.conserved
  · rw [hpass]
    exact Nat.zero_le target
  · rw [chunks_append, arrivals_append, hchunks, harrivals, List.append_nil, List.append_nil]
    exact h.whole hwindowed
  · rw [hpending, h.tailless hwindowed]

variable [Inhabited R]

theorem accounts_start (h : start service = .ok s) : Accounts service s [] i := by
  rw [start] at h
  split_ifs at h
  cases h
  exact ⟨⟨rfl, nofun, fun _ => rfl⟩, fun _ => rfl, fun _ => rfl, fun _ => rfl⟩

/-- The step lemma. -/
theorem Accounts.step {turn : Turn R} {more : List Event} (h : Accounts service s events i)
    (hstep : step service s turn = .ok (s', more)) : Accounts service s' (events ++ more) i := by
  cases steps_of_step hstep with
  | primed hphase outcomes => exact h.primed hphase outcomes
  | shutDown =>
    refine h.quiet (fun e he => ?_) rfl rfl rfl nofun nofun
    exact (List.mem_append.mp he).elim (quiet_finishAllSinks e) (quiet_finishAllSources e)
  | selected _ source cursor _ controllers => exact h.select controllers
  | pending source component schema batch _ _ hpending =>
    by_cases hi : source = i
    · subst hi
      refine Accounts.item_self [] h.uncredited rfl ?_ fun hwindowed => ?_
      · rw [List.append_nil, ← h.conserved, hpending]
        rfl
      · exact nomatch (hpending.symm.trans (h.tailless hwindowed))
    · exact h.item_other [] hi ⟨rfl, rfl⟩
  | prefetched source component schema batch _ _ hpending hprefetched =>
    by_cases hi : source = i
    · subst hi
      have htaken : Function.update s.prefetched source none source = none := Function.update_self ..
      refine Accounts.item_self [] h.uncredited rfl ?_ fun hwindowed => ?_
      · dsimp only
        rw [List.append_nil, ← h.conserved, hpending, hprefetched, htaken]
        simp [heldRows]
      · dsimp only
        rw [List.append_nil, ← h.whole hwindowed, hprefetched, htaken]
        exact List.append_nil _
    · have hother : Accounts service
          { s with prefetched := Function.update s.prefetched source none } events i := by
        have hsame : Function.update s.prefetched source none i = s.prefetched i :=
          Function.update_of_ne (Ne.symm hi) ..
        refine ⟨⟨?_, h.bounded, fun hwindowed => ?_⟩, fun hphase => ?_, h.tailless, h.uncredited⟩
        · dsimp only
          rw [hsame, h.conserved]
        · dsimp only
          rw [hsame, h.whole hwindowed]
        · exact hsame.trans (h.primeless hphase)
      exact hother.item_other [] hi ⟨rfl, rfl⟩
  | arrived source component schema batch _ _ hpending hprefetched =>
    by_cases hi : source = i
    · subst hi
      have harrivals : arrivals source [.arrived source batch] = [batch] :=
        List.filterMap_cons_some (if_pos rfl)
      refine Accounts.item_self [.arrived source batch] h.uncredited rfl ?_
        fun hwindowed => ?_
      · rw [arrivals_append, harrivals, rowsOf_append, rowsOf_singleton, ← h.conserved, hpending,
          hprefetched]
        simp [heldRows]
      · rw [arrivals_append, harrivals, ← h.whole hwindowed, hprefetched]
        simp
    · exact h.item_other [.arrived source batch] hi
        ⟨rfl, List.filterMap_cons_none (if_neg hi)⟩
  | exhausted source => exact h.quiet (fun e he => nomatch he) rfl rfl rfl nofun nofun
  | failed source _ _ _ error =>
    refine h.quiet (fun e he => ?_) rfl rfl rfl nofun nofun
    cases List.mem_singleton.mp he
    exact Event.quiet_of fun _ => rfl
  | retried => exact h.quiet (fun e he => nomatch he) rfl rfl rfl nofun nofun
  | passed source node hphase =>
    refine h.quiet (fun e he => nomatch he) rfl rfl rfl nofun fun source' node' hitem => ?_
    cases hitem
    exact ⟨node, hphase⟩
  | ran source node left result hphase =>
    refine h.quiet (quiet_afterRun _ node left result _) rfl rfl rfl nofun fun source' node' hitem => ?_
    cases hitem
    exact ⟨node, hphase⟩
  | wrote source sink hphase =>
    refine h.quiet (quiet_writeStaged _ sink _) rfl rfl rfl nofun fun source' node' hitem => ?_
    cases hitem
    exact ⟨sink, hphase⟩
  | completed source node =>
    refine h.quiet (fun e he => ?_) rfl rfl rfl nofun nofun
    cases List.mem_singleton.mp he
    exact Event.quiet_of fun _ => rfl

/-- The run lemma. -/
theorem accounts_run {s₀ : State R} {turns : List (Turn R)} {outs : List (List Event)}
    (hstart : start service = .ok s₀) (h : run (step service) s₀ turns = .ok (s, outs)) (i : Nat) :
    Accounts service s outs.flatten i := by
  refine run_outputs_induction (P := fun s outs => Accounts service s outs.flatten i)
    (accounts_start hstart) (fun s outs turn s' more hs hstep => ?_) h
  rw [List.flatten_append, List.flatten_singleton]
  exact hs.step hstep

end Stream

/-- **Re-chunking conserves rows**, in both runners, over every workflow, every sequence of arrivals
and every sequence of targets. -/
theorem rechunking_conserves_rows {R : Type} [Inhabited R] (service : BuiltService R) :
    (∀ mode turns s outs,
      run (Standalone.step service mode) (Standalone.start service) turns = .ok (s, outs) →
        ∀ i, Standalone.Rechunks service s outs.flatten i) ∧
    (∀ s₀ turns s outs, Stream.start service = .ok s₀ →
      run (Stream.step service) s₀ turns = .ok (s, outs) →
        ∀ i, Stream.Rechunks service s outs.flatten i) :=
  ⟨fun _ _ _ _ h i => (Standalone.accounts_run h i).toRechunks,
    fun _ _ _ _ hstart h i => (Stream.accounts_run hstart h i).toRechunks⟩

namespace Sample

def orders : Schema := ⟨[⟨"amount", .int64, false⟩]⟩

/-- A batch of orders by their amounts. -/
def batchOf (amounts : List Int) : RecordBatch := ⟨orders, amounts.map fun amount => [.int amount]⟩

def link (node : Nat) : BuiltEdge := ⟨node, none⟩

/-- A source linked to a sink. -/
def straight : BuiltService Unit where
  workflowId := "orders"
  nodes := [⟨"intake", .source "Order" orders, none, [link 1]⟩,
    ⟨"archive", .sink "Order" orders, none, []⟩]
  forward i node hnode edge hedge := by
    rcases i with _ | _ | i <;> cases hnode <;> cases hedge
    · exact ⟨Nat.zero_lt_one, Nat.one_lt_two⟩
    · contradiction

/-- A controller of a source pinned to two rows a pass. -/
def pinned : FlowController where
  settings := { FlowSettings.default with fixedRows := some 2 }
  incumbent := 2
  candidate := 4
  arm := .incumbent
  direction := .up
  phase := .experiment
  settled := 0
  incumbentStats := {}
  candidateStats := {}
  epochStart := none
  throughput := 0
  ceiling := none
  lastSinkPending := none
  pendingRises := 0
  latencyAbandoned := false
  latencyNotice := none
  cooldown := 0

/-- Every source may admit two rows a pass. -/
def twoRows (_ : Nat) : Option FlowController := some pinned

def turn (answer : Standalone.Answer Unit) : Standalone.Turn Unit := ⟨answer, fun _ _ => .ok ()⟩

/-- A pass that admits two of three arrived orders, and the next one that takes up the third. -/
def twoPasses : List (Standalone.Turn Unit) :=
  [turn (.head false twoRows), turn (.poll (.batch (batchOf [1, 2, 3]))), turn .go, turn .go,
    turn (.tail false false), turn (.head false twoRows), turn .go]

theorem twoPasses_rechunks :
    ∃ s outs, run (Standalone.step straight .continuous) (Standalone.start straight) twoPasses =
        .ok (s, outs) ∧
      chunks 0 outs.flatten = [batchOf [1, 2], batchOf [3]] ∧
      Standalone.Rechunks straight s outs.flatten 0 := by
  refine ⟨_, _, rfl, ?_, ?_⟩
  · rfl
  exact (rechunking_conserves_rows straight).1 .continuous twoPasses _ _ rfl 0

end Sample
end Saci.Workflow
