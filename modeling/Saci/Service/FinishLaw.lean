import Saci.Service.FinishedSources

/-!
# When a source is finished rightly

Over every run of either runner: whenever a source is finished all its rows are processed, exactly
when every chunk was taken up by the processors it was delivered to and the run came to its end with
nothing held back. What may be held back differs between the runners.
-/

namespace Saci.Workflow

section
variable {R : Type} {service : BuiltService R} {i d : Nat}

theorem BuiltService.lt_of_feeds (h : Feeds service.nodes i d) :
    i < d ∧ d < service.nodes.length := by
  obtain ⟨hpath, -⟩ := h
  induction hpath with
  | single hlink => exact service.lt_of_links hlink
  | tail _ hlink ih =>
    obtain ⟨hlt, hlast⟩ := service.lt_of_links hlink
    exact ⟨ih.1.trans hlt, hlast⟩

theorem kinds_apart {nodes : List (BuiltNode R)} (h : isSource nodes i = true) :
    isProcessor nodes i = false ∧ isSink nodes i = false := by
  rw [isSource] at h
  rw [isProcessor, isSink]
  generalize kindAt nodes i = kind at h ⊢
  rcases kind with _ | ⟨_ | _ | _⟩
  · cases h
  · exact ⟨rfl, rfl⟩
  · cases h
  · cases h

theorem not_sink_of_processor {nodes : List (BuiltNode R)} (h : isProcessor nodes i = true) :
    isSink nodes i = false := by
  rw [isProcessor] at h
  rw [isSink]
  generalize kindAt nodes i = kind at h ⊢
  rcases kind with _ | ⟨_ | _ | _⟩
  · cases h
  · cases h
  · rfl
  · cases h

theorem lt_of_isSource {nodes : List (BuiltNode R)} (h : isSource nodes i = true) :
    i < nodes.length :=
  List.mem_range.mp (List.mem_filter.mp (mem_sourceIndices.mpr h)).1

/-- A node that is fed is no source. -/
theorem Feeds.not_source {nodes : List (BuiltNode R)} (h : Feeds nodes i d) :
    isSource nodes d ≠ true := by
  intro hsource
  obtain ⟨hprocessor, hsink⟩ := kinds_apart hsource
  rcases h.2 with h | h
  · cases hprocessor.symm.trans h
  · cases hsink.symm.trans h

end

/-! ## Owed turns -/

section
variable {R : Type} {service : BuiltService R} {place place' : Option Nat} {rows rows' : Nat → Nat}
  {events more : List Event} {i d : Nat}

/-- Which turns the nodes still owe, where a pass has come to some place and each source has admitted
so many rows in it: every node from that place on, to the rows of the sources behind it. -/
structure Tracks (service : BuiltService R) (place : Option Nat) (rows : Nat → Nat)
    (events : List Event) : Prop where
  owed : ∀ i d, Feeds service.nodes i d →
    (Owes i d events ↔ ∃ j ∈ place, rows i ≠ 0 ∧ j ≤ d)
  unfinished : ∀ i, .finishedSource i ∉ events

/-- What is told and admits nothing, where the node the pass is at has had its turn. -/
theorem Tracks.next {j : Nat} (h : Tracks service (some j) rows events)
    (hadmits : ∀ i, ∀ e ∈ more, ¬Admits i e) (hfinish : ∀ i, .finishedSource i ∉ more)
    (hturns : ∀ i d, Feeds service.nodes i d → ((∀ e ∈ more, e.turnOf ≠ some d) ↔ d ≠ j)) :
    Tracks service (some (j + 1)) rows (events ++ more) := by
  refine ⟨fun i d hfeeds => ?_, fun i hi => ?_⟩
  · rw [owes_append_of_not_admits (hadmits i), h.owed i d hfeeds, hturns i d hfeeds]
    constructor
    · rintro ⟨⟨k, hk, hne, hle⟩, hd⟩
      cases hk
      exact ⟨j + 1, rfl, hne, Nat.lt_of_le_of_ne hle (Ne.symm hd)⟩
    · rintro ⟨k, hk, hne, hle⟩
      cases hk
      exact ⟨⟨j, rfl, hne, Nat.le_of_succ_le hle⟩, (Nat.ne_of_lt hle).symm⟩
  · exact (List.mem_append.mp hi).elim (h.unfinished i) (hfinish i)

/-- Between passes no turn is owed. -/
theorem Tracks.rest (h : Tracks service place rows events)
    (hadmits : ∀ i, ∀ e ∈ more, ¬Admits i e) (hfinish : ∀ i, .finishedSource i ∉ more)
    (hbefore : ∀ j ∈ place, service.nodes.length ≤ j) (hafter : place' = none ∨ ∀ i, rows' i = 0) :
    Tracks service place' rows' (events ++ more) := by
  refine ⟨fun i d hfeeds => ?_, fun i hi => ?_⟩
  · refine iff_of_false ?_ ?_
    · rw [owes_append_of_not_admits (hadmits i), h.owed i d hfeeds]
      rintro ⟨⟨j, hj, -, hle⟩, -⟩
      exact Nat.not_lt.mpr ((hbefore j hj).trans hle) (service.lt_of_feeds hfeeds).2
    · rintro ⟨j, hj, hne, -⟩
      rcases hafter with rfl | hzero
      · cases hj
      · exact hne (hzero i)
  · exact (List.mem_append.mp hi).elim (h.unfinished i) (hfinish i)

/-- An admission owes every node behind its source a turn. -/
theorem Tracks.admits {source : Nat} {component : String} {buffers : Buffers R}
    (h : Tracks service place rows events) (chunk : RecordBatch)
    (hmore : ∀ e ∈ more, e.turnOf = none ∧ (∀ i, ¬Admits i e) ∧ ∀ i, e ≠ .finishedSource i)
    (hplace : ∀ d, Feeds service.nodes source d → ∃ j ∈ place', j ≤ d)
    (hsource : rows' source ≠ 0 ↔ chunk.numRows ≠ 0 ∨ ∃ j ∈ place, rows source ≠ 0 ∧ j ≤ source)
    (hbefore : ∀ j ∈ place, j ≤ source)
    (hothers : ∀ i d, i ≠ source → Feeds service.nodes i d →
      ((∃ j ∈ place', rows' i ≠ 0 ∧ j ≤ d) ↔ ∃ j ∈ place, rows i ≠ 0 ∧ j ≤ d)) :
    Tracks service place' rows'
      (events ++ (more ++ (admitChunk service.nodes source component chunk buffers).2)) := by
  refine ⟨fun i d hfeeds => ?_, fun i hi => ?_⟩
  · have hquiet : ∀ e ∈ more, e.turnOf ≠ some d := by
      intro e he
      rw [(hmore e he).1]
      exact nofun
    have hturns : ∀ e ∈ (admitChunk service.nodes source component chunk buffers).2,
        e.turnOf ≠ some d := by
      intro e he
      rw [(admitChunk_events buffers e he).1]
      exact nofun
    rw [← List.append_assoc, owes_append, owes_admitChunk, and_iff_left hturns,
      owes_append_of_not_admits (fun e he => (hmore e he).2.1 i), and_iff_left hquiet,
      h.owed i d hfeeds]
    have hchunk : chunk.rows ≠ [] ↔ chunk.numRows ≠ 0 := by
      rw [RecordBatch.numRows, ne_eq, ne_eq, List.length_eq_zero_iff]
    by_cases hi : i = source
    · subst hi
      have hlt := (service.lt_of_feeds hfeeds).1
      obtain ⟨k, hk, hle⟩ := hplace d hfeeds
      rw [hchunk]
      constructor
      · rintro (⟨-, hrows⟩ | ⟨j, hj, hrows, -⟩)
        · exact ⟨k, hk, hsource.mpr (.inl hrows), hle⟩
        · exact ⟨k, hk, hsource.mpr (.inr ⟨j, hj, hrows, hbefore j hj⟩), hle⟩
      · rintro ⟨j, -, hrows, -⟩
        rcases hsource.mp hrows with hrows | ⟨j, hj, hrows, hle⟩
        · exact .inl ⟨rfl, hrows⟩
        · exact .inr ⟨j, hj, hrows, hle.trans hlt.le⟩
    · rw [hothers i d hi hfeeds]
      exact or_iff_right fun h => hi h.1.symm
  · rcases List.mem_append.mp hi with hi | hi
    · exact h.unfinished i hi
    · rcases List.mem_append.mp hi with hi | hi
      · exact (hmore _ hi).2.2 i rfl
      · exact (admitChunk_events buffers _ hi).2.1 i rfl

/-- Where the run ends: the rows of the sources are processed exactly when none was refused, none is
held back, and every node behind the place the pass has come to has its turn in the flush. -/
theorem Tracks.ended {held : Nat → List (List Cell)} {flush : List Event}
    (h : Tracks service place rows events)
    (hheld : ∀ i, rowsOf (chunks i events) ++ held i = rowsOf (arrivals i events))
    (hquiet : ∀ e ∈ flush, e.Quiet)
    (hothers : ∀ e ∈ flush, (∀ i d x, e ≠ .appendFailed i d x) ∧ ∀ i, e ≠ .finishedSource i) :
    FinishMeansProcessed service.nodes (events ++ (flush ++ finishAllSources service.nodes)) ↔
      (∀ i, isSource service.nodes i = true → ¬Refused i events) ∧
        ∀ i, isSource service.nodes i = true → held i = [] ∧
          ∀ j ∈ place, rows i ≠ 0 → ∀ d, Feeds service.nodes i d →
            (∀ e ∈ flush, e.turnOf ≠ some d) → d < j := by
  have hunfinished : ∀ i, .finishedSource i ∉ events ++ flush := fun i hi =>
    (List.mem_append.mp hi).elim (h.unfinished i) fun hi => (hothers _ hi).2 i rfl
  have hprocessed (i : Nat) : Processed service.nodes i (events ++ flush) ↔
      ¬Refused i events ∧ held i = [] ∧
        ∀ j ∈ place, rows i ≠ 0 → ∀ d, Feeds service.nodes i d →
          (∀ e ∈ flush, e.turnOf ≠ some d) → d < j := by
    have hadmitted : rowsOf (chunks i (events ++ flush)) = rowsOf (arrivals i (events ++ flush)) ↔
        held i = [] := by
      rw [chunks_append, arrivals_append, chunks_quiet hquiet, arrivals_quiet hquiet,
        List.append_nil, List.append_nil, ← hheld i]
      exact List.self_eq_append_right
    have hrefused : Refused i (events ++ flush) ↔ Refused i events := by
      rw [refused_append]
      exact or_iff_left (not_refused_of_forall fun e he => (hothers e he).1)
    have howes (d : Nat) : Owes i d (events ++ flush) ↔
        Owes i d events ∧ ∀ e ∈ flush, e.turnOf ≠ some d :=
      owes_append_of_not_admits (not_admits_of_quiet hquiet)
    constructor
    · rintro ⟨hrows, hdelivered, hserved⟩
      refine ⟨hrefused.not.mp hdelivered, hadmitted.mp hrows, fun j hj hne d hfeeds hflush => ?_⟩
      by_contra hle
      refine hserved d hfeeds ((howes d).mpr ⟨?_, hflush⟩)
      exact (h.owed i d hfeeds).mpr ⟨j, hj, hne, Nat.le_of_not_lt hle⟩
    · rintro ⟨hdelivered, hnone, hclear⟩
      refine ⟨hadmitted.mpr hnone, hrefused.not.mpr hdelivered, fun d hfeeds howed => ?_⟩
      obtain ⟨hbefore, hflush⟩ := (howes d).mp howed
      obtain ⟨j, hj, hne, hle⟩ := (h.owed i d hfeeds).mp hbefore
      exact Nat.not_lt.mpr hle (hclear j hj hne d hfeeds hflush)
  rw [← List.append_assoc, finishAllSources, finishMeansProcessed_iff hunfinished]
  constructor
  · intro hall
    refine ⟨fun i hi => ?_, fun i hi => ?_⟩
    · exact ((hprocessed i).mp (hall i (mem_sourceIndices.mpr hi))).1
    · exact ((hprocessed i).mp (hall i (mem_sourceIndices.mpr hi))).2
  · rintro ⟨hrefused, hclear⟩ i hi
    have hsource := mem_sourceIndices.mp hi
    exact (hprocessed i).mpr ⟨hrefused i hsource, hclear i hsource⟩

/-- Nothing has been told yet. -/
theorem tracks_nil : Tracks service none rows [] where
  owed _ _ _ := ⟨fun h => h.elim, fun ⟨_, hj, _⟩ => nomatch hj⟩
  unfinished _ := List.not_mem_nil

theorem not_refused_of_plain (h : ∀ e ∈ more, Event.Plain e) : ¬Refused i more :=
  not_refused_of_forall fun e he => (h e he).2.1

theorem refused_only {source : Nat} (hsource : isSource service.nodes source = true)
    (honly : ∀ i, Refused i more → i = source) :
    (∀ i, isSource service.nodes i = true → ¬Refused i more) ↔ ¬Refused source more :=
  ⟨fun h => h source hsource, fun h i _ hi => h (honly i hi ▸ hi)⟩

/-- A processor's turn, and what it says of the rows. -/
theorem Tracks.ran [Inhabited R] {node : Nat} (h : Tracks service (some node) rows events)
    (left : Dataset R) (result : SaciResult (Option (List String))) (buffers : Buffers R) :
    Tracks service (some (node + 1)) rows
        (events ++ (afterRun service.nodes node left result buffers).2) ∧
      ∀ i, ¬Refused i (afterRun service.nodes node left result buffers).2 := by
  obtain ⟨answer, plain, hplain, heq⟩ := afterRun_eq service.nodes node left result buffers
  have hquiet := quiet_afterRun service.nodes node left result buffers
  rw [heq] at hquiet ⊢
  refine ⟨h.next (fun i => not_admits_of_quiet hquiet) (fun i hi => ?_) fun i d _ => ?_, fun i => ?_⟩
  · exact (hplain _ ((List.mem_cons.mp hi).resolve_left nofun)).2.2 i rfl
  · have hturn : Event.turnOf (.ran node answer) ≠ some d ↔ d ≠ node :=
      ⟨fun h heq => h (congrArg some heq.symm), fun h heq => h (Option.some.inj heq).symm⟩
    rw [List.forall_mem_cons, hturn]
    exact and_iff_left fun e he => (hplain e he).turn_ne d
  · exact not_refused_of_forall fun e he => (List.mem_cons.mp he).elim
      (fun h => by rw [h]; exact nofun) fun he => (hplain e he).2.1

/-- A sink's turn, and what it says of the rows. -/
theorem Tracks.wrote {sink : Nat} (h : Tracks service (some sink) rows events)
    (results : Nat → Nat → SaciResult Unit) (buffers : Buffers R) :
    Tracks service (some (sink + 1)) rows (events ++ (writeStaged results sink buffers).2) ∧
      ∀ i, ¬Refused i (writeStaged results sink buffers).2 := by
  obtain ⟨plain, hplain, heq⟩ := writeStaged_eq results sink buffers
  have hquiet := quiet_writeStaged results sink buffers
  rw [heq] at hquiet ⊢
  refine ⟨h.next (fun i => not_admits_of_quiet hquiet) (fun i hi => ?_) fun i d _ => ?_, fun i => ?_⟩
  · rcases List.mem_append.mp hi with hi | hi
    · exact (hplain _ hi).2.2 i rfl
    · cases List.mem_singleton.mp hi
  · have hturn : Event.turnOf (.drained sink) ≠ some d ↔ d ≠ sink :=
      ⟨fun h heq => h (congrArg some heq.symm), fun h heq => h (Option.some.inj heq).symm⟩
    rw [List.forall_mem_append, List.forall_mem_singleton, hturn]
    exact and_iff_right fun e he => (hplain e he).turn_ne d
  · refine not_refused_of_forall fun e he => ?_
    rcases List.mem_append.mp he with he | he
    · exact (hplain e he).2.1
    · cases List.mem_singleton.mp he
      exact nofun

end

/-! ## The batch runner -/

namespace Standalone

section
variable {R : Type} (service : BuiltService R) (s : State R) (turn : Turn R)

/-- The turn saw a cancellation. -/
def Cancels : Bool :=
  match turn.answer with
  | .head cancelled _ => cancelled
  | .poll .cancelled => true
  | .run .cancelled => true
  | .tail cancelled _ => cancelled
  | .pace cancelled => cancelled
  | _ => false

/-- What a source admits of a batch. -/
def chunkOf (i : Nat) (batch : RecordBatch) : RecordBatch :=
  (cutAt (if service.wholeArrivals i then none else remaining s i) batch).1

/-- A chunk that the turn admits is accepted by every processor it is delivered to. -/
def Takes : Prop :=
  ∀ i component schema batch, s.phase = .node i →
    kindAt service.nodes i = some (.source component schema) → remaining s i ≠ some 0 →
    Offers s turn i batch →
    ∀ edge ∈ downstreamAt service.nodes i, isProcessor service.nodes edge.node = true →
      Accepts (s.buffers.datasets edge.node) component (chunkOf service s i batch)

/-- Nothing is held back: no source has a tail, and a source that has admitted rows in the pass only
feeds processors before the node the pass has come to. -/
def Clear : Prop :=
  ∀ i, isSource service.nodes i = true → heldRows (s.carry i) = [] ∧
    ∀ j, s.phase = .node j → s.admittedRows i ≠ 0 →
      ∀ d, Feeds service.nodes i d → isProcessor service.nodes d = true → d < j

/-- What a turn has to meet. -/
def FinishesRightly : Prop := Takes service s turn ∧ (Cancels turn = true → Clear service s)

/-- The node the pass has come to. -/
def place : Option Nat :=
  match s.phase with
  | .node j => some j
  | _ => none

end

section
variable {R : Type} {service : BuiltService R} {mode : RunMode} {s s' : State R} {turn : Turn R}
  {events more : List Event} {i d : Nat}

theorem place_of_phase {phase : Phase} (h : s.phase = phase) :
    place s = place { s with phase } := by
  rw [place, h, place]

theorem mem_place {j : Nat} : j ∈ place s ↔ s.phase = .node j := by
  rw [place]
  cases s.phase with
  | node i => simp [eq_comm]
  | head | pacing | stopped => exact iff_of_false nofun nofun

/-- A cancellation ends the run. -/
theorem ends_of_cancels (h : Cancels turn = true) : Ends mode turn = true := by
  rw [Cancels] at h
  rw [Ends]
  split at h <;> simp_all

/-- A run ends by a cancellation, or at the end of the one pass. -/
theorem tail_of_ends (hends : Ends mode turn = true) (hcancels : Cancels turn = false) :
    mode = .oneShot ∧ ∃ cancelled paused, turn.answer = .tail cancelled paused := by
  rw [Ends] at hends
  rw [Cancels] at hcancels
  split at hends <;> simp_all

/-- What an admission of the pass refuses. -/
theorem refused_admitFrom {component : String} {batch : RecordBatch} {source : Nat} :
    Refused source (admitFrom service s source component batch).2 ↔
      ∃ edge ∈ downstreamAt service.nodes source, isProcessor service.nodes edge.node = true ∧
        ¬Accepts (s.buffers.datasets edge.node) component (chunkOf service s source batch) :=
  refused_admitChunk s.buffers

/-- An admission refuses no chunk of another source. -/
theorem refused_admitFrom_source {component : String} {batch : RecordBatch} {source : Nat}
    (h : Refused i (admitFrom service s source component batch).2) : i = source := by
  obtain ⟨d, e, hmem⟩ := h
  exact (admitChunk_events s.buffers _ hmem).2.2 i d e rfl

/-- Where a batch is about to be admitted, the turn takes it when nothing is refused. -/
theorem takes_iff_of_offer {source : Nat} {component : String} {schema : Schema}
    {batch : RecordBatch} (hphase : s.phase = .node source)
    (hkind : kindAt service.nodes source = some (.source component schema))
    (hcredit : remaining s source ≠ some 0)
    (hoffer : ∀ other, Offers s turn source other ↔ other = batch) :
    Takes service s turn ↔ ¬Refused source (admitFrom service s source component batch).2 := by
  rw [refused_admitFrom]
  constructor
  · rintro htakes ⟨edge, hedge, hprocessor, hnot⟩
    exact hnot (htakes source component schema batch hphase hkind hcredit ((hoffer batch).mpr rfl) edge
      hedge hprocessor)
  · intro hnot source' component' schema' batch' hphase' hkind' _ hoffer' edge hedge hprocessor
    cases hphase.symm.trans hphase'
    cases hkind.symm.trans hkind'
    cases (hoffer batch').mp hoffer'
    by_contra haccepts
    exact hnot ⟨edge, hedge, hprocessor, haccepts⟩

/-- Where the pass is not at a source, nothing is offered. -/
theorem takes_of_not_source (h : ∀ i, s.phase = .node i → isSource service.nodes i ≠ true) :
    Takes service s turn := by
  intro i component schema batch hphase hkind
  exact absurd (by rw [isSource, hkind]) (h i hphase)

/-- An admission of the pass. -/
theorem tracks_admitFrom {source : Nat} {component : String} {batch : RecordBatch}
    (more : List Event) (h : Tracks service (place s) s.admittedRows events) (hphase : s.phase = .node source)
    (hmore : ∀ e ∈ more, e.turnOf = none ∧ (∀ i, ¬Admits i e) ∧ ∀ i, e ≠ .finishedSource i) :
    Tracks service (place (admitFrom service s source component batch).1)
      (admitFrom service s source component batch).1.admittedRows
      (events ++ (more ++ (admitFrom service s source component batch).2)) := by
  have hplace : place (admitFrom service s source component batch).1 = place s := rfl
  have hrows : (admitFrom service s source component batch).1.admittedRows =
      Function.update s.admittedRows source
        (s.admittedRows source + (chunkOf service s source batch).numRows) := rfl
  have hat : place s = some source := mem_place.mpr hphase
  rw [hplace, hrows]
  refine h.admits (chunkOf service s source batch) hmore (fun d hfeeds => ?_) ?_
    (fun j hj => ?_) fun i d hi _ => ?_
  · exact ⟨source, hat, (service.lt_of_feeds hfeeds).1.le⟩
  · rw [Function.update_self, hat]
    simp only [Option.mem_some_iff, exists_eq_left', le_refl, and_true]
    omega
  · rw [hat] at hj
    exact (Option.some.inj hj).ge
  · rw [Function.update_of_ne hi]

end

section
variable {R : Type} [Inhabited R] {service : BuiltService R} {mode : RunMode} {s s' : State R}
  {turn : Turn R} {events more : List Event} {i : Nat}

/-- The runner stops in the turns that end the run. -/
theorem stopped_iff_ends (h : step service mode s turn = .ok (s', more)) :
    s'.phase = .stopped ↔ Ends mode turn = true := by
  cases steps_of_step h with
  | shutDown _ hends => exact iff_of_true rfl hends
  | stopped _ _ _ hends => exact iff_of_true rfl hends
  | carried _ _ _ _ hphase _ _ _ hends =>
    exact iff_of_false (by rw [admitFrom_phase, hphase]; nofun) (by rw [hends]; nofun)
  | arrived _ _ _ _ hphase _ _ _ _ hends =>
    exact iff_of_false (by rw [admitFrom_phase, hphase]; nofun) (by rw [hends]; nofun)
  | completed _ _ _ _ hphase hends =>
    exact iff_of_false (by rcases hphase with rfl | rfl <;> nofun) (by rw [hends]; nofun)
  | began _ _ hends | spent _ _ _ _ hends | drainedDry _ _ _ _ _ _ hends | ran _ _ _ _ _ _ hends
  | wrote _ _ _ hends | paced _ hends => exact iff_of_false nofun (by rw [hends]; nofun)

/-- A turn that goes on keeps track, and refuses a chunk exactly when it does not take it. -/
theorem tracks_step (h : Tracks service (place s) s.admittedRows events)
    (hstep : step service mode s turn = .ok (s', more)) (hgoes : Ends mode turn = false) :
    Tracks service (place s') s'.admittedRows (events ++ more) ∧
      ((∀ i, isSource service.nodes i = true → ¬Refused i more) ↔ Takes service s turn) := by
  cases steps_of_step hstep with
  | shutDown _ hends => cases hgoes.symm.trans hends
  | stopped _ _ _ hends => cases hgoes.symm.trans hends
  | began hphase controllers =>
    refine ⟨h.rest (fun i e he => ?_) (fun i he => ?_) ?_ (.inr fun _ => rfl), ?_⟩
    · cases List.mem_singleton.mp he
      rintro ⟨_, ⟨⟩, _⟩
    · cases List.mem_singleton.mp he
    · rw [place_of_phase hphase]
      rintro _ ⟨⟩
    · refine iff_of_true (fun i _ => not_refused_of_forall fun e he => ?_)
        (takes_of_not_source (by rw [hphase]; rintro _ ⟨⟩))
      cases List.mem_singleton.mp he
      rintro _ _ _ ⟨⟩
  | spent source hphase hsource hcredit =>
    rw [place_of_phase hphase] at h
    refine ⟨h.next (by rintro _ _ ⟨⟩) (fun _ => List.not_mem_nil) fun i d hfeeds => ?_, ?_⟩
    · exact iff_of_true (by rintro _ ⟨⟩) fun heq => hfeeds.not_source (heq ▸ hsource)
    · refine iff_of_true (fun i _ => not_refused_of_plain (by rintro _ ⟨⟩)) ?_
      intro i component schema batch hphase' _ hcredit'
      cases hphase.symm.trans hphase'
      exact absurd hcredit hcredit'
  | carried source component schema batch hphase hkind hcredit hcarry =>
    have hoffer (other : RecordBatch) : Offers s turn source other ↔ other = batch := by
      rw [Offers, hcarry]
      simp [eq_comm]
    refine ⟨tracks_admitFrom [] h hphase (by rintro _ ⟨⟩), ?_⟩
    rw [takes_iff_of_offer hphase hkind hcredit hoffer]
    exact refused_only (by rw [isSource, hkind]) fun i h => refused_admitFrom_source h
  | arrived source component schema batch hphase hkind hcredit hcarry hanswer =>
    have hoffer (other : RecordBatch) : Offers s turn source other ↔ other = batch := by
      rw [Offers, hcarry, hanswer]
      simp [eq_comm]
    have hevent : ∀ e ∈ [Event.arrived source batch], e.Plain ∧ ∀ i, ¬Admits i e := by
      intro e he
      cases List.mem_singleton.mp he
      exact ⟨⟨rfl, (by rintro _ _ _ ⟨⟩), by rintro _ ⟨⟩⟩, by rintro i ⟨_, ⟨⟩, _⟩⟩
    refine ⟨tracks_admitFrom [.arrived source batch] h hphase fun e he => ?_, ?_⟩
    · exact ⟨(hevent e he).1.1, (hevent e he).2, (hevent e he).1.2.2⟩
    · rw [takes_iff_of_offer hphase hkind hcredit hoffer]
      have hsame (i : Nat) : Refused i
          (.arrived source batch :: (admitFrom service s source component batch).2) ↔
            Refused i (admitFrom service s source component batch).2 := by
        rw [← List.singleton_append, refused_append]
        exact or_iff_right (not_refused_of_plain fun e he => (hevent e he).1)
      simp only [hsame]
      exact refused_only (by rw [isSource, hkind]) fun i h => refused_admitFrom_source h
  | drainedDry source hphase hsource hoffers _ hevents =>
    have hplain : ∀ e ∈ more, e.Plain ∧ ∀ i, ¬Admits i e := by
      intro e he
      rcases hevents with rfl | ⟨error, rfl⟩
      · cases he
      · cases List.mem_singleton.mp he
        exact ⟨⟨rfl, (by rintro _ _ _ ⟨⟩), by rintro _ ⟨⟩⟩, by rintro i ⟨_, ⟨⟩, _⟩⟩
    rw [place_of_phase hphase] at h
    refine ⟨h.next (fun i e he => (hplain e he).2 i) (fun i hi => (hplain _ hi).1.2.2 i rfl)
      fun i d hfeeds => ?_, ?_⟩
    · exact iff_of_true (fun e he => (hplain e he).1.turn_ne d)
        fun heq => hfeeds.not_source (heq ▸ hsource)
    · refine iff_of_true (fun i _ => not_refused_of_plain fun e he => (hplain e he).1) ?_
      intro i component schema batch hphase' _ _ hoffer
      cases hphase.symm.trans hphase'
      exact absurd hoffer (hoffers batch)
  | ran node left result hphase hprocessor =>
    rw [place_of_phase hphase] at h
    obtain ⟨htracks, hrefused⟩ := h.ran left result s.buffers
    refine ⟨htracks, iff_of_true (fun i _ => hrefused i) (takes_of_not_source fun i hi => ?_)⟩
    cases hphase.symm.trans hi
    exact fun hsource => by cases hprocessor.symm.trans (kinds_apart hsource).1
  | wrote sink hphase hsink =>
    rw [place_of_phase hphase] at h
    obtain ⟨htracks, hrefused⟩ := h.wrote turn.results s.buffers
    refine ⟨htracks, iff_of_true (fun i _ => hrefused i) (takes_of_not_source fun i hi => ?_)⟩
    cases hphase.symm.trans hi
    exact fun hsource => by cases hsink.symm.trans (kinds_apart hsource).2
  | completed node hphase hi phase hafter =>
    refine ⟨h.rest (fun i e he => ?_) (fun i he => ?_) (fun j hj => ?_) (.inl ?_), ?_⟩
    · cases List.mem_singleton.mp he
      rintro ⟨_, ⟨⟩, _⟩
    · cases List.mem_singleton.mp he
    · cases hphase.symm.trans (mem_place.mp hj)
      exact hi
    · rcases hafter with rfl | rfl <;> rfl
    · refine iff_of_true (fun i _ => not_refused_of_forall fun e he => ?_)
        (takes_of_not_source fun i hi' hsource => ?_)
      · cases List.mem_singleton.mp he
        rintro _ _ _ ⟨⟩
      · cases hphase.symm.trans hi'
        exact Nat.not_lt.mpr hi (lt_of_isSource hsource)
  | paced hphase =>
    refine ⟨h.rest (by rintro _ _ ⟨⟩) (fun _ => List.not_mem_nil) ?_ (.inl rfl), ?_⟩
    · rw [place_of_phase hphase]
      rintro _ ⟨⟩
    · exact iff_of_true (fun i _ => not_refused_of_plain (by rintro _ ⟨⟩))
        (takes_of_not_source (by rw [hphase]; rintro _ ⟨⟩))

/-- The turn that ends the run finishes the sources rightly when no chunk was refused and nothing is
held back. -/
theorem tracks_ended (h : Tracks service (place s) s.admittedRows events)
    (haccounts : ∀ i, Accounts service s events i)
    (hstep : step service mode s turn = .ok (s', more)) (hends : Ends mode turn = true) :
    (FinishMeansProcessed service.nodes (events ++ more) ↔
      (∀ i, isSource service.nodes i = true → ¬Refused i events) ∧ Clear service s) ∧
      Takes service s turn := by
  have hheld (i : Nat) := (haccounts i).conserved
  cases steps_of_step hstep with
  | shutDown hwaits =>
    obtain ⟨hturns, hothers⟩ :=
      flushEach_spec turn.results (sinkIndices service.nodes) s.buffers
    refine ⟨?_, ?_⟩
    · refine (h.ended hheld (quiet_flushEach _ _) hothers).trans (and_congr_right fun _ => ?_)
      refine forall_congr' fun i => imp_congr_right fun _ => and_congr_right fun _ => ?_
      simp only [mem_place]
      refine forall_congr' fun j => imp_congr_right fun _ => imp_congr_right fun _ => ?_
      refine forall_congr' fun d => imp_congr_right fun hfeeds => ?_
      -- the flush is a turn of every sink, and of no processor
      rw [hturns, mem_sinkIndices]
      refine imp_congr_left ⟨fun hnot => hfeeds.2.resolve_right hnot, fun hprocessor hsink => ?_⟩
      cases (not_sink_of_processor hprocessor).symm.trans hsink
    · cases hwaits with
      | head hphase => exact takes_of_not_source (by rw [hphase]; exact nofun)
      | pacing hphase => exact takes_of_not_source (by rw [hphase]; exact nofun)
      | running node hphase hprocessor =>
        refine takes_of_not_source fun i hi hsource => ?_
        cases hphase.symm.trans hi
        exact nomatch hprocessor.symm.trans (kinds_apart hsource).1
      | polling source hphase _ hcarry _ =>
        rintro i component schema batch hi _ _ (hcarried | ⟨-, harrived⟩)
        · cases hphase.symm.trans hi
          cases hcarry.symm.trans hcarried
        · cases (ends_of_answer harrived).symm.trans hends
  | stopped node hphase hi =>
    have hplain : ∀ e ∈ .completed :: finishAllSinks service.nodes, e.Quiet ∧ e.Plain := by
      intro e he
      rcases List.mem_cons.mp he with rfl | he
      · exact ⟨Event.quiet_of (fun _ => rfl), rfl, nofun, nofun⟩
      · exact ⟨quiet_finishAllSinks e he, plain_finishAllSinks e he⟩
    refine ⟨?_, takes_of_not_source fun i hi' hsource => ?_⟩
    · refine (h.ended hheld (fun e he => (hplain e he).1) fun e he => (hplain e he).2.2).trans
        (and_congr_right fun _ => ?_)
      refine forall_congr' fun i => imp_congr_right fun _ => and_congr_right fun _ => ?_
      -- past the last node nothing is behind
      refine iff_of_true (fun j hj _ d hfeeds _ => ?_) fun j hj _ d hfeeds _ => ?_
      · cases hphase.symm.trans (mem_place.mp hj)
        exact (service.lt_of_feeds hfeeds).2.trans_le hi
      · cases hphase.symm.trans hj
        exact (service.lt_of_feeds hfeeds).2.trans_le hi
    · cases hphase.symm.trans hi'
      exact Nat.not_lt.mpr hi (lt_of_isSource hsource)
  | began _ _ hgoes | spent _ _ _ _ hgoes | carried _ _ _ _ _ _ _ _ hgoes
  | arrived _ _ _ _ _ _ _ _ _ hgoes | drainedDry _ _ _ _ _ _ hgoes | ran _ _ _ _ _ _ hgoes
  | wrote _ _ _ hgoes | completed _ _ _ _ _ hgoes | paced _ hgoes => cases hends.symm.trans hgoes

/-- No step is taken once the runner has stopped. -/
theorem not_stopped_of_step (h : step service mode s turn = .ok (s', more)) : s.phase ≠ .stopped := by
  intro hphase
  rw [step, hphase] at h
  cases h

/-- The one-shot mode cuts nothing, so it carries nothing over. -/
theorem oneShot_carries_nothing {turns : List (Turn R)} {outs : List (List Event)}
    (h : run (step service .oneShot) (start service) turns = .ok (s, outs)) :
    (∀ i, s.controllers i = none) ∧ ∀ i, s.carry i = none := by
  refine run_invariant (I := fun s => (∀ i, s.controllers i = none) ∧ ∀ i, s.carry i = none)
    (fun s turn s' more hs hstep => ?_) h ⟨fun _ => rfl, fun _ => rfl⟩
  obtain ⟨hcontrollers, hcarry⟩ := hs
  have hadmit (source : Nat) (component : String) (batch : RecordBatch) :
      ∀ i, (admitFrom service s source component batch).1.carry i = none := by
    intro i
    have hlimit : (if service.wholeArrivals source then none else remaining s source) = none := by
      rw [remaining, credit, hcontrollers]
      exact ite_self none
    have hupdate : (admitFrom service s source component batch).1.carry =
        Function.update s.carry source
          (cutAt (if service.wholeArrivals source then none else remaining s source) batch).2 := rfl
    rw [hupdate, hlimit, cutAt_none]
    by_cases hi : i = source
    · rw [hi, Function.update_self]
    · rw [Function.update_of_ne hi, hcarry]
  cases steps_of_step hstep with
  | began => exact ⟨fun _ => rfl, hcarry⟩
  | carried source component schema batch => exact ⟨hcontrollers, hadmit source component batch⟩
  | arrived source component schema batch => exact ⟨hcontrollers, hadmit source component batch⟩
  | shutDown | spent | drainedDry | ran | wrote | stopped | completed | paced =>
    exact ⟨hcontrollers, hcarry⟩

/-- What the tail of a pass answers is asked past the last node. -/
theorem length_le_of_tail {cancelled paused : Bool} {j : Nat} (hphase : s.phase = .node j)
    (hstep : step service mode s turn = .ok (s', more))
    (hanswer : turn.answer = .tail cancelled paused) : service.nodes.length ≤ j := by
  rw [step, hphase] at hstep
  dsimp only at hstep
  split at hstep
  next component schema _ =>
    rw [drainTurn, hanswer] at hstep
    split_ifs at hstep
    split at hstep <;> simp_all
  next =>
    rw [processorTurn, hanswer] at hstep
    cases hstep
  next =>
    rw [sinkTurn, hanswer] at hstep
    cases hstep
  next hkind => exact length_le_of_kindAt hkind

/-- The end of the one pass of the one-shot mode finds nothing held back. -/
theorem clear_of_oneShot {turns : List (Turn R)} {outs : List (List Event)}
    (h : run (step service mode) (start service) turns = .ok (s, outs))
    (hstep : step service mode s turn = .ok (s', more)) (hends : Ends mode turn = true)
    (hcancels : Cancels turn = false) : Clear service s := by
  obtain ⟨rfl, cancelled, paused, hanswer⟩ := tail_of_ends hends hcancels
  refine fun i _ => ⟨?_, fun j hj _ d hfeeds _ => ?_⟩
  · rw [(oneShot_carries_nothing h).2 i]
    rfl
  · exact (service.lt_of_feeds hfeeds).2.trans_le (length_le_of_tail hj hstep hanswer)

/-- **The batch runner finishes its sources rightly** in exactly the runs all of whose turns meet the
condition. -/
theorem finishes_iff {turns : List (Turn R)} {outs : List (List Event)}
    (h : run (step service mode) (start service) turns = .ok (s, outs)) :
    (s.phase ≠ .stopped → FinishMeansProcessed service.nodes outs.flatten) ∧
      (s.phase = .stopped → (FinishMeansProcessed service.nodes outs.flatten ↔
        EachStep (step service mode) (FinishesRightly service) (start service) turns)) := by
  let Right := EachStep (step service mode) (FinishesRightly service) (start service)
  suffices hrun : (s.phase ≠ .stopped → Tracks service (place s) s.admittedRows outs.flatten ∧
      ((∀ i, isSource service.nodes i = true → ¬Refused i outs.flatten) ↔ Right turns)) ∧
      (s.phase = .stopped → (FinishMeansProcessed service.nodes outs.flatten ↔ Right turns)) from
    ⟨fun hgoes => finishMeansProcessed_of_unfinished (hrun.1 hgoes).1.unfinished, hrun.2⟩
  refine run_history_induction (P := fun turns s outs =>
    (s.phase ≠ .stopped → Tracks service (place s) s.admittedRows outs.flatten ∧
      ((∀ i, isSource service.nodes i = true → ¬Refused i outs.flatten) ↔ Right turns)) ∧
      (s.phase = .stopped → (FinishMeansProcessed service.nodes outs.flatten ↔ Right turns)))
    ?_ (fun done s os turn s' more hdone hP hstep => ?_) h
  · refine ⟨fun _ => ⟨tracks_nil, ?_⟩, fun hphase => nomatch hphase⟩
    exact iff_of_true (fun _ _ => not_refused_of_plain nofun) trivial
  · obtain ⟨htracks, hright⟩ := hP.1 (not_stopped_of_step hstep)
    have hconcat : Right (done ++ [turn]) ↔ Right done ∧ FinishesRightly service s turn :=
      eachStep_concat_iff hdone
    rw [List.flatten_append, List.flatten_singleton, hconcat, ← hright, FinishesRightly]
    cases hends : Ends mode turn with
    | false =>
      obtain ⟨htracks', htakes⟩ := tracks_step htracks hstep hends
      have hcancels : Cancels turn = false :=
        Bool.eq_false_iff.mpr fun h => nomatch hends.symm.trans (ends_of_cancels h)
      refine ⟨fun _ => ⟨htracks', ?_⟩, fun hphase => ?_⟩
      · rw [← htakes, hcancels]
        simp only [refused_append, not_or, imp_and, forall_and, Bool.false_eq_true, false_implies,
          and_true]
      · cases hends.symm.trans ((stopped_iff_ends hstep).mp hphase)
    | true =>
      obtain ⟨hfinish, htakes⟩ := tracks_ended htracks (accounts_run hdone) hstep hends
      refine ⟨fun hphase => absurd ((stopped_iff_ends hstep).mpr hends) hphase, fun _ => ?_⟩
      rw [hfinish]
      refine and_congr_right fun _ => ⟨fun hclear => ⟨htakes, fun _ => hclear⟩, fun h => ?_⟩
      cases hcancels : Cancels turn with
      | true => exact h.2 hcancels
      | false => exact clear_of_oneShot hdone hstep hends hcancels

end
end Standalone
end Saci.Workflow
