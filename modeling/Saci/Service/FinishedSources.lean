import Saci.Service.NodeRegistry
import Saci.Service.Rechunking

/-!
# Finished sources

`Source::finish` lets a source forget what it yielded. Here stands what that presumes of the rows,
and exactly when the runners call it with every row processed: which cancellations find nothing held
back, and which chunks are taken up by every processor they are delivered to.
-/

namespace Saci.Workflow

/-! ## Processed rows -/

/-- The node whose turn the event is. -/
def Event.turnOf : Event → Option Nat
  | .ran processor _ => some processor
  | .drained sink => some sink
  | _ => none

/-- The event admits rows of the source. -/
def Admits (i : Nat) (e : Event) : Prop := ∃ chunk, e = .admitted i chunk ∧ chunk.rows ≠ []

/-- Rows of the source were admitted after which the node has had no turn. -/
def Owes (i d : Nat) : List Event → Prop
  | [] => False
  | e :: events => Owes i d events ∨ (Admits i e ∧ ∀ later ∈ events, later.turnOf ≠ some d)

/-- A chunk of the source was refused by a processor it was delivered to. -/
def Refused (i : Nat) (events : List Event) : Prop := ∃ d e, Event.appendFailed i d e ∈ events

section
variable {R : Type} (nodes : List (BuiltNode R))

/-- A path of links leads from the source to a processor or a sink. -/
def Feeds (i d : Nat) : Prop :=
  Relation.TransGen (Links nodes) i d ∧ (isProcessor nodes d = true ∨ isSink nodes d = true)

/-- Every row the source yielded was admitted, delivered to the nodes it links to, and every
processor and sink behind them had its turn since. -/
structure Processed (i : Nat) (events : List Event) : Prop where
  admitted : rowsOf (chunks i events) = rowsOf (arrivals i events)
  delivered : ¬Refused i events
  served : ∀ d, Feeds nodes i d → ¬Owes i d events

/-- Whenever a source is finished, its rows are processed by then. -/
def FinishMeansProcessed (events : List Event) : Prop :=
  ∀ i before after, events = before ++ .finishedSource i :: after → Processed nodes i before

end

section
variable {i d : Nat} {events more : List Event}

theorem owes_append :
    Owes i d (events ++ more) ↔
      Owes i d more ∨ (Owes i d events ∧ ∀ e ∈ more, e.turnOf ≠ some d) := by
  induction events with
  | nil => simp [Owes]
  | cons e events ih =>
    rw [List.cons_append, Owes, ih, Owes, List.forall_mem_append]
    tauto

theorem not_owes_of_not_admits (h : ∀ e ∈ more, ¬Admits i e) : ¬Owes i d more := by
  induction more with
  | nil => exact id
  | cons e more ih =>
    obtain ⟨he, hmore⟩ := List.forall_mem_cons.mp h
    rintro (hlater | ⟨hnow, -⟩)
    · exact ih hmore hlater
    · exact he hnow

/-- What admits nothing of the source only serves it. -/
theorem owes_append_of_not_admits (h : ∀ e ∈ more, ¬Admits i e) :
    Owes i d (events ++ more) ↔ Owes i d events ∧ ∀ e ∈ more, e.turnOf ≠ some d := by
  rw [owes_append]
  exact or_iff_right (not_owes_of_not_admits h)

theorem refused_append : Refused i (events ++ more) ↔ Refused i events ∨ Refused i more := by
  simp only [Refused, List.mem_append, exists_or]

theorem not_admits_of_quiet (h : ∀ e ∈ more, e.Quiet) : ∀ e ∈ more, ¬Admits i e := by
  rintro e he ⟨chunk, rfl, -⟩
  have hnone : (if i = i then some chunk else none) = none := (h _ he).2.1 i
  rw [if_pos rfl] at hnone
  cases hnone

/-! ## Events that are told apart -/

/-- The event is no turn, no refusal and no finish of a source. -/
def Event.Plain (e : Event) : Prop :=
  e.turnOf = none ∧ (∀ i d x, e ≠ .appendFailed i d x) ∧ ∀ i, e ≠ .finishedSource i

theorem Event.Plain.turn_ne {e : Event} (h : e.Plain) (d : Nat) : e.turnOf ≠ some d := by
  rw [h.1]
  exact nofun

theorem not_refused_of_forall (h : ∀ e ∈ more, ∀ i d x, e ≠ .appendFailed i d x) : ¬Refused i more :=
  fun ⟨d, x, hmem⟩ => h _ hmem i d x rfl

end

section
variable {R : Type} {nodes : List (BuiltNode R)} {results : Nat → Nat → SaciResult Unit}

theorem plain_forwardEdge (i : Nat) (routes : Option (List String)) (buffers : Buffers R)
    (edge : BuiltEdge) : ∀ e ∈ (forwardEdge nodes i routes buffers edge).2, e.Plain := by
  intro e he
  unfold forwardEdge at he
  split_ifs at he
  · split at he
    · split at he
      · cases he
      · cases List.mem_singleton.mp he
        exact ⟨rfl, nofun, nofun⟩
    · split at he
      · split_ifs at he
        · cases List.mem_singleton.mp he
          exact ⟨rfl, nofun, nofun⟩
        · cases he
      · cases List.mem_singleton.mp he
        exact ⟨rfl, nofun, nofun⟩
    · cases he
  · cases he

/-- A run's events: its turn, then the fan-out. -/
theorem afterRun_eq [Inhabited R] (nodes : List (BuiltNode R)) (i : Nat) (left : Dataset R)
    (result : SaciResult (Option (List String))) (buffers : Buffers R) :
    ∃ answer plain, (∀ e ∈ plain, Event.Plain e) ∧
      (afterRun nodes i left result buffers).2 = .ran i answer :: plain := by
  cases result with
  | error e => exact ⟨.error e, [], nofun, rfl⟩
  | ok routes => exact ⟨.ok (), _, mem_overEdges (plain_forwardEdge i routes) _ _, rfl⟩

/-- The events of a sink's writes: the writes, then its turn. -/
theorem writeStaged_eq (results : Nat → Nat → SaciResult Unit) (sink : Nat) (buffers : Buffers R) :
    ∃ plain, (∀ e ∈ plain, Event.Plain e) ∧
      (writeStaged results sink buffers).2 = plain ++ [.drained sink] := by
  refine ⟨_, fun e he => ?_, rfl⟩
  obtain ⟨j, hj, rfl⟩ := List.mem_mapIdx.mp he
  exact ⟨rfl, nofun, nofun⟩

/-- A flush is a turn of every sink it goes through, and refuses and finishes no source. -/
theorem flushEach_spec (results : Nat → Nat → SaciResult Unit) (sinks : List Nat) (buffers : Buffers R) :
    (∀ d, (∀ e ∈ (flushEach results sinks buffers).2, e.turnOf ≠ some d) ↔ d ∉ sinks) ∧
      ∀ e ∈ (flushEach results sinks buffers).2,
        (∀ i d x, e ≠ .appendFailed i d x) ∧ ∀ i, e ≠ .finishedSource i := by
  induction sinks generalizing buffers with
  | nil => exact ⟨fun d => iff_of_true nofun List.not_mem_nil, nofun⟩
  | cons sink sinks ih =>
    obtain ⟨hturns, hothers⟩ := ih (writeStaged results sink buffers).1
    obtain ⟨plain, hplain, heq⟩ := writeStaged_eq results sink buffers
    have hevents : (flushEach results (sink :: sinks) buffers).2 = plain ++ .drained sink ::
        .finishedSink sink :: (flushEach results sinks (writeStaged results sink buffers).1).2 := by
      have hsplit : (flushEach results (sink :: sinks) buffers).2 =
          (writeStaged results sink buffers).2 ++ .finishedSink sink ::
            (flushEach results sinks (writeStaged results sink buffers).1).2 := rfl
      rw [hsplit, heq, List.append_assoc]
      rfl
    rw [hevents]
    refine ⟨fun d => ?_, fun e he => ?_⟩
    · rw [List.forall_mem_append, List.forall_mem_cons, List.forall_mem_cons, hturns, List.mem_cons,
        not_or]
      have hfirst : Event.turnOf (.drained sink) ≠ some d ↔ d ≠ sink :=
        ⟨fun h heq => h (congrArg some heq.symm), fun h heq => h (Option.some.inj heq).symm⟩
      rw [hfirst]
      exact ⟨fun ⟨_, hne, _, hrest⟩ => ⟨hne, hrest⟩,
        fun ⟨hne, hrest⟩ => ⟨fun e he => (hplain e he).turn_ne d, hne, nofun, hrest⟩⟩
    · rcases List.mem_append.mp he with he | he
      · exact (hplain e he).2
      · rcases List.mem_cons.mp he with rfl | he
        · exact ⟨nofun, nofun⟩
        · rcases List.mem_cons.mp he with rfl | he
          · exact ⟨nofun, nofun⟩
          · exact hothers e he

theorem mem_sinkIndices {d : Nat} : d ∈ sinkIndices nodes ↔ isSink nodes d = true := by
  rw [sinkIndices, List.mem_filter, List.mem_range]
  refine and_iff_right_of_imp fun h => ?_
  by_contra hlt
  have hnode : nodes[d]? = none := List.getElem?_eq_none (Nat.le_of_not_lt hlt)
  rw [isSink, kindAt, hnode] at h
  cases h

theorem mem_sourceIndices {i : Nat} : i ∈ sourceIndices nodes ↔ isSource nodes i = true := by
  rw [sourceIndices, List.mem_filter, List.mem_range]
  refine and_iff_right_of_imp fun h => ?_
  by_contra hlt
  have hnode : nodes[i]? = none := List.getElem?_eq_none (Nat.le_of_not_lt hlt)
  rw [isSource, kindAt, hnode] at h
  cases h

theorem plain_finishAllSinks : ∀ e ∈ finishAllSinks nodes, e.Plain := by
  intro e he
  obtain ⟨sink, -, rfl⟩ := List.mem_map.mp he
  exact ⟨rfl, nofun, nofun⟩

/-! ## Delivering a chunk -/

section
variable {source : Nat} {component : String} {chunk : RecordBatch}

theorem registry_fanOutEdge (buffers : Buffers R) (edge : BuiltEdge) (d : Nat) :
    registry ((fanOutEdge nodes source component chunk buffers edge).1.datasets d) =
      registry (buffers.datasets d) := by
  unfold fanOutEdge
  split
  · split
    next data range happend =>
      rw [Buffers.datasets_setDataset]
      by_cases hd : d = edge.node
      · rw [hd, Function.update_self]
        exact registry_appendRecordBatch happend
      · rw [Function.update_of_ne hd]
    next => rfl
  · rfl
  · rfl

/-- An edge refuses the chunk when it leads to a processor that does not accept it. -/
theorem refused_fanOutEdge (buffers : Buffers R) (edge : BuiltEdge) :
    Refused source (fanOutEdge nodes source component chunk buffers edge).2 ↔
      isProcessor nodes edge.node = true ∧
        ¬Accepts (buffers.datasets edge.node) component chunk := by
  rw [isProcessor, fanOutEdge]
  rcases kindAt nodes edge.node with _ | ⟨_ | _ | _⟩
  · exact iff_of_false (by rintro ⟨_, _, ⟨⟩⟩) (fun h => by cases h.1)
  · exact iff_of_false (by rintro ⟨_, _, ⟨⟩⟩) (fun h => by cases h.1)
  · rw [← exists_appendRecordBatch_iff]
    cases (buffers.datasets edge.node).appendRecordBatch component chunk with
    | ok answer => exact iff_of_false (by rintro ⟨_, _, ⟨⟩⟩) fun h => h.2 ⟨answer, rfl⟩
    | error e =>
      exact iff_of_true ⟨edge.node, e, List.mem_singleton_self _⟩ ⟨rfl, by rintro ⟨_, ⟨⟩⟩⟩
  · refine iff_of_false ?_ (fun h => by cases h.1)
    rintro ⟨_, _, h⟩
    cases List.mem_singleton.mp h

theorem refused_fanOut (buffers : Buffers R) (edges : List BuiltEdge) :
    Refused source (overEdges (fanOutEdge nodes source component chunk) buffers edges).2 ↔
      ∃ edge ∈ edges, isProcessor nodes edge.node = true ∧
        ¬Accepts (buffers.datasets edge.node) component chunk := by
  induction edges generalizing buffers with
  | nil => exact iff_of_false (fun ⟨_, _, h⟩ => nomatch h) (fun ⟨_, h, _⟩ => nomatch h)
  | cons edge edges ih =>
    rw [overEdges, refused_append, ih, refused_fanOutEdge]
    simp only [Accepts.congr (registry_fanOutEdge _ _ _), List.mem_cons, exists_eq_or_imp]

/-- The events of an admission: the chunk, then its fan-out. -/
theorem refused_admitChunk (buffers : Buffers R) :
    Refused source (admitChunk nodes source component chunk buffers).2 ↔
      ∃ edge ∈ downstreamAt nodes source, isProcessor nodes edge.node = true ∧
        ¬Accepts (buffers.datasets edge.node) component chunk := by
  rw [← refused_fanOut]
  refine exists_congr fun d => exists_congr fun e => ?_
  exact ⟨fun h => (List.mem_cons.mp h).resolve_left nofun, List.mem_cons_of_mem _⟩

theorem fanOutEdge_events (buffers : Buffers R) (edge : BuiltEdge) :
    ∀ e ∈ (fanOutEdge nodes source component chunk buffers edge).2,
      e.turnOf = none ∧ (∀ i, e ≠ .finishedSource i) ∧ ∀ i d x, e = .appendFailed i d x → i = source := by
  intro e he
  unfold fanOutEdge at he
  split at he
  · split at he
    · cases he
    · cases List.mem_singleton.mp he
      exact ⟨rfl, nofun, fun i d x h => by cases h; rfl⟩
  · cases List.mem_singleton.mp he
    exact ⟨rfl, nofun, nofun⟩
  · cases he

theorem admitChunk_events (buffers : Buffers R) :
    ∀ e ∈ (admitChunk nodes source component chunk buffers).2,
      e.turnOf = none ∧ (∀ i, e ≠ .finishedSource i) ∧ ∀ i d x, e = .appendFailed i d x → i = source := by
  intro e he
  rcases List.mem_cons.mp he with rfl | he
  · exact ⟨rfl, nofun, nofun⟩
  · exact mem_overEdges fanOutEdge_events _ _ e he

/-- An admission owes every node a turn for the rows it admits. -/
theorem owes_admitChunk (buffers : Buffers R) {i d : Nat} :
    Owes i d (admitChunk nodes source component chunk buffers).2 ↔ source = i ∧ chunk.rows ≠ [] := by
  obtain ⟨quiet, hquiet, heq⟩ := admitChunk_eq nodes buffers source component chunk
  have hturns : ∀ e ∈ quiet, e.turnOf ≠ some d := by
    intro e he
    rw [(admitChunk_events buffers e (heq ▸ List.mem_cons_of_mem _ he)).1]
    exact nofun
  rw [heq, Owes, or_iff_right (not_owes_of_not_admits (not_admits_of_quiet hquiet)),
    and_iff_left hturns]
  constructor
  · rintro ⟨other, h, hrows⟩
    cases h
    exact ⟨rfl, hrows⟩
  · rintro ⟨rfl, hrows⟩
    exact ⟨chunk, rfl, hrows⟩

end

/-! ## The end of a run -/

/-- What only finishes sources changes nothing for the rows. -/
theorem processed_finishes {i : Nat} {events : List Event} (sources : List Nat) :
    Processed nodes i (events ++ sources.map .finishedSource) ↔ Processed nodes i events := by
  have hquiet : ∀ e ∈ sources.map Event.finishedSource, e.Quiet := by
    intro e he
    obtain ⟨source, -, rfl⟩ := List.mem_map.mp he
    exact Event.quiet_of fun _ => rfl
  have hturns (d : Nat) : ∀ e ∈ sources.map Event.finishedSource, e.turnOf ≠ some d := by
    intro e he
    obtain ⟨source, -, rfl⟩ := List.mem_map.mp he
    exact nofun
  have hrefused : ¬Refused i (sources.map Event.finishedSource) :=
    not_refused_of_forall fun e he => by
      obtain ⟨source, -, rfl⟩ := List.mem_map.mp he
      exact nofun
  have howes (d : Nat) :
      Owes i d (events ++ sources.map Event.finishedSource) ↔ Owes i d events := by
    rw [owes_append_of_not_admits (not_admits_of_quiet hquiet), and_iff_left (hturns d)]
  constructor
  · rintro ⟨hadmitted, hdelivered, hserved⟩
    rw [chunks_append, arrivals_append, chunks_quiet hquiet, arrivals_quiet hquiet, List.append_nil,
      List.append_nil] at hadmitted
    exact ⟨hadmitted, fun h => hdelivered (refused_append.mpr (.inl h)),
      fun d hd h => hserved d hd ((howes d).mpr h)⟩
  · rintro ⟨hadmitted, hdelivered, hserved⟩
    refine ⟨?_, fun h => ?_, fun d hd h => hserved d hd ((howes d).mp h)⟩
    · rw [chunks_append, arrivals_append, chunks_quiet hquiet, arrivals_quiet hquiet, List.append_nil,
        List.append_nil, hadmitted]
    · exact (refused_append.mp h).elim hdelivered hrefused

/-- A run that finishes its sources last finishes them rightly when their rows are processed. -/
theorem finishMeansProcessed_iff {events : List Event} (h : ∀ i, .finishedSource i ∉ events)
    (sources : List Nat) :
    FinishMeansProcessed nodes (events ++ sources.map .finishedSource) ↔
      ∀ i ∈ sources, Processed nodes i events := by
  constructor
  · intro hall i hi
    obtain ⟨front, rest, rfl⟩ := List.append_of_mem hi
    have hsplit : events ++ (front ++ i :: rest).map Event.finishedSource =
        (events ++ front.map .finishedSource) ++ .finishedSource i :: rest.map .finishedSource := by
      rw [List.map_append, List.map_cons, List.append_assoc]
    exact (processed_finishes front).mp (hall i _ _ hsplit)
  · intro hall i before after heq
    rcases List.append_eq_append_iff.mp heq with ⟨more, rfl, hmore⟩ | ⟨more, rfl, hmore⟩
    · obtain ⟨front, rest, rfl, rfl, hrest⟩ := List.map_eq_append_iff.mp hmore
      obtain ⟨source, rest, rfl, hsource, -⟩ := List.map_eq_cons_iff.mp hrest
      cases hsource
      exact (processed_finishes front).mpr (hall i (by simp))
    · cases more with
      | nil =>
        obtain ⟨source, rest, rfl, hsource, -⟩ := List.map_eq_cons_iff.mp hmore.symm
        cases hsource
        rw [List.append_nil] at hall
        exact hall i List.mem_cons_self
      | cons e more =>
        obtain ⟨rfl, -⟩ := List.cons_eq_cons.mp hmore
        exact absurd (List.mem_append_right before List.mem_cons_self) (h i)

/-- A run that finished no source. -/
theorem finishMeansProcessed_of_unfinished {events : List Event}
    (h : ∀ i, .finishedSource i ∉ events) : FinishMeansProcessed nodes events := by
  rintro i before after rfl
  exact absurd (List.mem_append_right before List.mem_cons_self) (h i)

end
end Saci.Workflow
