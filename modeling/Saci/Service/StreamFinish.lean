import Saci.Service.FinishLaw

/-!
# When the stream runner finishes a source rightly

The stream runner leaves when every source is exhausted, and at every cancellation, without a flush.
At the first exit nothing is held back, since the runner counts the sources that are not exhausted.
-/

namespace Saci.Workflow.Stream

section
variable {R : Type} (service : BuiltService R) (s : State R) (turn : Turn R)

/-- The batch a source is about to begin an item with: its tail, what it was primed with, or what
has just arrived. -/
def Offers (source : Nat) (batch : RecordBatch) : Prop :=
  s.pending source = some batch ∨
    s.pending source = none ∧ (s.prefetched source = some batch ∨
      s.prefetched source = none ∧ turn.answer = .poll (.batch batch))

/-- The chunk of a batch that becomes the item. -/
def chunkOf (source : Nat) (batch : RecordBatch) : RecordBatch :=
  (cutAt (credit s.controllers source) batch).1

/-- The item that the turn begins is accepted by every processor it is delivered to. -/
def Takes : Prop :=
  ∀ source component schema batch, s.phase = .serving source →
    kindAt service.nodes source = some (.source component schema) → Offers s turn source batch →
    ∀ edge ∈ downstreamAt service.nodes source, isProcessor service.nodes edge.node = true →
      Accepts (s.buffers.datasets edge.node) component (chunkOf s source batch)

/-- Nothing is held back: no source has a tail or a primed batch, and an item with rows has passed
every node that its source feeds. -/
def Clear : Prop :=
  ∀ i, isSource service.nodes i = true →
    heldRows (s.pending i) ++ heldRows (s.prefetched i) = [] ∧
    ∀ j, s.phase = .item i j → s.itemRows ≠ 0 → ∀ d, Feeds service.nodes i d → d < j

/-- What a turn has to meet. -/
def FinishesRightly : Prop := Takes service s turn ∧ (Cancels turn = true → Clear service s)

/-- The node the item has come to. -/
def place : Option Nat :=
  match s.phase with
  | .item _ j => some j
  | _ => none

/-- The rows of the item, to its source. -/
def rows (i : Nat) : Nat :=
  match s.phase with
  | .item source _ => if i = source then s.itemRows else 0
  | _ => 0

/-- The sources that may still yield. -/
def live : Nat := (sourceIndices service.nodes).countP fun i => !s.exhausted i

/-- The runner counts the sources that may still yield, and an exhausted one is neither primed nor
polled. -/
structure Counts : Prop where
  remaining : s.remainingSources = live service s
  unprimed : ∀ i, s.exhausted i = true → s.prefetched i = none
  fresh : s.phase = .priming → ∀ i, s.exhausted i = false ∧ s.prefetched i = none
  polled : ∀ i, s.phase = .serving i → s.pending i = none → s.exhausted i = false

end

/-! ## Counting the sources -/

section
variable {R : Type} {service : BuiltService R} {s s' : State R} {turn : Turn R}
  {events more : List Event} {source i : Nat}

/-- A source that is exhausted counts no longer. -/
theorem countP_exhausted {sources : List Nat} {exhausted : Nat → Bool} (hnodup : sources.Nodup)
    (hmem : source ∈ sources) (h : exhausted source = false) :
    sources.countP (fun i => !Function.update exhausted source true i) =
      sources.countP (fun i => !exhausted i) - 1 := by
  induction sources with
  | nil => cases hmem
  | cons first sources ih =>
    obtain ⟨hfirst, hnodup⟩ := List.nodup_cons.mp hnodup
    rw [List.countP_cons, List.countP_cons]
    by_cases hsource : first = source
    · subst hsource
      have hsame : sources.countP (fun i => !Function.update exhausted first true i) =
          sources.countP fun i => !exhausted i := by
        refine List.countP_congr fun i hi => ?_
        have hne : i ≠ first := fun heq => hfirst (heq ▸ hi)
        rw [Function.update_of_ne hne]
      rw [hsame, Function.update_self, h]
      simp
    · have hmem := (List.mem_cons.mp hmem).resolve_left (Ne.symm hsource)
      have hpos : 0 < sources.countP fun i => !exhausted i :=
        List.countP_pos_iff.mpr ⟨source, hmem, by rw [h]; rfl⟩
      rw [ih hnodup hmem, Function.update_of_ne hsource]
      omega

theorem live_exhausted (hsource : isSource service.nodes source = true)
    (h : s.exhausted source = false) (hexhausted : s'.exhausted = Function.update s.exhausted source true) :
    live service s' = live service s - 1 := by
  rw [live, hexhausted, live]
  exact countP_exhausted (nodup_sourceIndices service.nodes) (mem_sourceIndices.mpr hsource) h

/-- A selected source holds a tail or may still yield. -/
theorem selectSource_spec {cursor : Nat} (h : selectSource service s = some (source, cursor)) :
    s.pending source ≠ none ∨ s.exhausted source = false := by
  rw [selectSource] at h
  split at h
  next position hposition =>
    cases h
    have hsome : (s.pending (sourceAt service position)).isSome = true :=
      List.find?_some (p := fun position => (s.pending (sourceAt service position)).isSome) hposition
    exact .inl (Option.isSome_iff_ne_none.mp hsome)
  next =>
    obtain ⟨step, hstep, heq⟩ := Option.map_eq_some_iff.mp h
    cases heq
    have hlive : (!s.exhausted (sourceAt service (s.sourceCursor + step))) = true :=
      List.find?_some (p := fun step => !s.exhausted (sourceAt service (s.sourceCursor + step))) hstep
    exact .inr ((Bool.not_eq_true' _).mp hlive)

/-- A step that primes and exhausts no source. -/
theorem Counts.quiet (h : Counts service s) (hexhausted : s'.exhausted = s.exhausted)
    (hremaining : s'.remainingSources = s.remainingSources)
    (hprefetched : ∀ i, s'.prefetched i = none ∨ s'.prefetched i = s.prefetched i)
    (hpriming : s'.phase ≠ .priming) (hserving : ∀ i, s'.phase ≠ .serving i) :
    Counts service s' where
  remaining := by rw [hremaining, h.remaining, live, live, hexhausted]
  unprimed i hi := by
    rw [hexhausted] at hi
    exact (hprefetched i).elim id fun heq => heq.trans (h.unprimed i hi)
  fresh hphase := absurd hphase hpriming
  polled i hphase := absurd hphase (hserving i)

/-- The loop over the primed polls. -/
theorem counts_primeEach (outcomes : Nat → Primed) {sources : List Nat} (hnodup : sources.Nodup)
    (hsources : ∀ i ∈ sources, isSource service.nodes i = true ∧ s.exhausted i = false ∧
      s.prefetched i = none)
    (hremaining : s.remainingSources = live service s)
    (hunprimed : ∀ i, s.exhausted i = true → s.prefetched i = none) :
    (primeEach outcomes sources s).1.remainingSources =
        live service (primeEach outcomes sources s).1 ∧
      ∀ i, (primeEach outcomes sources s).1.exhausted i = true →
        (primeEach outcomes sources s).1.prefetched i = none := by
  induction sources generalizing s with
  | nil => exact ⟨hremaining, hunprimed⟩
  | cons source sources ih =>
    obtain ⟨hfirst, hnodup⟩ := List.nodup_cons.mp hnodup
    obtain ⟨⟨hsource, hlive, hnone⟩, hrest⟩ := List.forall_mem_cons.mp hsources
    have hne : ∀ i ∈ sources, i ≠ source := fun i hi heq => hfirst (heq ▸ hi)
    rw [primeEach]
    cases outcomes source with
    | batch batch =>
      refine ih hnodup (fun i hi => ?_) hremaining fun i hi => ?_
      · obtain ⟨hkind, hi', hnone'⟩ := hrest i hi
        exact ⟨hkind, hi', (Function.update_of_ne (hne i hi) ..).trans hnone'⟩
      · have hi : s.exhausted i = true := hi
        have hother : i ≠ source := by
          rintro rfl
          cases hlive.symm.trans hi
        exact (Function.update_of_ne hother ..).trans (hunprimed i hi)
    | eof =>
      refine ih hnodup (fun i hi => ?_) ?_ fun i hi => ?_
      · obtain ⟨hkind, hi', hnone'⟩ := hrest i hi
        exact ⟨hkind, (Function.update_of_ne (hne i hi) ..).trans hi', hnone'⟩
      · exact (congrArg (· - 1) hremaining).trans (live_exhausted hsource hlive rfl).symm
      · by_cases heq : i = source
        · rw [heq]
          exact hnone
        · exact hunprimed i ((Function.update_of_ne heq ..).symm.trans hi)
    | failed e => exact ih hnodup hrest hremaining hunprimed
    | elapsed => exact ih hnodup hrest hremaining hunprimed

/-- Where the runner leaves at the head of its loop, every source is exhausted, so nothing is held
back. -/
theorem Counts.clear (h : Counts service s) (hleaves : Leaves service s) (hphase : s.phase = .head) :
    Clear service s := by
  obtain ⟨hremaining, hpending⟩ : s.remainingSources = 0 ∧
      ∀ i ∈ sourceIndices service.nodes, s.pending i = none := by
    cases hleaves with
    | dry _ hremaining hpending => exact ⟨hremaining, hpending⟩
    | polling _ h | backoff h | running _ _ h => cases h.symm.trans hphase
  refine fun i hi => ⟨?_, fun j hitem => nomatch hphase.symm.trans hitem⟩
  have hi := mem_sourceIndices.mpr hi
  have hdry := List.countP_eq_zero.mp (h.remaining.symm.trans hremaining) i hi
  have hexhausted : s.exhausted i = true := by
    rw [Bool.not_eq_true, Bool.not_eq_false'] at hdry
    exact hdry
  rw [hpending i hi, h.unprimed i hexhausted]
  rfl

variable [Inhabited R]

theorem counts_start (h : start service = .ok s) : Counts service s := by
  rw [start] at h
  split_ifs at h
  cases h
  refine ⟨?_, fun _ _ => rfl, fun _ _ => ⟨rfl, rfl⟩, by rintro _ ⟨⟩⟩
  exact (List.countP_eq_length.mpr fun _ _ => rfl).symm

/-- The step lemma. -/
theorem Counts.step (h : Counts service s) (hstep : step service s turn = .ok (s', more)) :
    Counts service s' := by
  cases steps_of_step hstep with
  | primed hphase outcomes =>
    have hfresh := h.fresh hphase
    obtain ⟨hremaining, hunprimed⟩ := counts_primeEach outcomes (nodup_sourceIndices service.nodes)
      (fun i hi => ⟨mem_sourceIndices.mp hi, hfresh i⟩) h.remaining h.unprimed
    exact ⟨hremaining, hunprimed, nofun, nofun⟩
  | selected _ source cursor hselect =>
    refine ⟨h.remaining, h.unprimed, nofun, fun i hi hnone => ?_⟩
    cases hi
    exact (selectSource_spec hselect).resolve_left fun hsome => hsome hnone
  | exhausted source hphase hsource hpending hprefetched =>
    have hlive := h.polled source hphase hpending
    refine ⟨?_, fun i hi => ?_, nofun, nofun⟩
    · exact (congrArg (· - 1) h.remaining).trans (live_exhausted hsource hlive rfl).symm
    · by_cases heq : i = source
      · rw [heq]
        exact hprefetched
      · exact h.unprimed i ((Function.update_of_ne heq ..).symm.trans hi)
  | prefetched source =>
    refine h.quiet rfl rfl (fun i => ?_) nofun nofun
    by_cases heq : i = source
    · exact .inl (heq ▸ Function.update_self ..)
    · exact .inr (Function.update_of_ne heq ..)
  | shutDown | pending | arrived | failed | retried | passed | ran | wrote | completed =>
    exact h.quiet rfl rfl (fun _ => .inr rfl) nofun nofun

/-- The run lemma. -/
theorem counts_run {s₀ : State R} {turns : List (Turn R)} {outs : List (List Event)}
    (hstart : start service = .ok s₀) (h : run (step service) s₀ turns = .ok (s, outs)) :
    Counts service s :=
  run_invariant (I := Counts service) (fun _ _ _ _ hs hstep => hs.step hstep) h (counts_start hstart)

end

/-! ## Owed turns -/

section
variable {R : Type} {service : BuiltService R} {s s' : State R} {turn : Turn R}
  {events more : List Event} {source i : Nat} {component : String} {schema : Schema}
  {batch : RecordBatch}

theorem mem_place {j : Nat} : j ∈ place s ↔ ∃ source, s.phase = .item source j := by
  rw [place]
  cases s.phase with
  | item source i => simp [eq_comm]
  | priming | head | serving | backoff | stopped => exact iff_of_false nofun nofun

/-- Where a batch is about to become an item, the turn takes it when nothing is refused. -/
theorem takes_iff_of_offer (hphase : s.phase = .serving source)
    (hkind : kindAt service.nodes source = some (.source component schema))
    (hoffer : ∀ other, Offers s turn source other ↔ other = batch) :
    Takes service s turn ↔
      ¬Refused source
        (admitChunk service.nodes source component (chunkOf s source batch) s.buffers).2 := by
  rw [refused_admitChunk]
  constructor
  · rintro htakes ⟨edge, hedge, hprocessor, hnot⟩
    exact hnot (htakes source component schema batch hphase hkind ((hoffer batch).mpr rfl) edge hedge
      hprocessor)
  · intro hnot source' component' schema' batch' hphase' hkind' hoffer' edge hedge hprocessor
    cases hphase.symm.trans hphase'
    cases hkind.symm.trans hkind'
    cases (hoffer batch').mp hoffer'
    by_contra haccepts
    exact hnot ⟨edge, hedge, hprocessor, haccepts⟩

/-- Where no source is served, nothing is offered. -/
theorem takes_of_not_serving (h : ∀ source, s.phase ≠ .serving source) : Takes service s turn :=
  fun source _ _ _ hphase => absurd hphase (h source)

/-- The item that begins owes its turns, and says whether it was refused. -/
theorem tracks_beginItem (h : Tracks service (place s) (rows s) events)
    (hphase : s.phase = .serving source)
    (hkind : kindAt service.nodes source = some (.source component schema))
    (more : List Event)
    (hmore : ∀ e ∈ more, e.Plain ∧ ∀ i, ¬Admits i e)
    (hoffer : ∀ other, Offers s turn source other ↔ other = batch) {taken : State R}
    (hbuffers : taken.buffers = s.buffers) (hcontrollers : taken.controllers = s.controllers) :
    Tracks service (place (beginItem service taken source component batch).1)
        (rows (beginItem service taken source component batch).1)
        (events ++ (more ++ (beginItem service taken source component batch).2)) ∧
      ((∀ i, isSource service.nodes i = true →
        ¬Refused i (more ++ (beginItem service taken source component batch).2)) ↔
        Takes service s turn) := by
  let item := admitChunk service.nodes source component (chunkOf s source batch) s.buffers
  have hevents : more ++ (beginItem service taken source component batch).2 =
      (more ++ [.began]) ++ item.2 := by
    rw [List.append_assoc]
    unfold beginItem
    rw [hbuffers, hcontrollers]
    rfl
  have hplace : place (beginItem service taken source component batch).1 = some 0 := rfl
  have hrows : rows (beginItem service taken source component batch).1 =
      fun i => if i = source then (chunkOf s source batch).numRows else 0 := by
    unfold beginItem
    rw [hcontrollers]
    rfl
  have hnowhere : place s = none := by rw [place, hphase]
  have hplain : ∀ e ∈ more ++ [.began], e.Plain ∧ ∀ i, ¬Admits i e := by
    intro e he
    rcases List.mem_append.mp he with he | he
    · exact hmore e he
    · cases List.mem_singleton.mp he
      exact ⟨⟨rfl, nofun, nofun⟩, fun i ⟨_, h, _⟩ => nomatch h⟩
  rw [hevents, hplace, hrows]
  refine ⟨?_, ?_⟩
  · refine h.admits (chunkOf s source batch)
      (fun e he => ⟨(hplain e he).1.1, (hplain e he).2, (hplain e he).1.2.2⟩)
      (fun d _ => ⟨0, rfl, Nat.zero_le d⟩) ?_ (by rw [hnowhere]; exact nofun) fun i d hi _ => ?_
    · rw [if_pos rfl, hnowhere]
      exact (or_iff_left fun ⟨_, hj, _⟩ => nomatch hj).symm
    · rw [if_neg hi, hnowhere]
      exact iff_of_false (fun ⟨_, _, hne, _⟩ => hne rfl) fun ⟨_, hj, _⟩ => nomatch hj
  · have hsame (i : Nat) : Refused i (more ++ [.began] ++ item.2) ↔ Refused i item.2 := by
      rw [refused_append]
      exact or_iff_right (not_refused_of_plain fun e he => (hplain e he).1)
    simp only [hsame]
    rw [takes_iff_of_offer hphase hkind hoffer]
    refine refused_only (by rw [isSource, hkind]) fun i hi => ?_
    obtain ⟨d, e, hmem⟩ := hi
    exact (admitChunk_events s.buffers _ hmem).2.2 i d e rfl

/-- Where nothing is offered, nothing is refused. -/
theorem takes_of_not_offers (h : ∀ source batch, s.phase = .serving source → ¬Offers s turn source batch) :
    Takes service s turn :=
  fun source _ _ batch hphase _ hoffer => absurd hoffer (h source batch hphase)

/-- A step between two items. -/
theorem tracks_between (h : Tracks service (place s) (rows s) events) (s' : State R)
    (hbefore : ∀ source j, s.phase = .item source j → service.nodes.length ≤ j)
    (hafter : place s' = none) (hmore : ∀ e ∈ more, e.Plain ∧ ∀ i, ¬Admits i e)
    (htakes : Takes service s turn) :
    Tracks service (place s') (rows s') (events ++ more) ∧
      ((∀ i, isSource service.nodes i = true → ¬Refused i more) ↔ Takes service s turn) := by
  refine ⟨h.rest (fun i e he => (hmore e he).2 i) (fun i hi => (hmore _ hi).1.2.2 i rfl)
    (fun j hj => ?_) (.inl hafter), ?_⟩
  · obtain ⟨source, hitem⟩ := mem_place.mp hj
    exact hbefore source j hitem
  · exact iff_of_true (fun _ _ => not_refused_of_plain fun e he => (hmore e he).1) htakes

/-- The place and the rows of an item that has come to a node. -/
theorem place_of_item {j : Nat} (h : s.phase = .item source j) : place s = some j := by
  rw [place, h]

theorem rows_of_item {j : Nat} (h : s.phase = .item source j) :
    rows s = fun i => if i = source then s.itemRows else 0 := by
  funext i
  rw [rows, h]

theorem plain_primeEach {outcomes : Nat → Primed} (sources : List Nat) (s : State R) :
    ∀ e ∈ (primeEach outcomes sources s).2, e.Plain ∧ ∀ i, ¬Admits i e := by
  induction sources generalizing s with
  | nil => exact nofun
  | cons source sources ih =>
    intro e he
    rcases List.mem_append.mp he with he | he
    · cases houtcome : outcomes source with
      | batch batch =>
        rw [houtcome] at he
        cases List.mem_singleton.mp he
        exact ⟨⟨rfl, nofun, nofun⟩, fun i ⟨_, h, _⟩ => nomatch h⟩
      | failed e =>
        rw [houtcome] at he
        cases List.mem_singleton.mp he
        exact ⟨⟨rfl, nofun, nofun⟩, fun i ⟨_, h, _⟩ => nomatch h⟩
      | eof | elapsed =>
        rw [houtcome] at he
        cases he
    · exact ih _ e he

end

section
variable {R : Type} [Inhabited R] {service : BuiltService R} {s s' : State R} {turn : Turn R}
  {events more : List Event} {i : Nat}

/-- The runner stops where it leaves. -/
theorem leaves_of_stopped (h : step service s turn = .ok (s', more)) (hphase : s'.phase = .stopped) :
    Leaves service s ∧ (Cancels turn = true ∨ s.phase = .head) ∧
      more = finishAllSinks service.nodes ++ finishAllSources service.nodes := by
  cases steps_of_step h with
  | shutDown hleaves hcancels => exact ⟨hleaves, hcancels, rfl⟩
  | primed | selected | pending | prefetched | arrived | exhausted | failed | retried | passed | ran
  | wrote | completed => cases hphase

/-- A cancellation stops the runner. -/
theorem not_cancels_of_goes (h : step service s turn = .ok (s', more)) (hphase : s'.phase ≠ .stopped) :
    Cancels turn = false := by
  cases steps_of_step h with
  | shutDown => exact absurd rfl hphase
  | primed _ _ _ hcancels | selected _ _ _ _ _ hcancels | pending _ _ _ _ _ _ _ hcancels
  | prefetched _ _ _ _ _ _ _ _ hcancels | arrived _ _ _ _ _ _ _ _ _ hcancels
  | exhausted _ _ _ _ _ _ hcancels | failed _ _ _ _ _ _ hcancels | retried _ hcancels
  | passed _ _ _ _ hcancels | ran _ _ _ _ _ _ _ hcancels | wrote _ _ _ _ hcancels
  | completed _ _ _ _ hcancels => exact hcancels

/-- A turn that goes on keeps track, and refuses an item exactly when it does not take it. -/
theorem tracks_step (h : Tracks service (place s) (rows s) events)
    (hstep : step service s turn = .ok (s', more)) (hgoes : s'.phase ≠ .stopped) :
    Tracks service (place s') (rows s') (events ++ more) ∧
      ((∀ i, isSource service.nodes i = true → ¬Refused i more) ↔ Takes service s turn) := by
  cases steps_of_step hstep with
  | shutDown => exact absurd rfl hgoes
  | primed hphase outcomes =>
    exact tracks_between h _ (fun _ _ hitem => nomatch hphase.symm.trans hitem) rfl
      (plain_primeEach _ s) (takes_of_not_serving fun _ hserving => nomatch hphase.symm.trans hserving)
  | selected hphase source cursor _ controllers =>
    exact tracks_between h _ (fun _ _ hitem => nomatch hphase.symm.trans hitem) rfl nofun
      (takes_of_not_serving fun _ hserving => nomatch hphase.symm.trans hserving)
  | pending source component schema batch hphase hkind hpending =>
    have hoffer (other : RecordBatch) : Offers s turn source other ↔ other = batch := by
      rw [Offers, hpending]
      simp [eq_comm]
    exact tracks_beginItem h hphase hkind [] nofun hoffer rfl rfl
  | prefetched source component schema batch hphase hkind hpending hprefetched =>
    have hoffer (other : RecordBatch) : Offers s turn source other ↔ other = batch := by
      rw [Offers, hpending, hprefetched]
      simp [eq_comm]
    exact tracks_beginItem h hphase hkind [] nofun hoffer rfl rfl
  | arrived source component schema batch hphase hkind hpending hprefetched hanswer =>
    have hoffer (other : RecordBatch) : Offers s turn source other ↔ other = batch := by
      rw [Offers, hpending, hprefetched, hanswer]
      simp [eq_comm]
    refine tracks_beginItem h hphase hkind [.arrived source batch] (fun e he => ?_) hoffer rfl rfl
    cases List.mem_singleton.mp he
    exact ⟨⟨rfl, nofun, nofun⟩, fun i ⟨_, h, _⟩ => nomatch h⟩
  | exhausted source hphase _ hpending hprefetched hanswer =>
    refine tracks_between h _ (fun _ _ hitem => nomatch hphase.symm.trans hitem) rfl nofun
      (takes_of_not_offers fun source' batch hserving hoffer => ?_)
    cases hphase.symm.trans hserving
    rw [Offers, hpending, hprefetched, hanswer] at hoffer
    simp at hoffer
  | failed source hphase hpending hprefetched e hanswer =>
    refine tracks_between h _ (fun _ _ hitem => nomatch hphase.symm.trans hitem) rfl (fun e he => ?_)
      (takes_of_not_offers fun source' batch hserving hoffer => ?_)
    · cases List.mem_singleton.mp he
      exact ⟨⟨rfl, nofun, nofun⟩, fun i ⟨_, h, _⟩ => nomatch h⟩
    · cases hphase.symm.trans hserving
      rw [Offers, hpending, hprefetched, hanswer] at hoffer
      simp at hoffer
  | retried hphase =>
    exact tracks_between h _ (fun _ _ hitem => nomatch hphase.symm.trans hitem) rfl nofun
      (takes_of_not_serving fun _ hserving => nomatch hphase.symm.trans hserving)
  | completed source node hphase hi =>
    refine tracks_between h _ (fun source' j hitem => ?_) rfl (fun e he => ?_)
      (takes_of_not_serving fun _ hserving => nomatch hphase.symm.trans hserving)
    · cases hphase.symm.trans hitem
      exact hi
    · cases List.mem_singleton.mp he
      exact ⟨⟨rfl, nofun, nofun⟩, fun i ⟨_, h, _⟩ => nomatch h⟩
  | passed source node hphase hsource =>
    rw [place_of_item hphase, rows_of_item hphase] at h
    refine ⟨h.next (fun _ => nofun) (fun _ => List.not_mem_nil) fun i d hfeeds => ?_, ?_⟩
    · exact iff_of_true nofun fun heq => hfeeds.not_source (heq ▸ hsource)
    · exact iff_of_true (fun _ _ => not_refused_of_plain nofun)
        (takes_of_not_serving fun _ hserving => nomatch hphase.symm.trans hserving)
  | ran source node left result hphase hprocessor =>
    rw [place_of_item hphase, rows_of_item hphase] at h
    obtain ⟨htracks, hrefused⟩ := h.ran left result s.buffers
    exact ⟨htracks, iff_of_true (fun i _ => hrefused i)
      (takes_of_not_serving fun _ hserving => nomatch hphase.symm.trans hserving)⟩
  | wrote source sink hphase hsink =>
    rw [place_of_item hphase, rows_of_item hphase] at h
    obtain ⟨htracks, hrefused⟩ := h.wrote turn.results s.buffers
    exact ⟨htracks, iff_of_true (fun i _ => hrefused i)
      (takes_of_not_serving fun _ hserving => nomatch hphase.symm.trans hserving)⟩

/-- The turn that stops the runner finishes the sources rightly when no item was refused and nothing
is held back. -/
theorem tracks_ended (h : Tracks service (place s) (rows s) events)
    (haccounts : ∀ i, Accounts service s events i)
    (hstep : step service s turn = .ok (s', more)) (hstopped : s'.phase = .stopped) :
    (FinishMeansProcessed service.nodes (events ++ more) ↔
      (∀ i, isSource service.nodes i = true → ¬Refused i events) ∧ Clear service s) ∧
      Takes service s turn := by
  obtain ⟨hleaves, hcancels, rfl⟩ := leaves_of_stopped hstep hstopped
  have hplain : ∀ e ∈ finishAllSinks service.nodes, e.Quiet ∧ e.Plain :=
    fun e he => ⟨quiet_finishAllSinks e he, plain_finishAllSinks e he⟩
  have hheld (i : Nat) : rowsOf (chunks i events) ++
      (heldRows (s.pending i) ++ heldRows (s.prefetched i)) = rowsOf (arrivals i events) := by
    rw [← List.append_assoc]
    exact (haccounts i).conserved
  refine ⟨?_, ?_⟩
  · refine (h.ended hheld (fun e he => (hplain e he).1) fun e he => (hplain e he).2.2).trans
      (and_congr_right fun _ => ?_)
    refine forall_congr' fun i => imp_congr_right fun _ => and_congr_right fun _ => ?_
    constructor
    · intro hplace j hitem hne d hfeeds
      refine hplace j (mem_place.mpr ⟨i, hitem⟩) ?_ d hfeeds fun e he => (hplain e he).2.turn_ne d
      rw [rows_of_item hitem]
      exact fun heq => hne ((if_pos rfl).symm.trans heq)
    · intro hclear j hj hne d hfeeds _
      obtain ⟨source, hitem⟩ := mem_place.mp hj
      rw [rows_of_item hitem] at hne
      have hi : i = source := by
        by_contra hne'
        exact hne (if_neg hne')
      subst hi
      exact hclear j hitem (fun heq => hne ((if_pos rfl).trans heq)) d hfeeds
  · refine takes_of_not_offers fun source batch hserving hoffer => ?_
    cases hleaves with
    | dry hphase | backoff hphase | running _ _ hphase => cases hphase.symm.trans hserving
    | polling source' hphase hpending hprefetched =>
      cases hphase.symm.trans hserving
      rw [Offers, hpending, hprefetched] at hoffer
      obtain ⟨⟨⟩⟩ | ⟨-, ⟨⟨⟩⟩ | ⟨-, hanswer⟩⟩ := hoffer
      rcases hcancels with hcancels | hhead
      · cases (cancels_of_answer hanswer).symm.trans hcancels
      · cases hphase.symm.trans hhead

theorem not_stopped_of_step (h : step service s turn = .ok (s', more)) : s.phase ≠ .stopped := by
  intro hphase
  rw [step, hphase] at h
  cases h

/-- **The stream runner finishes its sources rightly** in exactly the runs all of whose turns meet
the condition. -/
theorem finishes_iff {s₀ : State R} {turns : List (Turn R)} {outs : List (List Event)}
    (hstart : start service = .ok s₀) (h : run (step service) s₀ turns = .ok (s, outs)) :
    (s.phase ≠ .stopped → FinishMeansProcessed service.nodes outs.flatten) ∧
      (s.phase = .stopped → (FinishMeansProcessed service.nodes outs.flatten ↔
        EachStep (step service) (FinishesRightly service) s₀ turns)) := by
  let Right := EachStep (step service) (FinishesRightly service) s₀
  suffices hrun : (s.phase ≠ .stopped → Tracks service (place s) (rows s) outs.flatten ∧
      ((∀ i, isSource service.nodes i = true → ¬Refused i outs.flatten) ↔ Right turns)) ∧
      (s.phase = .stopped → (FinishMeansProcessed service.nodes outs.flatten ↔ Right turns)) from
    ⟨fun hgoes => finishMeansProcessed_of_unfinished (hrun.1 hgoes).1.unfinished, hrun.2⟩
  refine run_history_induction (P := fun turns s outs =>
    (s.phase ≠ .stopped → Tracks service (place s) (rows s) outs.flatten ∧
      ((∀ i, isSource service.nodes i = true → ¬Refused i outs.flatten) ↔ Right turns)) ∧
      (s.phase = .stopped → (FinishMeansProcessed service.nodes outs.flatten ↔ Right turns)))
    ?_ (fun done s os turn s' more hdone hP hstep => ?_) h
  · have hpriming : s₀.phase = .priming := by
      rw [start] at hstart
      split_ifs at hstart
      cases hstart
      rfl
    refine ⟨fun _ => ⟨?_, ?_⟩, fun hphase => by cases hpriming.symm.trans hphase⟩
    · have hnowhere : place s₀ = none := by rw [place, hpriming]
      rw [hnowhere]
      exact tracks_nil
    · exact iff_of_true (fun _ _ => not_refused_of_plain (by rintro _ ⟨⟩)) trivial
  · obtain ⟨htracks, hright⟩ := hP.1 (not_stopped_of_step hstep)
    have hconcat : Right (done ++ [turn]) ↔ Right done ∧ FinishesRightly service s turn :=
      eachStep_concat_iff hdone
    rw [List.flatten_append, List.flatten_singleton, hconcat, ← hright, FinishesRightly]
    by_cases hstopped : s'.phase = .stopped
    · obtain ⟨hfinish, htakes⟩ :=
        tracks_ended htracks (accounts_run hstart hdone) hstep hstopped
      refine ⟨fun hphase => absurd hstopped hphase, fun _ => ?_⟩
      rw [hfinish]
      refine and_congr_right fun _ => ⟨fun hclear => ⟨htakes, fun _ => hclear⟩, fun h => ?_⟩
      cases hcancels : Cancels turn with
      | true => exact h.2 hcancels
      | false =>
        obtain ⟨hleaves, hhead, -⟩ := leaves_of_stopped hstep hstopped
        have hhead := hhead.resolve_left fun h => by cases hcancels.symm.trans h
        exact (counts_run hstart hdone).clear hleaves hhead
    · obtain ⟨htracks', htakes⟩ := tracks_step htracks hstep hstopped
      refine ⟨fun _ => ⟨htracks', ?_⟩, fun hphase => absurd hphase hstopped⟩
      rw [← htakes, not_cancels_of_goes hstep hstopped]
      simp only [refused_append, not_or, imp_and, forall_and, Bool.false_eq_true, false_implies,
        and_true]

end
end Saci.Workflow.Stream

namespace Saci.Workflow

/-- **Exactly when finish means processed.** In a run of either runner, a source is finished with all
its rows processed whenever it is finished, exactly when the run has not stopped, or every turn of it
met its condition: its chunk was taken up by the processors it went to, and a cancellation found
nothing held back. -/
theorem finish_means_processed_iff {R : Type} [Inhabited R] (service : BuiltService R) :
    (∀ mode turns s outs,
      run (Standalone.step service mode) (Standalone.start service) turns = .ok (s, outs) →
        (FinishMeansProcessed service.nodes outs.flatten ↔ (s.phase = .stopped →
          EachStep (Standalone.step service mode) (Standalone.FinishesRightly service)
            (Standalone.start service) turns))) ∧
    (∀ s₀ turns s outs, Stream.start service = .ok s₀ →
      run (Stream.step service) s₀ turns = .ok (s, outs) →
        (FinishMeansProcessed service.nodes outs.flatten ↔ (s.phase = .stopped →
          EachStep (Stream.step service) (Stream.FinishesRightly service) s₀ turns))) := by
  refine ⟨fun mode turns s outs h => ?_, fun s₀ turns s outs hstart h => ?_⟩
  · obtain ⟨hgoes, hstopped⟩ := Standalone.finishes_iff h
    by_cases hphase : s.phase = .stopped
    · rw [hstopped hphase, forall_prop_of_true hphase]
    · exact iff_of_true (hgoes hphase) fun h => absurd h hphase
  · obtain ⟨hgoes, hstopped⟩ := Stream.finishes_iff hstart h
    by_cases hphase : s.phase = .stopped
    · rw [hstopped hphase, forall_prop_of_true hphase]
    · exact iff_of_true (hgoes hphase) fun h => absurd h hphase

namespace Sample

/-- A pass that admits two of three arrived orders, and a cancellation seen at its end. -/
def cutShort : List (Standalone.Turn Unit) :=
  [turn (.head false twoRows), turn (.poll (.batch (batchOf [1, 2, 3]))), turn .go, turn .go,
    turn (.tail true false)]

/-- The source is told to forget the third order, which was never admitted. -/
theorem cutShort_forgets :
    ∃ s outs, run (Standalone.step straight .continuous) (Standalone.start straight) cutShort =
        .ok (s, outs) ∧ ¬FinishMeansProcessed straight.nodes outs.flatten := by
  refine ⟨_, _, rfl, fun h => ?_⟩
  have hprocessed := h 0 [.began, .arrived 0 (batchOf [1, 2, 3]), .admitted 0 (batchOf [1, 2]),
    .staged 0 1 (batchOf [1, 2]), .wrote 1 (batchOf [1, 2]) (.ok ()), .drained 1, .completed,
    .finishedSink 1] [] rfl
  exact absurd (congrArg List.length hprocessed.admitted) (by decide)

theorem straight_not_processor (d : Nat) : isProcessor straight.nodes d = false := by
  rcases d with _ | _ | d <;> rfl

/-- Where no node is a processor, every chunk is taken, and nothing but a tail is held back. -/
theorem straight_finishesRightly {s : Standalone.State Unit} {turn : Standalone.Turn Unit}
    (h : Standalone.Cancels turn = true → ∀ i, heldRows (s.carry i) = []) :
    Standalone.FinishesRightly straight s turn := by
  refine ⟨fun i _ _ _ _ _ _ _ edge _ hprocessor => ?_, fun hcancels i _ => ⟨h hcancels i, ?_⟩⟩
  · cases (straight_not_processor edge.node).symm.trans hprocessor
  · intro j _ _ d _ hprocessor
    cases (straight_not_processor d).symm.trans hprocessor

/-- One order through the batch runner, and a cancellation seen at the end of the pass. -/
def onePass : List (Standalone.Turn Unit) :=
  [turn (.head false twoRows), turn (.poll (.batch (batchOf [1]))), turn (.poll .eof), turn .go,
    turn (.tail true false)]

def streamTurn (answer : Stream.Answer Unit) : Stream.Turn Unit := ⟨answer, fun _ _ => .ok ()⟩

/-- One order through the stream runner, which leaves once its source is exhausted. -/
def oneItem : List (Stream.Turn Unit) :=
  [streamTurn (.prime fun _ => .batch (batchOf [1])), streamTurn (.head twoRows), streamTurn .go,
    streamTurn .go, streamTurn .go, streamTurn .go, streamTurn (.head twoRows),
    streamTurn (.poll .eof), streamTurn (.head twoRows)]

theorem streamed_finishesRightly {s : Stream.State Unit} {turn : Stream.Turn Unit}
    (h : Stream.Cancels turn = false) : Stream.FinishesRightly straight s turn := by
  refine ⟨fun i _ _ _ _ _ _ edge _ hprocessor => ?_, fun hcancels => ?_⟩
  · cases (straight_not_processor edge.node).symm.trans hprocessor
  · cases h.symm.trans hcancels

theorem finished_rightly :
    (∃ s outs, run (Standalone.step straight .continuous) (Standalone.start straight) onePass =
        .ok (s, outs) ∧ s.phase = .stopped ∧ FinishMeansProcessed straight.nodes outs.flatten) ∧
      ∃ s₀ s outs, Stream.start straight = .ok s₀ ∧
        run (Stream.step straight) s₀ oneItem = .ok (s, outs) ∧ s.phase = .stopped ∧
          FinishMeansProcessed straight.nodes outs.flatten := by
  obtain ⟨hbatch, hstream⟩ := finish_means_processed_iff straight
  refine ⟨⟨_, _, rfl, rfl, (hbatch .continuous onePass _ _ rfl).mpr fun _ => ?_⟩,
    ⟨_, _, _, rfl, rfl, rfl, (hstream _ oneItem _ _ rfl rfl).mpr fun _ => ?_⟩⟩
  · refine EachStep.cons (straight_finishesRightly nofun) rfl ?_
    refine EachStep.cons (straight_finishesRightly nofun) rfl ?_
    refine EachStep.cons (straight_finishesRightly nofun) rfl ?_
    refine EachStep.cons (straight_finishesRightly nofun) rfl ?_
    refine EachStep.cons (straight_finishesRightly fun _ i => ?_) rfl trivial
    rcases i with _ | i <;> rfl
  · refine EachStep.cons (streamed_finishesRightly rfl) rfl ?_
    refine EachStep.cons (streamed_finishesRightly rfl) rfl ?_
    refine EachStep.cons (streamed_finishesRightly rfl) rfl ?_
    refine EachStep.cons (streamed_finishesRightly rfl) rfl ?_
    refine EachStep.cons (streamed_finishesRightly rfl) rfl ?_
    refine EachStep.cons (streamed_finishesRightly rfl) rfl ?_
    refine EachStep.cons (streamed_finishesRightly rfl) rfl ?_
    refine EachStep.cons (streamed_finishesRightly rfl) rfl ?_
    exact EachStep.cons (streamed_finishesRightly rfl) rfl trivial

end Sample
end Saci.Workflow
