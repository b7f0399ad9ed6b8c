import Saci.Service.NodeRegistry
import Saci.Service.Rechunking
import Saci.Service.Validation

/-!
# What validation is good for

A workflow that `validate_workflow_graph` accepts never fails a fan-out, as long as its nodes emit
what they declare and the processors at the links of sources and sinks declare anything at all: an
empty declaration opts a link out of the checks.
-/

namespace Saci.Workflow

section
variable {R : Type}

/-- The dataset has the components of the template, with its fields. -/
structure Follows (template data : Dataset R) : Prop where
  fields : ∀ component, fieldsOf data component = fieldsOf template component
  unique : NamesUnique data
  conforms : Conforms data

variable (nodes : List (BuiltNode R))

/-- Every processor declares exactly the components of its template dataset. -/
def DeclaresTemplates : Prop :=
  ∀ i declared template, kindAt nodes i = some (.processor declared template) →
    Follows template template ∧
      ∀ component, component ∈ declared ↔ (fieldsOf template component).isSome = true

/-- A processor that a source links to, or that links to a sink, declares a component. -/
def DeclaresAtEnds : Prop :=
  ∀ i, ∀ edge ∈ downstreamAt nodes i,
    (isSource nodes i = true → isProcessor nodes edge.node = true →
      declaredAt nodes edge.node ≠ []) ∧
    (isProcessor nodes i = true → isSink nodes edge.node = true → declaredAt nodes i ≠ [])

/-- No fan-out failed: nothing was refused, nothing a sink reads was absent, and what was staged for
a sink has its fields. -/
def Event.Fits : Event → Prop
  | .appendFailed _ _ _ => False
  | .forwardFailed _ _ _ => False
  | .absent _ _ => False
  | .staged _ sink batch => ∃ component schema,
    kindAt nodes sink = some (.sink component schema) ∧ batch.schema.fields = schema.fields
  | _ => True

/-- Every link finds what it delivers registered with equal fields at its receiving end. -/
def Receives (datasets : Nat → Dataset R) : Prop :=
  ∀ i, ∀ edge ∈ downstreamAt nodes i,
    match kindAt nodes i, kindAt nodes edge.node with
    | some (.source component schema), some (.processor _ _) =>
      fieldsOf (datasets edge.node) component = some schema.fields
    | some (.source _ schema), some (.sink _ sinkSchema) => schema.fields = sinkSchema.fields
    | some (.processor _ _), some (.processor _ _) =>
      ∀ component fields received, fieldsOf (datasets i) component = some fields →
        fieldsOf (datasets edge.node) component = some received → fields = received
    | some (.processor _ _), some (.sink component schema) =>
      fieldsOf (datasets i) component = some schema.fields
    | _, _ => False

/-- The datasets of the processors follow their templates. -/
def Buffers.Follow (buffers : Buffers R) : Prop :=
  ∀ i declared template, kindAt nodes i = some (.processor declared template) →
    Follows template (buffers.datasets i)

/-- The batch has the fields its source declares. -/
def Declared (i : Nat) (batch : RecordBatch) : Prop :=
  ∀ component schema, kindAt nodes i = some (.source component schema) →
    batch.schema.fields = schema.fields

/-- A dataset that a run left follows the template of its processor. -/
def Leaves (i : Nat) (left : Dataset R) : Prop :=
  ∀ declared template, kindAt nodes i = some (.processor declared template) → Follows template left

end

/-! ## Datasets that follow a template -/

section
variable {R : Type} {template data data' dst : Dataset R} {component : String}
  {batch : RecordBatch}

theorem Follows.congr (h : Follows template data) (hregistry : registry data' = registry data)
    (hconforms : Conforms data') : Follows template data' where
  fields component := (fieldsOf_congr hregistry component).trans (h.fields component)
  unique := (namesUnique_congr hregistry).mpr h.unique
  conforms := hconforms

theorem Follows.append (h : Follows template data) {range : UInt32 × UInt32}
    (happend : data.appendRecordBatch component batch = .ok (data', range)) :
    Follows template data' :=
  h.congr (registry_appendRecordBatch happend) (conforms_appendRecordBatch h.conforms h.unique happend)

theorem Follows.clear (h : Follows template data) (resources : R) :
    Follows template (data.clear resources) :=
  h.congr (registry_clear data resources) (conforms_clear h.conforms resources)

/-- Under shared names the fields are equal, so every forwarded batch is taken up. -/
theorem forwardNames_ok {names : List String} {appended : Nat} (hdata : Conforms data)
    (hnames : ∀ name ∈ names, (fieldsOf dst name).isSome = true)
    (hshared : ∀ component fields received, fieldsOf data component = some fields →
      fieldsOf dst component = some received → fields = received) :
    ∃ total, (forwardNames data names dst appended).2 = .ok total := by
  induction names generalizing dst appended with
  | nil => exact ⟨appended, rfl⟩
  | cons name names ih =>
    obtain ⟨hname, hnames⟩ := List.forall_mem_cons.mp hnames
    rw [forwardNames]
    cases hbatch : data.batchFor name with
    | none => exact ih hnames hshared
    | some batch =>
      obtain ⟨received, hreceived⟩ := Option.isSome_iff_exists.mp hname
      have haccepts : Accepts dst name batch :=
        ⟨received, hreceived, .inr (hshared name _ received (fields_batchFor hdata hbatch) hreceived)⟩
      obtain ⟨⟨dst', range⟩, happend⟩ := exists_appendRecordBatch_iff.mpr haccepts
      have hregistry := registry_appendRecordBatch happend
      dsimp only
      rw [happend]
      refine ih (fun other hother => ?_) fun component fields received hfields hreceived => ?_
      · rw [fieldsOf_congr hregistry]
        exact hnames other hother
      · rw [fieldsOf_congr hregistry] at hreceived
        exact hshared component fields received hfields hreceived

theorem forwardInto_ok (hdata : Conforms data)
    (hshared : ∀ component fields received, fieldsOf data component = some fields →
      fieldsOf dst component = some received → fields = received) :
    ∃ total, (forwardInto data dst).2 = .ok total :=
  forwardNames_ok hdata (fun _ hname => fieldsOf_isSome_iff.mpr hname) hshared

theorem Follows.forward (h : Follows template dst) (data : Dataset R) :
    Follows template (forwardInto data dst).1 :=
  h.congr (registry_forwardInto data dst) (conforms_forwardNames _ h.conforms h.unique 0)

end

/-! ## What the receiving ends find -/

section
variable {R : Type} {workflowId : String} {nodes : List (BuiltNode R)} {buffers : Buffers R}

theorem declaredAt_eq {i : Nat} {declared : List String} {template : Dataset R}
    (h : kindAt nodes i = some (.processor declared template)) : declaredAt nodes i = declared := by
  rw [declaredAt, h]

/-- **Acceptance carries over to the datasets of a run.** -/
theorem receives_of_accepted (haccepted : validateWorkflowGraph workflowId nodes = .ok ())
    (hdeclares : DeclaresTemplates nodes) (hends : DeclaresAtEnds nodes)
    (hfollow : buffers.Follow nodes) : Receives nodes buffers.datasets := by
  intro i edge hedge
  obtain ⟨up, down, hup, hdown, hfits⟩ := linkFits_of_accepted haccepted hedge
  obtain ⟨hsource, hsink⟩ := hends i edge hedge
  rw [hup, hdown]
  cases hfits with
  | @sourceProcessor component schema declared template hfits =>
    have hdeclared : declared ≠ [] := declaredAt_eq hdown ▸
      hsource (by rw [isSource, hup]) (by rw [isProcessor, hdown])
    obtain ⟨hmem, hfields⟩ := hfits hdeclared
    obtain ⟨-, hexact⟩ := hdeclares edge.node declared template hdown
    obtain ⟨fields, hregistered⟩ := Option.isSome_iff_exists.mp ((hexact component).mp hmem)
    dsimp only
    rw [(hfollow edge.node declared template hdown).fields, hregistered, hfields fields hregistered]
  | sourceSink hfits => exact hfits
  | @processorProcessor ups downs upTemplate downTemplate hfits =>
    intro component fields received hfields hreceived
    rw [(hfollow i ups upTemplate hup).fields] at hfields
    rw [(hfollow edge.node downs downTemplate hdown).fields] at hreceived
    have hmemUp := ((hdeclares i ups upTemplate hup).2 component).mpr (by rw [hfields]; rfl)
    have hmemDown :=
      ((hdeclares edge.node downs downTemplate hdown).2 component).mpr (by rw [hreceived]; rfl)
    obtain ⟨-, hequal⟩ :=
      hfits (List.ne_nil_of_mem hmemUp) (List.ne_nil_of_mem hmemDown) component hmemDown
    exact Option.some.inj (hfields.symm.trans (hequal.trans hreceived))
  | @processorSink declared template component schema hfits =>
    have hdeclared : declared ≠ [] := declaredAt_eq hup ▸
      hsink (by rw [isProcessor, hup]) (by rw [isSink, hdown])
    obtain ⟨hmem, hfields⟩ := hfits hdeclared
    obtain ⟨fields, hregistered⟩ :=
      Option.isSome_iff_exists.mp (((hdeclares i declared template hup).2 component).mp hmem)
    dsimp only
    rw [(hfollow i declared template hup).fields, hregistered, hfields fields hregistered]

/-! ## Fan-out -/

/-- A loop over edges keeps what every edge keeps, and its events are those of the edges. -/
theorem overEdges_keeps {f : Buffers R → BuiltEdge → Buffers R × List Event} {I : Buffers R → Prop}
    {P : Event → Prop} {edges : List BuiltEdge}
    (hf : ∀ edge ∈ edges, ∀ buffers, I buffers → I (f buffers edge).1 ∧ ∀ e ∈ (f buffers edge).2, P e)
    (hI : I buffers) :
    I (overEdges f buffers edges).1 ∧ ∀ e ∈ (overEdges f buffers edges).2, P e := by
  induction edges generalizing buffers with
  | nil => exact ⟨hI, nofun⟩
  | cons edge edges ih =>
    obtain ⟨hfirst, hrest⟩ := List.forall_mem_cons.mp hf
    obtain ⟨hnext, hevents⟩ := hfirst buffers hI
    obtain ⟨hlast, hlater⟩ := ih hrest hnext
    exact ⟨hlast, fun e he => (List.mem_append.mp he).elim (hevents e) (hlater e)⟩

theorem Buffers.Follow.setDataset (h : buffers.Follow nodes) {i : Nat} {data : Dataset R}
    (hdata : Leaves nodes i data) : (buffers.setDataset i data).Follow nodes := by
  intro j declared template hj
  rw [Buffers.datasets_setDataset]
  by_cases hji : j = i
  · subst hji
    rw [Function.update_self]
    exact hdata declared template hj
  · rw [Function.update_of_ne hji]
    exact h j declared template hj

theorem Buffers.Follow.clearDataset [Inhabited R] (h : buffers.Follow nodes) (i : Nat) :
    (buffers.clearDataset i).Follow nodes :=
  h.setDataset fun declared template hi => (h i declared template hi).clear default

section
variable
  (hreceives : ∀ buffers : Buffers R, buffers.Follow nodes → Receives nodes buffers.datasets)
include hreceives

/-- A source's chunk goes along an edge without failing. -/
theorem fits_fanOutEdge {source : Nat} {component : String} {schema : Schema} {chunk : RecordBatch}
    (hkind : kindAt nodes source = some (.source component schema))
    (hchunk : chunk.schema.fields = schema.fields) {edge : BuiltEdge}
    (hedge : edge ∈ downstreamAt nodes source) (h : buffers.Follow nodes) :
    (fanOutEdge nodes source component chunk buffers edge).1.Follow nodes ∧
      ∀ e ∈ (fanOutEdge nodes source component chunk buffers edge).2, e.Fits nodes := by
  have hlink := hreceives buffers h source edge hedge
  rw [hkind] at hlink
  unfold fanOutEdge
  cases hdown : kindAt nodes edge.node with
  | none =>
    rw [hdown] at hlink
    exact hlink.elim
  | some kind =>
    rw [hdown] at hlink
    cases kind with
    | source => exact hlink.elim
    | processor declared template =>
      have haccepts : Accepts (buffers.datasets edge.node) component chunk :=
        ⟨schema.fields, hlink, .inr hchunk⟩
      obtain ⟨⟨data, range⟩, happend⟩ := exists_appendRecordBatch_iff.mpr haccepts
      dsimp only
      rw [happend]
      refine ⟨h.setDataset fun declared' template' hkind' => ?_, nofun⟩
      exact (h edge.node declared' template' hkind').append happend
    | sink sinkComponent sinkSchema =>
      refine ⟨h, fun e he => ?_⟩
      cases List.mem_singleton.mp he
      exact ⟨sinkComponent, sinkSchema, hdown, hchunk.trans hlink⟩

theorem fits_admitChunk {source : Nat} {component : String} {schema : Schema} {chunk : RecordBatch}
    (hkind : kindAt nodes source = some (.source component schema))
    (hchunk : chunk.schema.fields = schema.fields) (h : buffers.Follow nodes) :
    (admitChunk nodes source component chunk buffers).1.Follow nodes ∧
      ∀ e ∈ (admitChunk nodes source component chunk buffers).2, e.Fits nodes := by
  obtain ⟨hnext, hevents⟩ := overEdges_keeps (I := Buffers.Follow nodes)
    (fun edge hedge _ hbuffers => fits_fanOutEdge hreceives hkind hchunk hedge hbuffers) h
  exact ⟨hnext, List.forall_mem_cons.mpr ⟨trivial, hevents⟩⟩

/-- A processor's output goes along an edge without failing. -/
theorem fits_forwardEdge {i : Nat} {declared : List String} {template : Dataset R}
    (hkind : kindAt nodes i = some (.processor declared template)) (routes : Option (List String))
    {edge : BuiltEdge} (hedge : edge ∈ downstreamAt nodes i) (h : buffers.Follow nodes) :
    (forwardEdge nodes i routes buffers edge).1.Follow nodes ∧
      ∀ e ∈ (forwardEdge nodes i routes buffers edge).2, e.Fits nodes := by
  have hlink := hreceives buffers h i edge hedge
  have hconforms := (h i declared template hkind).conforms
  rw [hkind] at hlink
  unfold forwardEdge
  split_ifs
  · cases hdown : kindAt nodes edge.node with
    | none =>
      rw [hdown] at hlink
      exact hlink.elim
    | some kind =>
      rw [hdown] at hlink
      cases kind with
      | source => exact hlink.elim
      | processor downDeclared downTemplate =>
        obtain ⟨total, hforward⟩ := forwardInto_ok hconforms hlink
        have hpair : forwardInto (buffers.datasets i) (buffers.datasets edge.node) =
            ((forwardInto (buffers.datasets i) (buffers.datasets edge.node)).1, .ok total) :=
          Prod.ext rfl hforward
        dsimp only
        rw [hpair]
        refine ⟨h.setDataset fun declared' template' hkind' => ?_, nofun⟩
        exact (h edge.node declared' template' hkind').forward _
      | sink component schema =>
        have hpresent := batchFor_isSome_iff.mpr (Option.isSome_iff_exists.mpr ⟨_, hlink⟩)
        obtain ⟨batch, hbatch⟩ := Option.isSome_iff_exists.mp hpresent
        have hfields := (fields_batchFor hconforms hbatch).symm.trans hlink
        dsimp only
        rw [hbatch]
        dsimp only
        split_ifs
        · refine ⟨h, fun e he => ?_⟩
          cases List.mem_singleton.mp he
          exact ⟨component, schema, hdown, Option.some.inj hfields⟩
        · exact ⟨h, nofun⟩
  · exact ⟨h, nofun⟩

theorem fits_afterRun [Inhabited R] {i : Nat} {left : Dataset R}
    (result : SaciResult (Option (List String))) (hprocessor : isProcessor nodes i = true)
    (hleft : Leaves nodes i left) (h : buffers.Follow nodes) :
    (afterRun nodes i left result buffers).1.Follow nodes ∧
      ∀ e ∈ (afterRun nodes i left result buffers).2, e.Fits nodes := by
  have hset := h.setDataset hleft
  cases result with
  | error e =>
    refine ⟨hset.clearDataset i, fun e he => ?_⟩
    cases List.mem_singleton.mp he
    exact trivial
  | ok routes =>
    obtain ⟨declared, template, hkind⟩ : ∃ declared template,
        kindAt nodes i = some (.processor declared template) := by
      rw [isProcessor] at hprocessor
      split at hprocessor
      next declared template hkind => exact ⟨declared, template, hkind⟩
      next => cases hprocessor
    obtain ⟨hnext, hevents⟩ := overEdges_keeps (I := Buffers.Follow nodes)
      (fun edge hedge _ hbuffers => fits_forwardEdge hreceives hkind routes hedge hbuffers) hset
    exact ⟨hnext.clearDataset i, List.forall_mem_cons.mpr ⟨trivial, hevents⟩⟩

end

/-! ## Sinks and sources -/

section
variable (nodes) (results : Nat → Nat → SaciResult Unit)

theorem fits_writeStaged (sink : Nat) (buffers : Buffers R) :
    ∀ e ∈ (writeStaged results sink buffers).2, e.Fits nodes := by
  intro e he
  rcases List.mem_append.mp he with he | he
  · obtain ⟨j, hj, rfl⟩ := List.mem_mapIdx.mp he
    exact trivial
  · cases List.mem_singleton.mp he
    exact trivial

/-- A flush leaves the datasets alone. -/
theorem flushEach_keeps (sinks : List Nat) (buffers : Buffers R) :
    (flushEach results sinks buffers).1.datasets = buffers.datasets ∧
      ∀ e ∈ (flushEach results sinks buffers).2, e.Fits nodes := by
  induction sinks generalizing buffers with
  | nil => exact ⟨rfl, nofun⟩
  | cons sink sinks ih =>
    obtain ⟨hdatasets, hevents⟩ := ih (writeStaged results sink buffers).1
    refine ⟨hdatasets, fun e he => ?_⟩
    rcases List.mem_append.mp he with he | he
    · exact fits_writeStaged nodes results sink buffers e he
    · rcases List.mem_cons.mp he with rfl | he
      · exact trivial
      · exact hevents e he

end

theorem fits_finishAllSinks : ∀ e ∈ finishAllSinks nodes, e.Fits nodes := by
  intro e he
  obtain ⟨sink, -, rfl⟩ := List.mem_map.mp he
  exact trivial

theorem fits_finishAllSources : ∀ e ∈ finishAllSources nodes, e.Fits nodes := by
  intro e he
  obtain ⟨source, -, rfl⟩ := List.mem_map.mp he
  exact trivial

/-- The chunk and the tail of a batch have its fields. -/
theorem declared_cutAt {i : Nat} {batch : RecordBatch} (h : Declared nodes i batch)
    (limit : Option Nat) :
    Declared nodes i (cutAt limit batch).1 ∧
      ∀ tail, (cutAt limit batch).2 = some tail → Declared nodes i tail := by
  cases limit with
  | none => exact ⟨h, by rintro _ ⟨⟩⟩
  | some limit =>
    rw [cutAt]
    split_ifs
    · refine ⟨h, fun tail htail => ?_⟩
      cases htail
      exact h
    · exact ⟨h, by rintro _ ⟨⟩⟩

theorem follow_start [Inhabited R] (hdeclares : DeclaresTemplates nodes) :
    (Buffers.start nodes).Follow nodes := by
  intro i declared template hkind
  have htemplate : (Buffers.start nodes).datasets i = template := by
    unfold Buffers.start templateAt
    dsimp only
    rw [hkind]
  rw [htemplate]
  exact (hdeclares i declared template hkind).1

end

/-! ## The batch runner -/

namespace Standalone
variable {R : Type}

/-- The nodes emit what they declare: a source its schema, a processor the components of its
template. -/
def Emits (nodes : List (BuiltNode R)) (s : State R) (turn : Turn R) : Prop :=
  ∀ i, s.phase = .node i →
    (∀ batch, turn.answer = .poll (.batch batch) → Declared nodes i batch) ∧
    (∀ left routes, turn.answer = .run (.done left routes) → Workflow.Leaves nodes i left) ∧
    ∀ left e, turn.answer = .run (.failed left e) → Workflow.Leaves nodes i left

/-- The datasets follow their templates, and what is carried over has its source's fields. -/
structure Sound (nodes : List (BuiltNode R)) (s : State R) : Prop where
  follow : s.buffers.Follow nodes
  carried : ∀ i batch, s.carry i = some batch → Declared nodes i batch

variable {service : BuiltService R} {mode : RunMode} {s s' : State R} {turn : Turn R}
  {more : List Event}

theorem Sound.admitFrom (hreceives : ∀ buffers : Buffers R, buffers.Follow service.nodes →
      Receives service.nodes buffers.datasets) (h : Sound service.nodes s)
    {i : Nat} {component : String} {schema : Schema} {batch : RecordBatch}
    (hkind : kindAt service.nodes i = some (.source component schema))
    (hbatch : Declared service.nodes i batch) :
    Sound service.nodes (admitFrom service s i component batch).1 ∧
      ∀ e ∈ (admitFrom service s i component batch).2, e.Fits service.nodes := by
  let limit := if service.wholeArrivals i then none else remaining s i
  obtain ⟨hchunk, htail⟩ := declared_cutAt hbatch limit
  obtain ⟨hfollow, hevents⟩ :=
    fits_admitChunk hreceives hkind (hchunk component schema hkind) h.follow
  refine ⟨⟨hfollow, fun j other hother => ?_⟩, hevents⟩
  have hother : Function.update s.carry i (cutAt limit batch).2 j = some other := hother
  by_cases hj : j = i
  · subst hj
    rw [Function.update_self] at hother
    exact htail other hother
  · rw [Function.update_of_ne hj] at hother
    exact h.carried j other hother

variable [Inhabited R]

/-- The step lemma. -/
theorem Sound.step (hreceives : ∀ buffers : Buffers R, buffers.Follow service.nodes →
      Receives service.nodes buffers.datasets) (h : Sound service.nodes s)
    (hemits : Emits service.nodes s turn) (hstep : step service mode s turn = .ok (s', more)) :
    Sound service.nodes s' ∧ ∀ e ∈ more, e.Fits service.nodes := by
  cases steps_of_step hstep with
  | shutDown =>
    obtain ⟨hdatasets, hevents⟩ :=
      flushEach_keeps service.nodes turn.results (sinkIndices service.nodes) s.buffers
    refine ⟨⟨fun i declared template hkind => ?_, h.carried⟩, fun e he => ?_⟩
    · have hsame : (shutDown service s turn.results).1.buffers.datasets = s.buffers.datasets :=
        hdatasets
      rw [hsame]
      exact h.follow i declared template hkind
    · exact (List.mem_append.mp he).elim (hevents e) (fits_finishAllSources e)
  | carried i component schema batch _ hkind _ hcarry =>
    exact h.admitFrom hreceives hkind (h.carried i batch hcarry)
  | arrived i component schema batch hphase hkind _ _ hanswer =>
    obtain ⟨hsound, hevents⟩ := h.admitFrom hreceives hkind ((hemits i hphase).1 batch hanswer)
    exact ⟨hsound, List.forall_mem_cons.mpr ⟨trivial, hevents⟩⟩
  | drainedDry i _ _ _ _ hevents =>
    refine ⟨⟨h.follow, h.carried⟩, fun e he => ?_⟩
    rcases hevents with rfl | ⟨error, rfl⟩
    · cases he
    · cases List.mem_singleton.mp he
      exact trivial
  | ran i left result hphase hprocessor hanswer =>
    have hleft : Workflow.Leaves service.nodes i left := by
      cases result with
      | ok routes => exact (hemits i hphase).2.1 left routes hanswer
      | error e => exact (hemits i hphase).2.2 left e hanswer
    obtain ⟨hfollow, hevents⟩ :=
      fits_afterRun hreceives result hprocessor hleft h.follow
    exact ⟨⟨hfollow, h.carried⟩, hevents⟩
  | wrote i => exact ⟨⟨h.follow, h.carried⟩, fits_writeStaged service.nodes turn.results i s.buffers⟩
  | stopped =>
    refine ⟨⟨h.follow, h.carried⟩, List.forall_mem_cons.mpr ⟨trivial, fun e he => ?_⟩⟩
    exact (List.mem_append.mp he).elim (fits_finishAllSinks e) (fits_finishAllSources e)
  | completed =>
    refine ⟨⟨h.follow, h.carried⟩, fun e he => ?_⟩
    cases List.mem_singleton.mp he
    exact trivial
  | began =>
    refine ⟨⟨h.follow, h.carried⟩, fun e he => ?_⟩
    cases List.mem_singleton.mp he
    exact trivial
  | spent | paced => exact ⟨⟨h.follow, h.carried⟩, nofun⟩

end Standalone

/-! ## The stream runner -/

namespace Stream
variable {R : Type}

/-- The nodes emit what they declare. -/
def Emits (nodes : List (BuiltNode R)) (s : State R) (turn : Turn R) : Prop :=
  (∀ outcomes, s.phase = .priming → turn.answer = .prime outcomes →
    ∀ source batch, outcomes source = .batch batch → Declared nodes source batch) ∧
  (∀ source batch, s.phase = .serving source → turn.answer = .poll (.batch batch) →
    Declared nodes source batch) ∧
  ∀ source i, s.phase = .item source i →
    (∀ left routes, turn.answer = .run (.done left routes) → Workflow.Leaves nodes i left) ∧
    ∀ left e, turn.answer = .run (.failed left e) → Workflow.Leaves nodes i left

/-- The datasets follow their templates, and what is held back has its source's fields. -/
structure Sound (nodes : List (BuiltNode R)) (s : State R) : Prop where
  follow : s.buffers.Follow nodes
  pending : ∀ i batch, s.pending i = some batch → Declared nodes i batch
  prefetched : ∀ i batch, s.prefetched i = some batch → Declared nodes i batch

variable {service : BuiltService R} {s s' : State R} {turn : Turn R} {more : List Event}

theorem Sound.beginItem (hreceives : ∀ buffers : Buffers R, buffers.Follow service.nodes →
      Receives service.nodes buffers.datasets) (h : Sound service.nodes s)
    {source : Nat} {component : String} {schema : Schema} {batch : RecordBatch}
    (hkind : kindAt service.nodes source = some (.source component schema))
    (hbatch : Declared service.nodes source batch) :
    Sound service.nodes (beginItem service s source component batch).1 ∧
      ∀ e ∈ (beginItem service s source component batch).2, e.Fits service.nodes := by
  obtain ⟨hchunk, htail⟩ := declared_cutAt hbatch (credit s.controllers source)
  obtain ⟨hfollow, hevents⟩ :=
    fits_admitChunk hreceives hkind (hchunk component schema hkind) h.follow
  refine ⟨⟨hfollow, fun j other hother => ?_, h.prefetched⟩,
    List.forall_mem_cons.mpr ⟨trivial, hevents⟩⟩
  have hother : Function.update s.pending source
      (cutAt (credit s.controllers source) batch).2 j = some other := hother
  by_cases hj : j = source
  · subst hj
    rw [Function.update_self] at hother
    exact htail other hother
  · rw [Function.update_of_ne hj] at hother
    exact h.pending j other hother

/-- What a source is primed with has its fields. -/
theorem Sound.primeEach {outcomes : Nat → Primed}
    (houtcomes : ∀ source batch, outcomes source = .batch batch → Declared service.nodes source batch)
    (sources : List Nat) (h : Sound service.nodes s) :
    Sound service.nodes (primeEach outcomes sources s).1 ∧
      ∀ e ∈ (primeEach outcomes sources s).2, e.Fits service.nodes := by
  induction sources generalizing s with
  | nil => exact ⟨h, nofun⟩
  | cons source sources ih =>
    have hone : Sound service.nodes (primeOne s source (outcomes source)).1 ∧
        ∀ e ∈ (primeOne s source (outcomes source)).2, e.Fits service.nodes := by
      cases houtcome : outcomes source with
      | batch batch =>
        refine ⟨⟨h.follow, h.pending, fun i other hother => ?_⟩, fun e he => ?_⟩
        · have hother : Function.update s.prefetched source (some batch) i = some other := hother
          by_cases hi : i = source
          · subst hi
            rw [Function.update_self] at hother
            cases hother
            exact houtcomes i batch houtcome
          · rw [Function.update_of_ne hi] at hother
            exact h.prefetched i other hother
        · cases List.mem_singleton.mp he
          exact trivial
      | failed e =>
        refine ⟨h, fun e he => ?_⟩
        cases List.mem_singleton.mp he
        exact trivial
      | eof => exact ⟨⟨h.follow, h.pending, h.prefetched⟩, nofun⟩
      | elapsed => exact ⟨h, nofun⟩
    obtain ⟨hsound, hevents⟩ := ih hone.1
    exact ⟨hsound, fun e he => (List.mem_append.mp he).elim (hone.2 e) (hevents e)⟩

variable [Inhabited R]

/-- The step lemma. -/
theorem Sound.step (hreceives : ∀ buffers : Buffers R, buffers.Follow service.nodes →
      Receives service.nodes buffers.datasets) (h : Sound service.nodes s)
    (hemits : Emits service.nodes s turn) (hstep : step service s turn = .ok (s', more)) :
    Sound service.nodes s' ∧ ∀ e ∈ more, e.Fits service.nodes := by
  obtain ⟨hprimes, hpolls, hruns⟩ := hemits
  cases steps_of_step hstep with
  | primed hphase outcomes hanswer =>
    obtain ⟨hsound, hevents⟩ :=
      h.primeEach (hprimes outcomes hphase hanswer) (sourceIndices service.nodes)
    exact ⟨⟨hsound.follow, hsound.pending, hsound.prefetched⟩, hevents⟩
  | pending source component schema batch _ hkind hpending =>
    exact h.beginItem hreceives hkind (h.pending source batch hpending)
  | prefetched source component schema batch _ hkind _ hprefetched =>
    have htaken : Sound service.nodes
        { s with prefetched := Function.update s.prefetched source none } := by
      refine ⟨h.follow, h.pending, fun i other hother => ?_⟩
      have hother : Function.update s.prefetched source none i = some other := hother
      by_cases hi : i = source
      · subst hi
        rw [Function.update_self] at hother
        cases hother
      · rw [Function.update_of_ne hi] at hother
        exact h.prefetched i other hother
    exact htaken.beginItem hreceives hkind (h.prefetched source batch hprefetched)
  | arrived source component schema batch hphase hkind _ _ hanswer =>
    obtain ⟨hsound, hevents⟩ :=
      h.beginItem hreceives hkind (hpolls source batch hphase hanswer)
    exact ⟨hsound, List.forall_mem_cons.mpr ⟨trivial, hevents⟩⟩
  | ran source i left result hphase hprocessor hanswer =>
    have hleft : Workflow.Leaves service.nodes i left := by
      cases result with
      | ok routes => exact (hruns source i hphase).1 left routes hanswer
      | error e => exact (hruns source i hphase).2 left e hanswer
    obtain ⟨hfollow, hevents⟩ :=
      fits_afterRun hreceives result hprocessor hleft h.follow
    exact ⟨⟨hfollow, h.pending, h.prefetched⟩, hevents⟩
  | wrote source i =>
    exact ⟨⟨h.follow, h.pending, h.prefetched⟩,
      fits_writeStaged service.nodes turn.results i s.buffers⟩
  | shutDown =>
    refine ⟨⟨h.follow, h.pending, h.prefetched⟩, fun e he => ?_⟩
    exact (List.mem_append.mp he).elim (fits_finishAllSinks e) (fits_finishAllSources e)
  | failed source _ _ _ error =>
    refine ⟨⟨h.follow, h.pending, h.prefetched⟩, fun e he => ?_⟩
    cases List.mem_singleton.mp he
    exact trivial
  | completed =>
    refine ⟨⟨h.follow, h.pending, h.prefetched⟩, fun e he => ?_⟩
    cases List.mem_singleton.mp he
    exact trivial
  | selected | exhausted | retried | passed =>
    exact ⟨⟨h.follow, h.pending, h.prefetched⟩, nofun⟩

end Stream

/-- **An accepted workflow never fails a fan-out.** Where the processors declare their templates, those
at the links of sources and sinks declare a component at all, and the nodes emit what they declare, no
step of either runner refuses a source's chunk or a forward or misses what a sink reads, what is
staged has the sink's fields, and every state reached finds all links registered with equal fields. -/
theorem accepted_never_fails {R : Type} [Inhabited R] (service : BuiltService R)
    (haccepted : validateWorkflowGraph service.workflowId service.nodes = .ok ())
    (hdeclares : DeclaresTemplates service.nodes) (hends : DeclaresAtEnds service.nodes) :
    (∀ mode turns s outs,
      run (Standalone.step service mode) (Standalone.start service) turns = .ok (s, outs) →
        EachStep (Standalone.step service mode) (Standalone.Emits service.nodes)
          (Standalone.start service) turns →
        (∀ e ∈ outs.flatten, e.Fits service.nodes) ∧ Receives service.nodes s.buffers.datasets) ∧
    (∀ s₀ turns s outs, Stream.start service = .ok s₀ →
      run (Stream.step service) s₀ turns = .ok (s, outs) →
        EachStep (Stream.step service) (Stream.Emits service.nodes) s₀ turns →
        (∀ e ∈ outs.flatten, e.Fits service.nodes) ∧ Receives service.nodes s.buffers.datasets) := by
  have hreceives : ∀ buffers : Buffers R, buffers.Follow service.nodes →
      Receives service.nodes buffers.datasets :=
    fun _ hfollow => receives_of_accepted haccepted hdeclares hends hfollow
  refine ⟨fun mode turns s outs h hemits => ?_, fun s₀ turns s outs hstart h hemits => ?_⟩
  · have hstart : Standalone.Sound service.nodes (Standalone.start service) :=
      ⟨follow_start hdeclares, by rintro _ _ ⟨⟩⟩
    obtain ⟨hsound, hevents⟩ := run_outputs_of_eachStep
      (fun s turn s' more hs hturn hstep => hs.step hreceives hturn hstep) h hemits hstart
    refine ⟨fun e he => ?_, hreceives s.buffers hsound.follow⟩
    obtain ⟨events, hmem, he⟩ := List.mem_flatten.mp he
    exact hevents events hmem e he
  · have hstart : Stream.Sound service.nodes s₀ := by
      rw [Stream.start] at hstart
      split_ifs at hstart
      cases hstart
      exact ⟨follow_start hdeclares, (by rintro _ _ ⟨⟩), by rintro _ _ ⟨⟩⟩
    obtain ⟨hsound, hevents⟩ := run_outputs_of_eachStep
      (fun s turn s' more hs hturn hstep => hs.step hreceives hturn hstep) h hemits hstart
    refine ⟨fun e he => ?_, hreceives s.buffers hsound.follow⟩
    obtain ⟨events, hmem, he⟩ := List.mem_flatten.mp he
    exact hevents events hmem e he

namespace Sample

/-- A source linked to a processor that declares no component. -/
def undeclared : BuiltService Unit where
  workflowId := "orders"
  nodes := [⟨"intake", .source "Order" orders, none, [link 1]⟩,
    ⟨"enrich", .processor [] (.new ()), none, []⟩]
  forward i node hnode edge hedge := by
    rcases i with _ | _ | i <;> cases hnode <;> cases hedge
    · exact ⟨Nat.zero_lt_one, Nat.one_lt_two⟩
    · contradiction

/-- The workflow is accepted, and declares exactly its template, yet the first order is refused. -/
theorem undeclared_refuses :
    validateWorkflowGraph undeclared.workflowId undeclared.nodes = .ok () ∧
      DeclaresTemplates undeclared.nodes ∧
      ∃ turns s outs, run (Standalone.step undeclared .continuous) (Standalone.start undeclared)
          turns = .ok (s, outs) ∧
        EachStep (Standalone.step undeclared .continuous) (Standalone.Emits undeclared.nodes)
          (Standalone.start undeclared) turns ∧
        ¬∀ e ∈ outs.flatten, e.Fits undeclared.nodes := by
  refine ⟨by decide, fun i declared template hkind => ?_, [turn (.head false fun _ => none),
    turn (.poll (.batch (batchOf [1])))], _, _, rfl, ?_, fun hfits => ?_⟩
  · rcases i with _ | _ | i <;> cases hkind
    exact ⟨⟨fun _ => rfl, List.nodup_nil, nofun⟩, fun component => iff_of_false nofun nofun⟩
  · refine EachStep.cons (fun i hphase => nomatch hphase) rfl ?_
    refine EachStep.cons (fun i hphase => ⟨fun batch hbatch => ?_, nofun, nofun⟩) rfl trivial
    cases hphase
    cases hbatch
    intro component schema hkind
    cases hkind
    rfl
  · exact hfits (.appendFailed 0 1 _) (List.mem_of_mem_getLast? rfl)

/-- The template of a processor of orders. -/
def template : Dataset Unit :=
  { Dataset.new () with components := [Dataset.freshEntry "Order" orders 1] }

/-- A source, a processor that declares what it yields, and a sink. -/
def enriched : BuiltService Unit where
  workflowId := "orders"
  nodes := [⟨"intake", .source "Order" orders, none, [link 1]⟩,
    ⟨"enrich", .processor ["Order"] template, none, [link 2]⟩,
    ⟨"archive", .sink "Order" orders, none, []⟩]
  forward i node hnode edge hedge := by
    rcases i with _ | _ | _ | i <;> cases hnode <;> cases hedge
    · exact ⟨Nat.zero_lt_one, by decide⟩
    · contradiction
    · exact ⟨Nat.one_lt_two, by decide⟩
    · contradiction

theorem follows_template : Follows template template where
  fields _ := rfl
  unique := List.pairwise_singleton _ _
  conforms entry hentry := by
    cases List.mem_singleton.mp hentry
    exact ⟨by decide, by decide⟩

/-- An order that the processor takes up. -/
def enriching : List (Standalone.Turn Unit) :=
  [turn (.head false fun _ => none), turn (.poll (.batch (batchOf [1]))), turn (.poll .eof),
    turn (.run (.done template none))]

theorem enriching_fits :
    ∃ s outs, run (Standalone.step enriched .continuous) (Standalone.start enriched) enriching =
        .ok (s, outs) ∧
      (∀ e ∈ outs.flatten, e.Fits enriched.nodes) ∧ Receives enriched.nodes s.buffers.datasets := by
  refine ⟨_, _, rfl, (accepted_never_fails enriched (by decide) ?_ ?_).1 .continuous enriching _ _ rfl
    ?_⟩
  · intro i declared registered hkind
    rcases i with _ | _ | _ | i <;> cases hkind
    refine ⟨follows_template, fun component => ?_⟩
    rw [fieldsOf_isSome_iff]
    exact Iff.rfl
  · intro i edge hedge
    rcases i with _ | _ | _ | i <;> simp [downstreamAt, enriched] at hedge <;> subst hedge <;>
      exact ⟨by decide, by decide⟩
  · refine EachStep.cons (fun i hphase => by cases hphase) rfl ?_
    refine EachStep.cons (fun i hphase => ⟨fun batch hbatch => ?_, (by rintro _ _ ⟨⟩), by rintro _ _ ⟨⟩⟩) rfl ?_
    · cases hphase
      cases hbatch
      intro component schema hkind
      cases hkind
      rfl
    refine EachStep.cons (fun i _ => ⟨(by rintro _ ⟨⟩), (by rintro _ _ ⟨⟩), by rintro _ _ ⟨⟩⟩) rfl ?_
    refine EachStep.cons (fun i hphase => ⟨(by rintro _ ⟨⟩), fun left routes hrun => ?_, by rintro _ _ ⟨⟩⟩) rfl trivial
    cases hphase
    cases hrun
    intro declared registered hkind
    cases hkind
    exact follows_template

end Sample
end Saci.Workflow
