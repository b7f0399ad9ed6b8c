import Saci.Service.Workflow

/-!
# Load-time validation of a workflow

`validate_workflow_graph` (`saci-service/src/service/validation.rs`): the checks of every link by
the two node kinds it connects, the coverage of the components a processor declares, and the time
field of a windowed node.
-/

namespace Saci.Workflow

section
variable {R : Type}

/-- The Arrow fields registered for a component. -/
def fieldsOf (dataset : Dataset R) (component : String) : Option (List Field) :=
  (dataset.find component).map fun entry => entry.schema.fields

variable (workflowId : String) (nodes : List (BuiltNode R))

def idAt (i : Nat) : String := ((nodes[i]?).map BuiltNode.id).getD ""

def componentAt (i : Nat) : Option String := (nodes[i]?).bind BuiltNode.component

/-- `declared_components()` of a processor node. -/
def declaredAt (i : Nat) : List String :=
  match kindAt nodes i with
  | some (.processor declared _) => declared
  | _ => []

/-- The nodes with an edge to this one, once an edge. -/
def inboundAt (d : Nat) : List Nat :=
  (List.range nodes.length).flatMap fun i =>
    ((downstreamAt nodes i).filter fun edge => edge.node = d).map fun _ => i

/-- What an error about a link begins with. -/
def onLink (i d : Nat) : String :=
  s!"workflow '{workflowId}': link '{idAt nodes i}' -> '{idAt nodes d}'"

/-! ## Links -/

/-- One component of the superset check. -/
def validateShared (i d : Nat) (up : List String) (upTemplate downTemplate : Dataset R)
    (component : String) : SaciResult Unit :=
  if component ∉ up then
    .error <| .configuration <|
      s!"{onLink workflowId nodes i d}: processor '{idAt nodes d}' declares component " ++
      s!"'{component}', which upstream processor '{idAt nodes i}' does not; a " ++
      "processor-to-processor link must deliver every component the downstream processor declares"
  else if fieldsOf upTemplate component ≠ fieldsOf downTemplate component then
    .error <| .configuration <|
      s!"{onLink workflowId nodes i d}: component '{component}' schema differs between " ++
      s!"processor '{idAt nodes i}' and processor '{idAt nodes d}'"
  else .ok ()

/-- `validate_edge`. -/
def validateEdge (i d : Nat) : SaciResult Unit :=
  match kindAt nodes i, kindAt nodes d with
  | some (.source component schema), some (.processor declared template) =>
    if declared.isEmpty then .ok ()
    else if component ∉ declared then
      .error <| .configuration <|
        s!"{onLink workflowId nodes i d}: processor '{idAt nodes d}' does not declare component " ++
        s!"'{component}', which source '{idAt nodes i}' produces"
    else if (fieldsOf template component).any fun fields => schema.fields ≠ fields then
      .error <| .configuration <|
        s!"{onLink workflowId nodes i d}: component '{component}' schema differs between source " ++
        s!"'{idAt nodes i}' and processor '{idAt nodes d}'"
    else .ok ()
  | some (.source _ schema), some (.sink _ sinkSchema) =>
    if schema.fields ≠ sinkSchema.fields then
      .error <| .configuration <|
        s!"{onLink workflowId nodes i d}: source and sink schemas differ; a source-to-sink link " ++
        "has no processor to reconcile them"
    else .ok ()
  | some (.processor up upTemplate), some (.processor down downTemplate) =>
    if up.isEmpty || down.isEmpty then .ok ()
    else down.forM (validateShared workflowId nodes i d up upTemplate downTemplate)
  | some (.processor up upTemplate), some (.sink component schema) =>
    if up.isEmpty then .ok ()
    else if component ∉ up then
      .error <| .configuration <|
        s!"{onLink workflowId nodes i d}: processor '{idAt nodes i}' does not declare component " ++
        s!"'{component}', which sink '{idAt nodes d}' reads"
    else if (fieldsOf upTemplate component).any fun fields => schema.fields ≠ fields then
      .error <| .configuration <|
        s!"{onLink workflowId nodes i d}: component '{component}' schema differs between " ++
        s!"processor '{idAt nodes i}' and sink '{idAt nodes d}'"
    else .ok ()
  | _, _ =>
    .error <| .configuration <|
      s!"{onLink workflowId nodes i d} connects node kinds a validated workflow cannot produce; " ++
      "validate the config before building it"

/-! ## Coverage -/

/-- What an outbound edge names as produced. -/
def producedBy (edge : BuiltEdge) : List String :=
  match kindAt nodes edge.node with
  | some (.sink component _) => [component]
  | some (.processor declared _) => declared
  | _ => []

/-- `validate_processor_coverage`. -/
def validateProcessorCoverage (i : Nat) : SaciResult Unit :=
  let ins := inboundAt nodes i
  if ins.isEmpty then .ok ()
  else if (declaredAt nodes i).isEmpty then .ok ()
  else if ins.any (isProcessor nodes) then .ok ()
  else
    let delivered := ins.filterMap (componentAt nodes)
    let produced := (downstreamAt nodes i).flatMap (producedBy nodes)
    (declaredAt nodes i).forM fun component =>
      if component ∉ delivered ∧ component ∉ produced then
        .error <| .configuration <|
          s!"workflow '{workflowId}': processor '{idAt nodes i}' declares component " ++
          s!"'{component}' but no inbound link delivers it and no outbound edge consumes it"
      else .ok ()

/-! ## Windows -/

/-- What an inbound link delivers: the component and its fields. -/
def deliveredBy (i : Nat) : List (String × List Field) :=
  match kindAt nodes i with
  | some (.source component schema) => [(component, schema.fields)]
  | some (.processor declared template) =>
    declared.filterMap fun component => (fieldsOf template component).map (component, ·)
  | _ => []

/-- The time field of one delivered component. -/
def validateTimeField (i : Nat) (window : WindowConfig) (delivered : String × List Field) :
    SaciResult Unit :=
  let onNode := s!"workflow '{workflowId}': processor '{idAt nodes i}' declares window time_field"
  match delivered.2.find? fun field => field.name = window.timeField with
  | none =>
    .error <| .configuration <|
      s!"{onNode} '{window.timeField}' but component '{delivered.1}' delivered by an inbound " ++
      "link has no such field"
  | some field =>
    match field.dataType with
    | .int64 | .timestamp _ _ => .ok ()
    | other =>
      .error <| .configuration <|
        s!"{onNode} '{window.timeField}' on component '{delivered.1}' as {repr other}, but the " ++
        "host watermark tracker reads Int64 milliseconds or an Arrow timestamp type"

/-- `validate_window`. -/
def validateWindow (i : Nat) (window : WindowConfig) : SaciResult Unit :=
  let ins := inboundAt nodes i
  if ins.isEmpty then .ok ()
  else if (declaredAt nodes i).isEmpty then .ok ()
  else (ins.flatMap (deliveredBy nodes)).forM (validateTimeField workflowId nodes i window)

/-- The window block of a node, when it has one. -/
def validateWindowAt (i : Nat) : SaciResult Unit :=
  match (nodes[i]?).bind BuiltNode.window with
  | some window => validateWindow workflowId nodes i window
  | none => .ok ()

/-- `validate_workflow_graph`. -/
def validateWorkflowGraph : SaciResult Unit := do
  (List.range nodes.length).forM fun i =>
    (downstreamAt nodes i).forM fun edge => validateEdge workflowId nodes i edge.node
  ((List.range nodes.length).filter (isProcessor nodes)).forM
    (validateProcessorCoverage workflowId nodes)
  (List.range nodes.length).forM (validateWindowAt workflowId nodes)

end

/-! ## What acceptance says of a link -/

section
variable {R : Type}

/-- What an accepted link guarantees, by the two node kinds it connects. An empty declaration opts
the link out. -/
inductive LinkFits : BuiltNodeKind R → BuiltNodeKind R → Prop
  | sourceProcessor {component : String} {schema : Schema} {declared : List String}
      {template : Dataset R}
      (fits : declared ≠ [] → component ∈ declared ∧
        ∀ fields ∈ fieldsOf template component, schema.fields = fields) :
      LinkFits (.source component schema) (.processor declared template)
  | sourceSink {component sinkComponent : String} {schema sinkSchema : Schema}
      (fits : schema.fields = sinkSchema.fields) :
      LinkFits (.source component schema) (.sink sinkComponent sinkSchema)
  | processorProcessor {up down : List String} {upTemplate downTemplate : Dataset R}
      (fits : up ≠ [] → down ≠ [] → ∀ component ∈ down, component ∈ up ∧
        fieldsOf upTemplate component = fieldsOf downTemplate component) :
      LinkFits (.processor up upTemplate) (.processor down downTemplate)
  | processorSink {up : List String} {upTemplate : Dataset R} {component : String} {schema : Schema}
      (fits : up ≠ [] → component ∈ up ∧
        ∀ fields ∈ fieldsOf upTemplate component, schema.fields = fields) :
      LinkFits (.processor up upTemplate) (.sink component schema)

variable {workflowId : String} {nodes : List (BuiltNode R)} {i d : Nat}

theorem validateShared_eq_ok {up : List String} {upTemplate downTemplate : Dataset R}
    {component : String}
    (h : validateShared workflowId nodes i d up upTemplate downTemplate component = .ok ()) :
    component ∈ up ∧ fieldsOf upTemplate component = fieldsOf downTemplate component := by
  rw [validateShared] at h
  split_ifs at h with hup hfields
  exact ⟨hup, not_not.mp hfields⟩

/-- The comparison with a schema that may not be registered. -/
theorem forall_fields_of_not_any {schema : Schema} {fields : Option (List Field)}
    (h : ¬(fields.any fun fields => schema.fields ≠ fields) = true) :
    ∀ registered ∈ fields, schema.fields = registered := by
  rintro registered hfields
  rw [Option.mem_def.mp hfields, Option.any_some, decide_eq_true_eq, not_not] at h
  exact h

theorem validateEdge_eq_ok (h : validateEdge workflowId nodes i d = .ok ()) :
    ∃ up down, kindAt nodes i = some up ∧ kindAt nodes d = some down ∧ LinkFits up down := by
  unfold validateEdge at h
  split at h
  case h_1 component schema declared template hi hd =>
    refine ⟨_, _, hi, hd, .sourceProcessor fun hdeclared => ?_⟩
    rw [if_neg (by rwa [List.isEmpty_iff])] at h
    split_ifs at h with hmem hfields
    exact ⟨hmem, forall_fields_of_not_any hfields⟩
  case h_2 hi hd =>
    refine ⟨_, _, hi, hd, .sourceSink ?_⟩
    split_ifs at h with hfields
    exact not_not.mp hfields
  case h_3 up upTemplate down downTemplate hi hd =>
    refine ⟨_, _, hi, hd, .processorProcessor fun hup hdown => ?_⟩
    rw [if_neg (by simp [hup, hdown])] at h
    exact fun component hmem => validateShared_eq_ok (forM_eq_ok_iff.mp h component hmem)
  case h_4 up upTemplate component schema hi hd =>
    refine ⟨_, _, hi, hd, .processorSink fun hup => ?_⟩
    rw [if_neg (by rwa [List.isEmpty_iff])] at h
    split_ifs at h with hmem hfields
    exact ⟨hmem, forall_fields_of_not_any hfields⟩
  case h_5 => cases h

/-- Every link of an accepted workflow fits. -/
theorem linkFits_of_accepted (h : validateWorkflowGraph workflowId nodes = .ok ()) {edge : BuiltEdge}
    (hedge : edge ∈ downstreamAt nodes i) :
    ∃ up down, kindAt nodes i = some up ∧ kindAt nodes edge.node = some down ∧ LinkFits up down := by
  obtain ⟨_, hlinks, -⟩ := bind_eq_ok_iff.mp h
  have hi : i ∈ List.range nodes.length := by
    obtain ⟨node, hnode, -⟩ := mem_downstreamAt.mp hedge
    exact List.mem_range.mpr (List.getElem?_eq_some_iff.mp hnode).1
  exact validateEdge_eq_ok (forM_eq_ok_iff.mp (forM_eq_ok_iff.mp hlinks i hi) edge hedge)

end
end Saci.Workflow
