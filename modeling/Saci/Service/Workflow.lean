import Mathlib.Logic.Relation
import Saci.Service.Windowing

/-!
# Built workflows

What `ServiceBuilder` assembles of a workflow (`saci-service/src/service/builder.rs`): the nodes in
topological order, each with its outbound edges, and which sources feed a windowed node
(`windowing.rs`). Connectors and runtimes are what they show to validation: a component, a schema,
the declared components and the template dataset.
-/

namespace Saci.Workflow

/-- One declared outbound edge of a node. -/
structure BuiltEdge where
  node : Nat
  branch : Option String
  deriving DecidableEq

/-- `edge_selected`. -/
def edgeSelected (routes : Option (List String)) (branch : Option String) : Bool :=
  match routes with
  | none => true
  | some routes =>
    match branch with
    | some name => routes.any fun route => route = name
    | none => false

/-- What kind of execution backend a node holds. A source and a sink always declare their
component, a processor never does. -/
inductive BuiltNodeKind (R : Type)
  | source (component : String) (schema : Schema)
  | processor (declaredComponents : List String) (templateDataset : Dataset R)
  | sink (component : String) (schema : Schema)

structure BuiltNode (R : Type) where
  id : String
  kind : BuiltNodeKind R
  window : Option WindowConfig
  downstream : List BuiltEdge

def BuiltNode.component {R : Type} (node : BuiltNode R) : Option String :=
  match node.kind with
  | .source component _ => some component
  | .processor _ _ => none
  | .sink component _ => some component

/-- A workflow as it is built. Its nodes are in topological order, so edges lead on in the list. -/
structure BuiltService (R : Type) where
  workflowId : String
  nodes : List (BuiltNode R)
  forward : ∀ (i : Nat) (node : BuiltNode R), nodes[i]? = some node → ∀ edge ∈ node.downstream,
    i < edge.node ∧ edge.node < nodes.length

section
variable {R : Type} (nodes : List (BuiltNode R))

def kindAt (i : Nat) : Option (BuiltNodeKind R) := (nodes[i]?).map BuiltNode.kind

def downstreamAt (i : Nat) : List BuiltEdge := ((nodes[i]?).map BuiltNode.downstream).getD []

def isSource (i : Nat) : Bool :=
  match kindAt nodes i with
  | some (.source _ _) => true
  | _ => false

def isProcessor (i : Nat) : Bool :=
  match kindAt nodes i with
  | some (.processor _ _) => true
  | _ => false

def isSink (i : Nat) : Bool :=
  match kindAt nodes i with
  | some (.sink _ _) => true
  | _ => false

/-- The node declares a `window` block: the runners hold a tracker for it. -/
def isWindowed (i : Nat) : Bool := (nodes[i]?).any fun node => node.window.isSome

/-- The body of the loop of `reaches_windowed_node`. -/
def reachesStep (reaches : List Bool) (i : Nat) : List Bool :=
  reaches.set i
    (isWindowed nodes i || (downstreamAt nodes i).any fun edge => reaches.getD edge.node false)

/-- The loop, from the last node down. -/
def reachesFrom : Nat → List Bool → List Bool
  | 0, reaches => reaches
  | i + 1, reaches => reachesFrom i (reachesStep nodes reaches i)

/-- `reaches_windowed_node`. -/
def reachesWindowedNode : List Bool :=
  reachesFrom nodes nodes.length (List.replicate nodes.length false)

/-- A source on a path to a windowed node keeps its arrivals whole. -/
def BuiltService.wholeArrivals (service : BuiltService R) (i : Nat) : Bool :=
  (reachesWindowedNode service.nodes).getD i false

/-! ## Paths -/

/-- A link of the workflow. -/
def Links (i j : Nat) : Prop := ∃ edge ∈ downstreamAt nodes i, edge.node = j

/-- A path of links. -/
def Reaches : Nat → Nat → Prop := Relation.ReflTransGen (Links nodes)

/-- Some path out of the node reaches a windowed node. -/
def FeedsWindowed (i : Nat) : Prop := ∃ j, Reaches nodes i j ∧ isWindowed nodes j = true

end

section
variable {R : Type} {nodes : List (BuiltNode R)} {i j : Nat}

theorem length_le_of_kindAt (h : kindAt nodes i = none) : nodes.length ≤ i := by
  rw [kindAt, Option.map_eq_none_iff] at h
  exact List.getElem?_eq_none_iff.mp h

theorem mem_downstreamAt {edge : BuiltEdge} :
    edge ∈ downstreamAt nodes i ↔ ∃ node, nodes[i]? = some node ∧ edge ∈ node.downstream := by
  rw [downstreamAt]
  cases nodes[i]? with
  | none => simp
  | some node => simp

theorem feedsWindowed_iff :
    FeedsWindowed nodes i ↔
      isWindowed nodes i = true ∨ ∃ edge ∈ downstreamAt nodes i, FeedsWindowed nodes edge.node := by
  constructor
  · rintro ⟨j, hij, hj⟩
    rcases Relation.ReflTransGen.cases_head hij with rfl | ⟨k, ⟨edge, hedge, rfl⟩, hkj⟩
    · exact .inl hj
    · exact .inr ⟨edge, hedge, j, hkj, hj⟩
  · rintro (hi | ⟨edge, hedge, j, hj, hwindowed⟩)
    · exact ⟨i, .refl, hi⟩
    · exact ⟨j, .head ⟨edge, hedge, rfl⟩ hj, hwindowed⟩

end

namespace BuiltService
variable {R : Type} (service : BuiltService R) {i j : Nat}

theorem lt_of_links (h : Links service.nodes i j) : i < j ∧ j < service.nodes.length := by
  obtain ⟨edge, hedge, rfl⟩ := h
  obtain ⟨node, hnode, hmem⟩ := mem_downstreamAt.mp hedge
  exact service.forward i node hnode edge hmem

/-- The entries of the nodes from `k` on say what they should. -/
def ReachesKnown (k : Nat) (reaches : List Bool) : Prop :=
  reaches.length = service.nodes.length ∧
    ∀ i, k ≤ i → (reaches.getD i false = true ↔ FeedsWindowed service.nodes i)

theorem reachesKnown_step {k : Nat} (hk : k < service.nodes.length) {reaches : List Bool}
    (h : service.ReachesKnown (k + 1) reaches) :
    service.ReachesKnown k (reachesStep service.nodes reaches k) := by
  refine ⟨by rw [reachesStep, List.length_set, h.1], fun i hi => ?_⟩
  rw [reachesStep, List.getD_eq_getElem?_getD, List.getElem?_set]
  rcases Nat.eq_or_lt_of_le hi with rfl | hlt
  · rw [if_pos rfl, if_pos (h.1 ▸ hk), Option.getD_some, Bool.or_eq_true, List.any_eq_true,
      feedsWindowed_iff]
    refine or_congr_right (exists_congr fun edge => and_congr_right fun hedge => ?_)
    exact h.2 edge.node (service.lt_of_links ⟨edge, hedge, rfl⟩).1
  · rw [if_neg (Nat.ne_of_lt hlt), ← List.getD_eq_getElem?_getD]
    exact h.2 i hlt

theorem reachesKnown_from (k : Nat) (hk : k ≤ service.nodes.length) {reaches : List Bool}
    (h : service.ReachesKnown k reaches) :
    service.ReachesKnown 0 (reachesFrom service.nodes k reaches) := by
  induction k generalizing reaches with
  | zero => exact h
  | succ k ih =>
    exact ih (Nat.le_of_succ_le hk) (service.reachesKnown_step hk h)

/-- **One reverse pass resolves the reachability of windowed nodes.** -/
theorem wholeArrivals_iff :
    service.wholeArrivals i = true ↔ FeedsWindowed service.nodes i := by
  refine (service.reachesKnown_from service.nodes.length le_rfl ⟨?_, fun j hj => ?_⟩).2 i
    (Nat.zero_le i)
  · rw [List.length_replicate]
  · have hnode : service.nodes[j]? = none := List.getElem?_eq_none hj
    rw [feedsWindowed_iff, isWindowed, downstreamAt, hnode, List.getD_eq_getElem?_getD,
      List.getElem?_eq_none (by rwa [List.length_replicate])]
    simp

end BuiltService
end Saci.Workflow
