import Saci.Core.Error
import Saci.Library.Layers

/-!
# The order of a workflow's nodes

`WorkflowSpec::nodes` and `WorkflowSpec::topological_order` (`saci-service/src/service/config.rs`).
The traversal goes through the graph frontier by frontier; the model bounds its rounds and stops
where an in-degree would underflow, and it does neither (`topologicalOrder_spec`). A frontier is in
the order in which its nodes lost their last link, which is the order of declaration only if the
links are declared so (`ordersByDeclaration_iff`).
-/

namespace Saci.WorkflowOrder

open Kahn (Halt release foldlM_release)

inductive NodeKind
  | source
  | processor
  | sink
  deriving DecidableEq

structure LinkSpec where
  «from» : String
  «to» : String
  deriving DecidableEq

/-- The part of a workflow spec that its order is about: the ids of the nodes, and the links. -/
structure WorkflowSpec where
  id : String
  sources : List String
  wasm : List String
  plugin : List String
  sinks : List String
  links : List LinkSpec

namespace WorkflowSpec

/-- Every declared node's id and kind, in declaration order. -/
def nodes (spec : WorkflowSpec) : List (String × NodeKind) :=
  spec.sources.map (·, .source) ++ spec.wasm.map (·, .processor) ++
    spec.plugin.map (·, .processor) ++ spec.sinks.map (·, .sink)

/-- `id_to_idx`: of nodes with one id the last is found. -/
def idToIdx (spec : WorkflowSpec) (id : String) : Option Nat :=
  (spec.nodes.zipIdx.reverse.find? fun entry => entry.1.1 = id).map (·.2)

/-- A link between known nodes, as indices. -/
def edge (spec : WorkflowSpec) (link : LinkSpec) : Option (Nat × Nat) :=
  match spec.idToIdx link.from, spec.idToIdx link.to with
  | some i, some j => some (i, j)
  | _, _ => none

/-- The links that are followed; one with an unknown id is skipped. -/
def edges (spec : WorkflowSpec) : List (Nat × Nat) := spec.links.filterMap spec.edge

end WorkflowSpec

/-! ## The traversal -/

/-- One node of the frontier. -/
def visit (adjacency : Nat → List Nat) (state : List Nat × (Nat → Nat) × List Nat) (node : Nat) :
    Except Halt (List Nat × (Nat → Nat) × List Nat) := do
  let (order, state) := state
  let state ← (adjacency node).foldlM release state
  .ok (order ++ [node], state)

/-- The loop over the frontiers, for so many rounds. -/
def drainQueue (adjacency : Nat → List Nat) (rounds : Nat) (queue : List Nat) (inDegree : Nat → Nat)
    (order : List Nat) (visited : Nat) : Except Halt (List Nat × Nat) :=
  if queue.isEmpty then .ok (order, visited)
  else
    match rounds with
    | 0 => .error .outOfRounds
    | rounds + 1 => do
      let (order, inDegree, nextQueue) ← queue.foldlM (visit adjacency) (order, inDegree, [])
      drainQueue adjacency rounds nextQueue inDegree order (visited + queue.length)

namespace WorkflowSpec

def topologicalOrder (spec : WorkflowSpec) (rounds : Nat) :
    Except Halt (SaciResult (List Nat)) := do
  let n := spec.nodes.length
  let inDegree := Kahn.inDegreeOf spec.edges
  let queue := (List.range n).filter fun i => inDegree i = 0
  let (order, visited) ← drainQueue (Kahn.adjacencyOf spec.edges) rounds queue inDegree [] 0
  .ok <|
    if visited ≠ n then
      .error (.configuration s!"workflow '{spec.id}': links contain a cycle")
    else .ok order

/-! ## What the order is for -/

/-- The node ids are distinct, and links are between declared nodes. -/
structure WellLinked (spec : WorkflowSpec) : Prop where
  distinct : (spec.nodes.map Prod.fst).Nodup
  declared : ∀ link ∈ spec.links,
    link.from ∈ spec.nodes.map Prod.fst ∧ link.to ∈ spec.nodes.map Prod.fst

/-- The link at place `p` leads from the `i`-th to the `j`-th node. -/
def LinkAt (spec : WorkflowSpec) (p i j : Nat) : Prop :=
  ∃ link, spec.links[p]? = some link ∧ (spec.nodes.map Prod.fst)[i]? = some link.from ∧
    (spec.nodes.map Prod.fst)[j]? = some link.to

/-- A link leads from the `i`-th to the `j`-th node. -/
def Links (spec : WorkflowSpec) (i j : Nat) : Prop := ∃ p, spec.LinkAt p i j

/-- The links contain a cycle. -/
def Cyclic (spec : WorkflowSpec) : Prop := ∃ i, Relation.TransGen spec.Links i i

/-- The length of the longest link path that ends at a node. -/
def IsDepth (spec : WorkflowSpec) (j d : Nat) : Prop :=
  IsGreatest {k | Kahn.ChainInto spec.Links k j} d

/-- An order of the nodes: each once, and each after all nodes that link into it. -/
structure Sorted (spec : WorkflowSpec) (order : List Nat) : Prop where
  perm : order.Perm (List.range spec.nodes.length)
  after : ∀ before j rest, order = before ++ j :: rest → ∀ i, spec.Links i j → i ∈ before

/-- By depth. -/
def ByDepth (spec : WorkflowSpec) (order : List Nat) : Prop :=
  order.Pairwise fun u v => ∃ du dv, spec.IsDepth u du ∧ spec.IsDepth v dv ∧ du ≤ dv

/-- By depth, and within one depth in the order of declaration. -/
def ByDeclaration (spec : WorkflowSpec) (order : List Nat) : Prop :=
  order.Pairwise fun u v =>
    ∃ du dv, spec.IsDepth u du ∧ spec.IsDepth v dv ∧ (du < dv ∨ du = dv ∧ u < v)

/-- What the traversal is meant to do: to return, to report a cycle exactly when there is one, and
otherwise to give the order of the nodes by depth and declaration. -/
def OrdersByDeclaration (spec : WorkflowSpec) : Prop :=
  ∃ answer : SaciResult (List Nat),
    (∀ rounds, spec.nodes.length ≤ rounds → spec.topologicalOrder rounds = .ok answer) ∧
    ((∃ e, answer = .error e) ↔ spec.Cyclic) ∧
    ∀ order, answer = .ok order → spec.Sorted order ∧ spec.ByDeclaration order

/-- Of two nodes of one depth, some link into the later one from the depth before comes after all
such links into the earlier one: by the node it starts from, and then by its place among the
links. -/
def LinksInOrder (spec : WorkflowSpec) : Prop :=
  ∀ d u v, u < v → spec.IsDepth u (d + 1) → spec.IsDepth v (d + 1) →
    ∃ i p, spec.IsDepth i d ∧ spec.LinkAt p i v ∧
      ∀ i' p', spec.IsDepth i' d → spec.LinkAt p' i' u → i' < i ∨ i' = i ∧ p' < p

end WorkflowSpec

/-! ## The loops -/

section
variable {n rounds : Nat} {adjacency : Nat → List Nat} {inDegree : Nat → Nat}
  {done queue targets : List Nat}

/-- The frontier's nodes are put in order, and the targets of all of them are released. -/
theorem foldlM_visit (queue order : List Nat) (state : (Nat → Nat) × List Nat) :
    queue.foldlM (visit adjacency) (order, state) =
      ((queue.flatMap adjacency).foldlM release state).map (order ++ queue, ·) := by
  induction queue generalizing order state with
  | nil => simp [Except.map, pure, Except.pure]
  | cons node queue ih =>
    rw [List.foldlM_cons, List.flatMap_cons, List.foldlM_append, visit]
    cases hrelease : (adjacency node).foldlM release state with
    | error halt => rfl
    | ok state' =>
      rw [ok_bind, ok_bind, ok_bind, ih, List.append_assoc, List.singleton_append]

/-- The traversal peels the graph layer by layer. -/
theorem drainQueue_eq (hadj : ∀ i < n, ∀ j ∈ adjacency i, j < n)
    (h : Kahn.Settled n adjacency done queue inDegree) (hrounds : n ≤ done.length + rounds)
    (order : List Nat) (visited : Nat) :
    drainQueue adjacency rounds queue inDegree order visited =
      .ok (order ++ (Kahn.layersWithin adjacency rounds queue inDegree).flatten,
        visited + (Kahn.layersWithin adjacency rounds queue inDegree).flatten.length) := by
  induction rounds generalizing done queue inDegree order visited with
  | zero =>
    have hle := h.length_le
    rw [List.length_append] at hle
    obtain rfl : queue = [] := List.length_eq_zero_iff.mp (by omega)
    simp [drainQueue, Kahn.layersWithin_nil]
  | succ rounds ih =>
    by_cases hempty : queue = []
    · simp [drainQueue, hempty, Kahn.layersWithin_nil]
    · have hpos := List.length_pos_iff.mpr hempty
      rw [drainQueue, Kahn.layersWithin, if_neg (by simpa using hempty),
        if_neg (by simpa using hempty)]
      dsimp only
      rw [foldlM_visit, foldlM_release h.count_le]
      have hnext := ih (h.step_all hadj) (by rw [List.length_append]; omega) (order ++ queue)
        (visited + queue.length)
      rw [List.flatten_cons, List.length_append, ← List.append_assoc, ← Nat.add_assoc]
      exact hnext

end

/-! ## The links as edges -/

namespace WorkflowSpec

variable {spec : WorkflowSpec}

/-- With distinct ids, an id is found where it is declared. -/
theorem idToIdx_eq_some_iff (h : spec.WellLinked) {id : String} {i : Nat} :
    spec.idToIdx id = some i ↔ (spec.nodes.map Prod.fst)[i]? = some id := by
  have hmem : ∀ {i}, (spec.nodes.map Prod.fst)[i]? = some id ↔
      ∃ kind, ((id, kind), i) ∈ spec.nodes.zipIdx := by
    intro i
    simp [List.mem_zipIdx_iff_getElem?, List.getElem?_map]
  have hfound : ∀ {i}, spec.idToIdx id = some i → (spec.nodes.map Prod.fst)[i]? = some id := by
    intro i hfind
    obtain ⟨⟨⟨id', kind⟩, i'⟩, hentry, rfl⟩ := Option.map_eq_some_iff.mp hfind
    obtain rfl : id' = id := by simpa using List.find?_some hentry
    exact hmem.mpr ⟨kind, List.mem_reverse.mp (List.mem_of_find?_eq_some hentry)⟩
  refine ⟨hfound, fun hget => ?_⟩
  obtain ⟨kind, hentry⟩ := hmem.mp hget
  cases hfind : spec.idToIdx id with
  | none =>
    have hnone := List.find?_eq_none.mp (Option.map_eq_none_iff.mp hfind) _
      (List.mem_reverse.mpr hentry)
    simp at hnone
  | some i' =>
    obtain ⟨hlt, heq⟩ := List.getElem?_eq_some_iff.mp (hfound hfind)
    obtain ⟨hlt', heq'⟩ := List.getElem?_eq_some_iff.mp hget
    rw [(h.distinct.getElem_inj_iff).mp (heq.trans heq'.symm)]

theorem exists_idToIdx (h : spec.WellLinked) {id : String}
    (hmem : id ∈ spec.nodes.map Prod.fst) : ∃ i, spec.idToIdx id = some i := by
  obtain ⟨i, hget⟩ := List.mem_iff_getElem?.mp hmem
  exact ⟨i, (idToIdx_eq_some_iff h).mpr hget⟩

theorem edge_eq_some_iff {link : LinkSpec} {i j : Nat} :
    spec.edge link = some (i, j) ↔ spec.idToIdx link.from = some i ∧ spec.idToIdx link.to = some j := by
  rw [edge]
  split
  · next i' j' hi hj => simp [hi, hj]
  · next hnone =>
    refine ⟨nofun, fun ⟨hi, hj⟩ => ?_⟩
    exact absurd hj (hnone i j hi)

/-- No link of a well-linked workflow is skipped, so an edge stands where its link does. -/
theorem getElem?_edges (h : spec.WellLinked) {p i j : Nat} :
    spec.edges[p]? = some (i, j) ↔ spec.LinkAt p i j := by
  have hsome : ∀ link ∈ spec.links, ∃ edge, spec.edge link = some edge := by
    intro link hmem
    obtain ⟨hfrom, hto⟩ := h.declared link hmem
    obtain ⟨i, hi⟩ := exists_idToIdx h hfrom
    obtain ⟨j, hj⟩ := exists_idToIdx h hto
    exact ⟨(i, j), edge_eq_some_iff.mpr ⟨hi, hj⟩⟩
  rw [edges, getElem?_filterMap hsome p, Option.bind_eq_some_iff]
  refine exists_congr fun link => and_congr_right fun _ => ?_
  rw [edge_eq_some_iff, idToIdx_eq_some_iff h, idToIdx_eq_some_iff h]

theorem links_iff (h : spec.WellLinked) {i j : Nat} :
    spec.Links i j ↔ j ∈ Kahn.adjacencyOf spec.edges i := by
  rw [Kahn.mem_adjacencyOf, List.mem_iff_getElem?]
  exact exists_congr fun p => (getElem?_edges h).symm

theorem links_eq (h : spec.WellLinked) :
    spec.Links = fun i j => j ∈ Kahn.adjacencyOf spec.edges i := by
  funext i j
  exact propext (links_iff h)

theorem isDepth_iff (h : spec.WellLinked) {j d : Nat} :
    spec.IsDepth j d ↔ Kahn.IsDepth (Kahn.adjacencyOf spec.edges) j d := by
  rw [IsDepth, links_eq h, Kahn.IsDepth]

theorem cyclic_iff (h : spec.WellLinked) :
    spec.Cyclic ↔ Kahn.Cyclic (Kahn.adjacencyOf spec.edges) := by
  rw [Cyclic, links_eq h, Kahn.Cyclic]

/-- Links are between nodes of the workflow. -/
theorem Links.lt {i j : Nat} (h : spec.Links i j) :
    i < spec.nodes.length ∧ j < spec.nodes.length := by
  obtain ⟨p, link, _, hi, hj⟩ := h
  have hi := (List.getElem?_eq_some_iff.mp hi).1
  have hj := (List.getElem?_eq_some_iff.mp hj).1
  rw [List.length_map] at hi hj
  exact ⟨hi, hj⟩

/-! ## The layers of a workflow -/

/-- The frontiers of the traversal. -/
def layers (spec : WorkflowSpec) : List (List Nat) :=
  Kahn.layers spec.nodes.length (Kahn.adjacencyOf spec.edges) (Kahn.inDegreeOf spec.edges)

section
variable (h : spec.WellLinked)
include h

theorem adjacency_lt (i j : Nat) (hj : j ∈ Kahn.adjacencyOf spec.edges i) :
    i < spec.nodes.length ∧ j < spec.nodes.length := ((links_iff h).mpr hj).lt

theorem edges_lt (edge : Nat × Nat) (hedge : edge ∈ spec.edges) :
    edge.1 < spec.nodes.length ∧ edge.2 < spec.nodes.length :=
  adjacency_lt h edge.1 edge.2 (Kahn.mem_adjacencyOf.mpr hedge)

/-- The traversal gives the layers one after the other, or says that nodes are left over. -/
theorem topologicalOrder_eq {rounds : Nat} (hrounds : spec.nodes.length ≤ rounds) :
    spec.topologicalOrder rounds = .ok
      (if spec.layers.flatten.length ≠ spec.nodes.length then
        .error (.configuration s!"workflow '{spec.id}': links contain a cycle")
      else .ok spec.layers.flatten) := by
  have hadj : ∀ i < spec.nodes.length, ∀ j ∈ Kahn.adjacencyOf spec.edges i, j < spec.nodes.length :=
    fun i _ j hj => (adjacency_lt h i j hj).2
  have hdrain := drainQueue_eq hadj (Kahn.settled_start (edges_lt h)) (by simpa using hrounds) [] 0
  rw [List.nil_append, Nat.zero_add,
    Kahn.layersWithin_fuel hadj (Kahn.settled_start (edges_lt h)) (by simpa using hrounds)
      (by simp : spec.nodes.length ≤ ([] : List Nat).length + spec.nodes.length)] at hdrain
  rw [topologicalOrder, hdrain]
  rfl

/-- A layer holds the nodes of one depth. -/
theorem depth_of_layer {d : Nat} {layer : List Nat} (hlayer : spec.layers[d]? = some layer) :
    ∀ j ∈ layer, spec.IsDepth j d :=
  fun j hj => (isDepth_iff h).mpr (Kahn.depth_of_layer (edges_lt h) hlayer j hj)

/-- Every node is in a layer exactly when the links contain no cycle. -/
theorem mem_layers_iff :
    (∀ i < spec.nodes.length, i ∈ spec.layers.flatten) ↔ ¬spec.Cyclic := by
  rw [cyclic_iff h]
  exact Kahn.mem_layers_iff (edges_lt h)

theorem perm_layers_iff :
    spec.layers.flatten.Perm (List.range spec.nodes.length) ↔ ¬spec.Cyclic := by
  rw [cyclic_iff h]
  exact Kahn.perm_layers_iff (edges_lt h)

/-- The count of the visited nodes finds the cycles. -/
theorem length_layers_iff : spec.layers.flatten.length = spec.nodes.length ↔ ¬spec.Cyclic := by
  rw [cyclic_iff h]
  exact Kahn.length_layers_iff (edges_lt h)

/-! ## The order of the layers -/

/-- Without a cycle, the layer of a node is found by its depth. -/
theorem mem_layer_of_depth (hacyclic : ¬spec.Cyclic) {i d : Nat} (hi : i < spec.nodes.length)
    (hd : spec.IsDepth i d) : ∃ layer, spec.layers[d]? = some layer ∧ i ∈ layer := by
  obtain ⟨layer, hlayer, hmem⟩ := List.mem_flatten.mp ((mem_layers_iff h).mpr hacyclic i hi)
  obtain ⟨k, hk⟩ := List.mem_iff_getElem?.mp hlayer
  rw [((isDepth_iff h).mp hd).unique ((isDepth_iff h).mp (depth_of_layer h hk i hmem))]
  exact ⟨layer, hk, hmem⟩

/-- A relation that holds within the layers, and from a node to a deeper one, holds along the
order. -/
theorem pairwise_layers {R : Nat → Nat → Prop}
    (hwithin : ∀ layer ∈ spec.layers, layer.Pairwise R)
    (hdeeper : ∀ u v du dv, spec.IsDepth u du → spec.IsDepth v dv → du < dv → R u v) :
    spec.layers.flatten.Pairwise R := by
  refine List.pairwise_flatten.mpr ⟨hwithin, List.pairwise_iff_getElem.mpr ?_⟩
  intro du dv hdu hdv hlt u hu v hv
  exact hdeeper u v du dv (depth_of_layer h (List.getElem?_eq_getElem hdu) u hu)
    (depth_of_layer h (List.getElem?_eq_getElem hdv) v hv) hlt

theorem byDepth_layers : spec.ByDepth spec.layers.flatten := by
  refine pairwise_layers h (fun layer hlayer => ?_)
    fun u v du dv hu hv hlt => ⟨du, dv, hu, hv, hlt.le⟩
  obtain ⟨d, hd⟩ := List.mem_iff_getElem?.mp hlayer
  refine List.pairwise_of_forall_mem_list fun u hu v hv => ?_
  exact ⟨d, d, depth_of_layer h hd u hu, depth_of_layer h hd v hv, le_refl d⟩

/-- The order is by declaration within each depth exactly when each layer is. -/
theorem byDeclaration_layers_iff :
    spec.ByDeclaration spec.layers.flatten ↔ ∀ layer ∈ spec.layers, layer.Pairwise (· < ·) := by
  constructor
  · intro hordered layer hlayer
    obtain ⟨d, hd⟩ := List.mem_iff_getElem?.mp hlayer
    refine (hordered.sublist (List.sublist_flatten_of_mem hlayer)).imp_of_mem ?_
    rintro u v hu hv ⟨du, dv, hdu, hdv, hlt⟩
    have hu := ((isDepth_iff h).mp hdu).unique ((isDepth_iff h).mp (depth_of_layer h hd u hu))
    have hv := ((isDepth_iff h).mp hdv).unique ((isDepth_iff h).mp (depth_of_layer h hd v hv))
    omega
  · intro hlayers
    refine pairwise_layers h (fun layer hlayer => ?_)
      fun u v du dv hu hv hlt => ⟨du, dv, hu, hv, .inl hlt⟩
    obtain ⟨d, hd⟩ := List.mem_iff_getElem?.mp hlayer
    refine (hlayers layer hlayer).imp_of_mem fun {u v} hu hv hlt => ?_
    exact ⟨d, d, depth_of_layer h hd u hu, depth_of_layer h hd v hv, .inr ⟨rfl, hlt⟩⟩

theorem layers_increasing_iff (hacyclic : ¬spec.Cyclic) :
    (∀ layer ∈ spec.layers, layer.Pairwise (· < ·)) ↔ spec.LinksInOrder := by
  have hincreasing : (∀ layer ∈ spec.layers, layer.Pairwise (· < ·)) ↔ _ :=
    Kahn.ordered_layersWithin_iff (fun i _ j hj => (adjacency_lt h i j hj).2) (Kahn.settled_start (edges_lt h))
      (List.pairwise_lt_range.filter _)
  constructor
  · intro hlayers d u v huv hu hv
    have hnode : ∀ {j}, spec.IsDepth j (d + 1) → j < spec.nodes.length := by
      intro j hj
      cases hj.1 with
      | step _ hlink => exact hlink.lt.2
    obtain ⟨next, hnext, hunext⟩ := mem_layer_of_depth h hacyclic (hnode hu) hu
    obtain ⟨next', hnext', hvnext⟩ := mem_layer_of_depth h hacyclic (hnode hv) hv
    obtain rfl : next = next' := Option.some.inj (hnext.symm.trans hnext')
    obtain ⟨layer, hlayer⟩ : ∃ layer, spec.layers[d]? = some layer := by
      have hlt := (List.getElem?_eq_some_iff.mp hnext).1
      exact ⟨_, List.getElem?_eq_getElem (by omega)⟩
    have hsorted := hlayers layer (List.mem_of_getElem? hlayer)
    obtain ⟨i, hi, p, hedge, hlast⟩ := (Kahn.lastBefore_iff hsorted huv.ne).mp
      (hincreasing.mp hlayers d layer next hlayer hnext hsorted u hunext v hvnext huv)
    refine ⟨i, p, depth_of_layer h hlayer i hi, (getElem?_edges h).mp hedge, ?_⟩
    intro i' p' hdepth hlink
    obtain ⟨layer', hlayer', hi'⟩ := mem_layer_of_depth h hacyclic (Links.lt ⟨p', hlink⟩).1 hdepth
    obtain rfl : layer = layer' := Option.some.inj (hlayer.symm.trans hlayer')
    exact hlast i' hi' p' ((getElem?_edges h).mpr hlink)
  · intro horder
    refine hincreasing.mpr fun d layer next hlayer hnext hsorted u hu v hv huv => ?_
    obtain ⟨i, p, hdepth, hlink, hlast⟩ := horder d u v huv (depth_of_layer h hnext u hu)
      (depth_of_layer h hnext v hv)
    obtain ⟨layer', hlayer', hi⟩ := mem_layer_of_depth h hacyclic (Links.lt ⟨p, hlink⟩).1 hdepth
    obtain rfl : layer = layer' := Option.some.inj (hlayer.symm.trans hlayer')
    refine (Kahn.lastBefore_iff hsorted huv.ne).mpr ⟨i, hi, p, (getElem?_edges h).mpr hlink, ?_⟩
    intro i' hi' p' hedge
    exact hlast i' p' (depth_of_layer h hlayer i' hi') ((getElem?_edges h).mp hedge)

/-- Nodes ordered by depth come after all nodes that link into them. -/
theorem sorted_layers (hacyclic : ¬spec.Cyclic) : spec.Sorted spec.layers.flatten := by
  refine ⟨(perm_layers_iff h).mpr hacyclic, fun before j rest heq i hlink => ?_⟩
  have hmem := (mem_layers_iff h).mpr hacyclic i hlink.lt.1
  have hordered := byDepth_layers h
  rw [ByDepth, heq] at hordered
  rw [heq] at hmem
  have hdeeper : ∀ {di dj}, spec.IsDepth i di → spec.IsDepth j dj → di < dj :=
    fun hi hj => hj.2 (Kahn.ChainInto.step hi.1 hlink)
  rcases List.mem_append.mp hmem with hbefore | hin
  · exact hbefore
  · exfalso
    rcases List.mem_cons.mp hin with rfl | hrest
    · exact hacyclic ⟨i, .single hlink⟩
    · obtain ⟨dj, di, hj, hi, hle⟩ :=
        (List.pairwise_cons.mp (List.pairwise_append.mp hordered).2.1).1 i hrest
      exact absurd hle (hdeeper hi hj).not_ge

end

/-! ## What the traversal does -/

/-- The traversal returns without an underflow, reports a cycle exactly when there is one, and
otherwise gives the nodes sorted and by depth. -/
theorem topologicalOrder_spec (h : spec.WellLinked) : ∃ answer : SaciResult (List Nat),
    (∀ rounds, spec.nodes.length ≤ rounds → spec.topologicalOrder rounds = .ok answer) ∧
    ((∃ e, answer = .error e) ↔ spec.Cyclic) ∧
    ∀ order, answer = .ok order → spec.Sorted order ∧ spec.ByDepth order ∧
      (spec.ByDeclaration order ↔ spec.LinksInOrder) := by
  refine ⟨_, fun rounds hrounds => topologicalOrder_eq h hrounds, ?_, ?_⟩
  · by_cases hcyclic : spec.Cyclic
    · rw [if_pos (mt (length_layers_iff h).mp (not_not_intro hcyclic))]
      exact iff_of_true ⟨_, rfl⟩ hcyclic
    · rw [if_neg (not_not_intro ((length_layers_iff h).mpr hcyclic))]
      exact iff_of_false nofun hcyclic
  · intro order horder
    split_ifs at horder with hlength
    have hacyclic := (length_layers_iff h).mp (not_not.mp hlength)
    obtain rfl := Except.ok.inj horder
    refine ⟨sorted_layers h hacyclic, byDepth_layers h, ?_⟩
    rw [byDeclaration_layers_iff h, layers_increasing_iff h hacyclic]

/-- The order is the one by depth and declaration exactly when the links contain a cycle or lead
into the nodes of each depth in the order of their declaration. -/
theorem ordersByDeclaration_iff (h : spec.WellLinked) :
    spec.OrdersByDeclaration ↔ spec.Cyclic ∨ spec.LinksInOrder := by
  obtain ⟨answer, hanswer, herror, hok⟩ := topologicalOrder_spec h
  constructor
  · rintro ⟨answer', hanswer', _, hok'⟩
    obtain rfl : answer = answer' := Except.ok.inj
      ((hanswer _ (le_refl _)).symm.trans (hanswer' _ (le_refl _)))
    cases answer with
    | error e => exact .inl (herror.mp ⟨e, rfl⟩)
    | ok order => exact .inr ((hok order rfl).2.2.mp (hok' order rfl).2)
  · intro hcases
    refine ⟨answer, hanswer, herror, fun order horder => ?_⟩
    obtain ⟨hsorted, _, hdeclaration⟩ := hok order horder
    refine ⟨hsorted, hdeclaration.mpr (hcases.resolve_left fun hcyclic => ?_)⟩
    obtain ⟨e, he⟩ := herror.mpr hcyclic
    rw [he] at horder
    cases horder

end WorkflowSpec

/-! ## Two workflows -/

namespace Sample

/-- A source that leads into two processors. -/
def fanOut (links : List LinkSpec) : WorkflowSpec where
  id := "w"
  sources := ["s"]
  wasm := ["a", "b"]
  plugin := []
  sinks := []
  links := links

/-- The links as the processors are declared. -/
def inOrder : WorkflowSpec := fanOut [⟨"s", "a"⟩, ⟨"s", "b"⟩]

/-- The links the other way round. -/
def swapped : WorkflowSpec := fanOut [⟨"s", "b"⟩, ⟨"s", "a"⟩]

theorem wellLinked_inOrder : inOrder.WellLinked := by
  constructor <;> decide +kernel

theorem wellLinked_swapped : swapped.WellLinked := by
  constructor <;> decide +kernel

/-- Links in the order of declaration keep it. -/
theorem ordersByDeclaration_inOrder : inOrder.OrdersByDeclaration := by
  have hacyclic := (WorkflowSpec.length_layers_iff wellLinked_inOrder).mp (by decide +kernel)
  refine (WorkflowSpec.ordersByDeclaration_iff wellLinked_inOrder).mpr (.inr ?_)
  exact (WorkflowSpec.layers_increasing_iff wellLinked_inOrder hacyclic).mp (by decide +kernel)

/-- The two processors are of one depth, and come out in the order of their links. -/
theorem swapped_out_of_order : swapped.WellLinked ∧ ¬swapped.OrdersByDeclaration := by
  refine ⟨wellLinked_swapped, ?_⟩
  rintro ⟨answer, hanswer, _, hok⟩
  have heq := hanswer _ (le_refl _)
  rw [WorkflowSpec.topologicalOrder_eq wellLinked_swapped (le_refl _), if_neg (by decide +kernel)]
    at heq
  have hdeclaration := (hok _ (Except.ok.inj heq).symm).2
  have hlayers := (WorkflowSpec.byDeclaration_layers_iff wellLinked_swapped).mp hdeclaration
  exact absurd hlayers (by decide +kernel)

end Sample

end Saci.WorkflowOrder
