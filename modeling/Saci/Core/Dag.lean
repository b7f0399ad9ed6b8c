import Mathlib.Data.List.Sort
import Mathlib.Data.Prod.Lex
import Saci.Library.Levels
import Saci.Core.System

/-!
# Stage planning

`saci-core/src/pipeline/dag.rs`: the declarations of the systems are checked against the
registered schemas, with a whole component standing for all of its fields, and the systems are put
into stages by the conflicts between them.
-/

namespace Saci

/-- The schemas of registered components, by name. -/
abbrev SchemaRegistry := String → Option Schema

def Dataset.schemas {R : Type} (data : Dataset R) : SchemaRegistry := fun name =>
  (data.find name).map Registered.schema

/-- A system's declaration with its components expanded into fields. -/
structure ExpandedMeta (T : Type) where
  name : String
  reads : List FieldAccess
  writes : List FieldAccess
  readsResources : List T
  writesResources : List T

variable {T V : Type}

/-- `validate_field`. -/
def validateField (schemas : SchemaRegistry) (fa : FieldAccess) : SaciResult Unit :=
  match schemas fa.component with
  | none =>
    .error <| .configuration <|
      s!"Pipeline: declared access for component '{fa.component}' field '{fa.field}', " ++
      s!"but component '{fa.component}' is not registered"
  | some schema =>
    match schema.indexOf fa.field with
    | none =>
      .error <| .configuration <|
        s!"Pipeline: declared access for field '{fa.component}.{fa.field}', " ++
        "but that field does not exist in the component's schema. Known fields: " ++
        ", ".intercalate (schema.fields.map Field.name)
    | some _ => .ok ()

/-- The fields of components declared as a whole; `access` is the name of the declaration. -/
def expandComponents (schemas : SchemaRegistry) (name access : String) :
    List String → SaciResult (List FieldAccess)
  | [] => .ok []
  | component :: components =>
    match schemas component with
    | none =>
      .error <| .configuration <|
        s!"Pipeline: system '{name}' declares {access} for '{component}', " ++
        "but that component is not registered"
    | some schema => do
      let rest ← expandComponents schemas name access components
      .ok ((schema.fields.map fun field => ⟨component, field.name⟩) ++ rest)

/-- `ExpandedMeta::from_meta`. -/
def ExpandedMeta.fromMeta (schemas : SchemaRegistry) (meta_ : SystemMeta T) :
    SaciResult (ExpandedMeta T) := do
  meta_.reads.forM (validateField schemas)
  meta_.writes.forM (validateField schemas)
  let readsComponents ←
    expandComponents schemas meta_.name "reads_components" meta_.readsComponents
  let writesComponents ←
    expandComponents schemas meta_.name "writes_components" meta_.writesComponents
  .ok {
    name := meta_.name
    reads := meta_.reads ++ readsComponents
    writes := meta_.writes ++ writesComponents
    readsResources := meta_.readsResources
    writesResources := meta_.writesResources }

/-- The expanded declarations of the systems, as the plan computes them. -/
def expandMetas (schemas : SchemaRegistry) (systems : List (SystemEntry T V)) :
    SaciResult (List (ExpandedMeta T)) :=
  systems.mapM fun entry => ExpandedMeta.fromMeta schemas entry.meta_

/-! ## Stages -/

/-- One of the hash indexes: the systems that list a key, in order and once for each time they
list it. -/
def indexBy {K : Type} [DecidableEq K] (keys : ExpandedMeta T → List K)
    (metas : List (ExpandedMeta T)) (key : K) : List Nat :=
  metas.zipIdx.flatMap fun (expanded, i) =>
    ((keys expanded).filter fun k => k = key).map fun _ => i

/-- The edges so far, and the in-degrees they come to. -/
structure Edges where
  edges : List (Nat × Nat)
  inDegree : Nat → Nat

/-- `add_edge`. An edge that was seen is one of the edges. -/
def Edges.add (e : Edges) (i j : Nat) : Edges :=
  if i < j ∧ (i, j) ∉ e.edges then
    ⟨e.edges ++ [(i, j)], Function.update e.inDegree j (e.inDegree j + 1)⟩
  else e

/-- Edges into `j` from all systems that an index has under the keys. -/
def Edges.addFrom {K : Type} (index : K → List Nat) (keys : List K) (j : Nat) (e : Edges) :
    Edges :=
  keys.foldl (fun e key => (index key).foldl (fun e i => e.add i j) e) e

/-- The edges into one system: from the writers of what it reads or writes, and from the readers
of what it writes. -/
def edgesInto [DecidableEq T] (metas : List (ExpandedMeta T)) (e : Edges)
    (meta_j : ExpandedMeta T) (j : Nat) : Edges :=
  let e := e.addFrom (indexBy ExpandedMeta.writes metas) (meta_j.reads ++ meta_j.writes) j
  let e := e.addFrom (indexBy ExpandedMeta.reads metas) meta_j.writes j
  let e := e.addFrom (indexBy ExpandedMeta.writesResources metas)
    (meta_j.readsResources ++ meta_j.writesResources) j
  e.addFrom (indexBy ExpandedMeta.readsResources metas) meta_j.writesResources j

def collectEdges [DecidableEq T] (metas : List (ExpandedMeta T)) : Edges :=
  metas.zipIdx.foldl (fun e (meta_j, j) => edgesInto metas e meta_j j) ⟨[], fun _ => 0⟩

/-- `partition_point`, on a list whose first part meets the predicate and whose second does
not. -/
def partitionPoint {α : Type} (p : α → Bool) (l : List α) : Nat := (l.takeWhile p).length

/-- The targets of `i` in the sorted edges. -/
def targetsOf (edges : List (Nat × Nat)) (i : Nat) : List Nat :=
  let start := partitionPoint (fun edge => edge.1 < i) edges
  let stop := partitionPoint (fun edge => edge.1 ≤ i) edges
  ((edges.drop start).take (stop - start)).map (·.2)

/-- The lexicographic order on pairs, by which the edges are sorted. -/
def edgeLe (a b : Nat × Nat) : Prop := a.1 < b.1 ∨ a.1 = b.1 ∧ a.2 ≤ b.2

instance : DecidableRel edgeLe := fun _ _ => inferInstanceAs (Decidable (_ ∨ _))

/-- The level of every system. A system has fewer edges into it than there are systems, so the
`u32` counters of the source are numbers here. -/
def levels [DecidableEq T] (n : Nat) (metas : List (ExpandedMeta T)) : Nat → Nat :=
  let e := collectEdges metas
  let edges := e.edges.insertionSort edgeLe
  ((Kahn.Worklist.start n e.inDegree).drain (targetsOf edges) n).levels

/-- `build_stages_inner`. -/
def buildStagesInner [DecidableEq T] (systems : List (SystemEntry T V))
    (metas : List (ExpandedMeta T)) : List (List Nat) × List SystemConfig :=
  if systems.isEmpty then ([], [])
  else
    let configs := systems.map SystemEntry.config
    let n := systems.length
    let level := levels n metas
    let maxLevel := ((List.range n).map level).max?.getD 0
    ((List.range (maxLevel + 1)).map fun l => (List.range n).filter fun i => level i = l, configs)

end Saci
