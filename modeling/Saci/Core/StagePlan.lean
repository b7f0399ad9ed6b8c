import Saci.Core.Dag

/-!
# What a plan guarantees

The edges of the planner are the conflicts between systems, from the earlier one to the later one.
So the stages are a partition of the systems, conflicting systems are in stages in the order they
were added, and the stage of a system is as early as its longest chain of conflicts allows.
-/

namespace Saci

variable {T V : Type}

/-! ## Declarations -/

/-- A list of declared fields and whole components covers a field of the registered schemas. -/
def Declares (schemas : SchemaRegistry) (fields : List FieldAccess) (components : List String)
    (fa : FieldAccess) : Prop :=
  fa ∈ fields ∨ fa.component ∈ components ∧
    ∃ schema, schemas fa.component = some schema ∧ ∃ field ∈ schema.fields, field.name = fa.field

/-- The fields a system declares to read. -/
def SystemMeta.ReadsField (schemas : SchemaRegistry) (m : SystemMeta T) : FieldAccess → Prop :=
  Declares schemas m.reads m.readsComponents

/-- The fields a system declares to write. -/
def SystemMeta.WritesField (schemas : SchemaRegistry) (m : SystemMeta T) : FieldAccess → Prop :=
  Declares schemas m.writes m.writesComponents

/-- One of two systems writes a field or a resource that the other reads or writes. -/
def SystemMeta.Conflicts (schemas : SchemaRegistry) (a b : SystemMeta T) : Prop :=
  (∃ fa, a.WritesField schemas fa ∧ (b.ReadsField schemas fa ∨ b.WritesField schemas fa) ∨
      b.WritesField schemas fa ∧ (a.ReadsField schemas fa ∨ a.WritesField schemas fa)) ∨
    ∃ r, r ∈ a.writesResources ∧ (r ∈ b.readsResources ∨ r ∈ b.writesResources) ∨
      r ∈ b.writesResources ∧ (r ∈ a.readsResources ∨ r ∈ a.writesResources)

theorem mem_expandComponents {schemas : SchemaRegistry} {name access : String}
    {components : List String} {fields : List FieldAccess} {fa : FieldAccess}
    (h : expandComponents schemas name access components = .ok fields) :
    fa ∈ fields ↔ Declares schemas [] components fa := by
  induction components generalizing fields with
  | nil =>
    cases h
    simp [Declares]
  | cons component components ih =>
    rw [expandComponents] at h
    rcases hschema : schemas component with _ | schema
    · simp [hschema] at h
    · simp only [hschema] at h
      obtain ⟨rest, hrest, hfields⟩ := bind_eq_ok_iff.mp h
      cases hfields
      have ih := ih hrest
      simp only [Declares, List.not_mem_nil, false_or] at ih
      rw [List.mem_append, ih]
      simp only [Declares, List.not_mem_nil, false_or, List.mem_map, List.mem_cons]
      constructor
      · rintro (⟨field, hfield, rfl⟩ | ⟨hmem, hdecl⟩)
        · exact ⟨.inl rfl, schema, hschema, field, hfield, rfl⟩
        · exact ⟨.inr hmem, hdecl⟩
      · rintro ⟨heq | hmem, schema', hschema', field, hfield, hname⟩
        · rw [heq, hschema] at hschema'
          cases hschema'
          exact .inl ⟨field, hfield, by rw [hname, ← heq]⟩
        · exact .inr ⟨hmem, schema', hschema', field, hfield, hname⟩

/-- What an expanded declaration lists. -/
structure ExpandedMeta.Expands (schemas : SchemaRegistry) (m : SystemMeta T)
    (e : ExpandedMeta T) : Prop where
  reads : ∀ fa, fa ∈ e.reads ↔ m.ReadsField schemas fa
  writes : ∀ fa, fa ∈ e.writes ↔ m.WritesField schemas fa
  readsResources : e.readsResources = m.readsResources
  writesResources : e.writesResources = m.writesResources

theorem ExpandedMeta.expands_of_fromMeta {schemas : SchemaRegistry} {m : SystemMeta T}
    {e : ExpandedMeta T} (h : ExpandedMeta.fromMeta schemas m = .ok e) : e.Expands schemas m := by
  rw [ExpandedMeta.fromMeta] at h
  obtain ⟨_, -, h⟩ := bind_eq_ok_iff.mp h
  obtain ⟨_, -, h⟩ := bind_eq_ok_iff.mp h
  obtain ⟨readsComponents, hreads, h⟩ := bind_eq_ok_iff.mp h
  obtain ⟨writesComponents, hwrites, h⟩ := bind_eq_ok_iff.mp h
  cases h
  refine ⟨fun fa => ?_, fun fa => ?_, rfl, rfl⟩
  · rw [List.mem_append, mem_expandComponents hreads]
    simp [SystemMeta.ReadsField, Declares]
  · rw [List.mem_append, mem_expandComponents hwrites]
    simp [SystemMeta.WritesField, Declares]

/-- The conflicts of two expanded declarations. -/
def ExpandedMeta.Conflicts (a b : ExpandedMeta T) : Prop :=
  ((∃ fa ∈ b.reads ++ b.writes, fa ∈ a.writes) ∨ ∃ fa ∈ b.writes, fa ∈ a.reads) ∨
    (∃ r ∈ b.readsResources ++ b.writesResources, r ∈ a.writesResources) ∨
      ∃ r ∈ b.writesResources, r ∈ a.readsResources

theorem ExpandedMeta.Expands.conflicts_iff {schemas : SchemaRegistry} {ma mb : SystemMeta T}
    {a b : ExpandedMeta T} (ha : a.Expands schemas ma) (hb : b.Expands schemas mb) :
    a.Conflicts b ↔ ma.Conflicts schemas mb := by
  simp only [ExpandedMeta.Conflicts, SystemMeta.Conflicts, List.mem_append, ha.reads, ha.writes,
    hb.reads, hb.writes, ha.readsResources, ha.writesResources, hb.readsResources,
    hb.writesResources]
  grind

/-! ## Edges -/

section
variable {K : Type} {e : Edges} {i j : Nat} {edge : Nat × Nat}
  {metas : List (ExpandedMeta T)}

theorem mem_indexBy [DecidableEq K] {keys : ExpandedMeta T → List K} {key : K} :
    i ∈ indexBy keys metas key ↔ ∃ m, metas[i]? = some m ∧ key ∈ keys m := by
  simp only [indexBy, List.mem_flatMap, List.mem_map, List.mem_filter, decide_eq_true_eq]
  constructor
  · rintro ⟨⟨m, i'⟩, hm, k, ⟨hk, rfl⟩, rfl⟩
    exact ⟨m, List.mem_zipIdx_iff_getElem?.mp hm, hk⟩
  · rintro ⟨m, hm, hk⟩
    exact ⟨(m, i), List.mem_zipIdx_iff_getElem?.mpr hm, key, ⟨hk, rfl⟩, rfl⟩

/-- No edge twice, and the in-degrees count the edges. -/
structure Edges.Counted (e : Edges) : Prop where
  nodup : e.edges.Nodup
  inDegree : ∀ j, e.inDegree j = Kahn.inDegreeOf e.edges j

theorem Edges.mem_add : edge ∈ (e.add i j).edges ↔ edge ∈ e.edges ∨ edge = (i, j) ∧ i < j := by
  rw [Edges.add]
  split_ifs with h
  · simp [h.1]
  · grind

theorem Edges.Counted.add (h : e.Counted) : (e.add i j).Counted := by
  rw [Edges.add]
  split_ifs with hnew
  · refine ⟨?_, fun k => ?_⟩
    · exact List.nodup_append.mpr ⟨h.nodup, List.nodup_singleton _, by grind⟩
    · dsimp only
      rw [Function.update_apply, Kahn.inDegreeOf, List.filter_append, List.length_append]
      by_cases hk : k = j
      · rw [if_pos hk, h.inDegree j, hk, Kahn.inDegreeOf]
        simp
      · rw [if_neg hk, h.inDegree k, Kahn.inDegreeOf]
        simp [Ne.symm hk]
  · exact h

theorem Edges.mem_foldl_add {sources : List Nat} :
    edge ∈ (sources.foldl (fun e i => e.add i j) e).edges ↔
      edge ∈ e.edges ∨ ∃ i ∈ sources, edge = (i, j) ∧ i < j := by
  induction sources generalizing e with
  | nil => simp
  | cons i sources ih =>
    rw [List.foldl_cons, ih, Edges.mem_add]
    simp only [List.mem_cons, exists_eq_or_imp, or_assoc]

theorem Edges.mem_addFrom {index : K → List Nat} {keys : List K} :
    edge ∈ (e.addFrom index keys j).edges ↔
      edge ∈ e.edges ∨ ∃ key ∈ keys, ∃ i ∈ index key, edge = (i, j) ∧ i < j := by
  rw [Edges.addFrom]
  induction keys generalizing e with
  | nil => simp
  | cons key keys ih =>
    rw [List.foldl_cons, ih, Edges.mem_foldl_add]
    simp only [List.mem_cons, exists_eq_or_imp, or_assoc]

theorem Edges.Counted.addFrom {index : K → List Nat} {keys : List K} (h : e.Counted) :
    (e.addFrom index keys j).Counted := by
  rw [Edges.addFrom]
  refine List.foldlRecOn keys _ h fun e he key _ => ?_
  exact List.foldlRecOn (index key) _ he fun e he i _ => he.add

end

section
variable [DecidableEq T] {e : Edges} {i j : Nat} {edge : Nat × Nat}
  {metas : List (ExpandedMeta T)}

/-- The edges into one system are its conflicts with the systems before it. -/
theorem mem_edgesInto {m : ExpandedMeta T} :
    edge ∈ (edgesInto metas e m j).edges ↔ edge ∈ e.edges ∨
      edge.2 = j ∧ edge.1 < j ∧ ∃ a, metas[edge.1]? = some a ∧ a.Conflicts m := by
  obtain ⟨i, j'⟩ := edge
  simp only [edgesInto, Edges.mem_addFrom, mem_indexBy, ExpandedMeta.Conflicts, Prod.mk.injEq]
  grind

theorem Edges.Counted.edgesInto {m : ExpandedMeta T} (h : e.Counted) :
    (edgesInto metas e m j).Counted :=
  h.addFrom.addFrom.addFrom.addFrom

theorem mem_foldl_edgesInto {rows : List (ExpandedMeta T × Nat)} :
    edge ∈ (rows.foldl (fun e (m, j) => edgesInto metas e m j) e).edges ↔ edge ∈ e.edges ∨
      ∃ m, (m, edge.2) ∈ rows ∧ edge.1 < edge.2 ∧
        ∃ a, metas[edge.1]? = some a ∧ a.Conflicts m := by
  induction rows generalizing e with
  | nil => simp
  | cons row rows ih =>
    obtain ⟨m, j⟩ := row
    rw [List.foldl_cons, ih, mem_edgesInto]
    simp only [List.mem_cons, Prod.mk.injEq]
    grind

/-- The edges of a plan are the conflicts, from the earlier system to the later one. -/
theorem mem_collectEdges :
    (i, j) ∈ (collectEdges metas).edges ↔
      i < j ∧ ∃ a b, metas[i]? = some a ∧ metas[j]? = some b ∧ a.Conflicts b := by
  rw [collectEdges, mem_foldl_edgesInto]
  simp only [List.mem_zipIdx_iff_getElem?, List.not_mem_nil, false_or]
  grind

theorem counted_collectEdges : (collectEdges metas).Counted := by
  rw [collectEdges]
  refine List.foldlRecOn _ _ ⟨List.nodup_nil, fun j => rfl⟩ fun e he row _ => ?_
  exact he.edgesInto

end

/-! ## The sorted edges -/

instance : Std.Total edgeLe := ⟨fun a b => by unfold edgeLe; omega⟩

instance : IsTrans (Nat × Nat) edgeLe := ⟨fun a b c hab hbc => by unfold edgeLe at *; omega⟩

/-- The part of sorted edges between the partition points is the edges from `i`. -/
theorem targetsOf_eq {edges : List (Nat × Nat)} (h : edges.Pairwise edgeLe) (i : Nat) :
    targetsOf edges i = Kahn.adjacencyOf edges i := by
  rw [targetsOf, Kahn.adjacencyOf]
  refine congrArg (List.map fun edge : Nat × Nat => edge.2) ?_
  induction edges with
  | nil => rfl
  | cons edge edges ih =>
    obtain ⟨hfirst, hrest⟩ := List.pairwise_cons.mp h
    have hle : ∀ other ∈ edges, edge.1 ≤ other.1 := by
      intro other hother
      rcases hfirst other hother with hlt | ⟨heq, -⟩
      · exact hlt.le
      · exact heq.le
    have ih := ih hrest
    simp only [partitionPoint] at ih ⊢
    rcases lt_trichotomy edge.1 i with hlt | heq | hgt
    · rw [List.takeWhile_cons_of_pos (by simpa using hlt.le),
        List.takeWhile_cons_of_pos (by simpa using hlt),
        List.filter_cons_of_neg (by simpa using hlt.ne)]
      simpa using ih
    · have hstart : (edges.takeWhile fun edge => edge.1 < i) = [] := by
        rcases edges with _ | ⟨other, edges⟩
        · rfl
        · have := hle other List.mem_cons_self
          exact List.takeWhile_cons_of_neg (by simp; omega)
      rw [hstart] at ih
      rw [List.takeWhile_cons_of_pos (by simp [heq]), List.takeWhile_cons_of_neg (by simp [heq]),
        List.filter_cons_of_pos (by simpa using heq)]
      simpa using ih
    · rw [List.takeWhile_cons_of_neg (by simp; omega), List.takeWhile_cons_of_neg (by simp; omega)]
      refine Eq.symm (List.filter_eq_nil_iff.mpr fun other hother => ?_)
      rcases List.mem_cons.mp hother with rfl | hother
      · simpa using hgt.ne'
      · have := hle other hother
        simp only [decide_eq_true_eq]
        omega

/-! ## Levels -/

section
variable {metas : List (ExpandedMeta T)} {i j n : Nat}

/-- Two systems conflict, and the first was added before the second. -/
def ConflictEdge (metas : List (ExpandedMeta T)) (i j : Nat) : Prop :=
  i < j ∧ ∃ a b, metas[i]? = some a ∧ metas[j]? = some b ∧ a.Conflicts b

theorem ConflictEdge.lt_length (h : ConflictEdge metas i j) : j < metas.length := by
  obtain ⟨-, -, b, -, hb, -⟩ := h
  exact (List.getElem?_eq_some_iff.mp hb).1

variable [DecidableEq T]

theorem mem_targets :
    j ∈ targetsOf ((collectEdges metas).edges.insertionSort edgeLe) i ↔
      ConflictEdge metas i j := by
  rw [targetsOf_eq (List.pairwise_insertionSort _ _), Kahn.mem_adjacencyOf,
    (List.perm_insertionSort _ _).mem_iff, mem_collectEdges, ConflictEdge]

/-- The in-degrees that the planner starts with count the sorted edges. -/
theorem inDegree_eq_remaining (hn : n = metas.length) (j : Nat) :
    (collectEdges metas).inDegree j =
      Kahn.remaining n (targetsOf ((collectEdges metas).edges.insertionSort edgeLe)) [] j := by
  have hsorted := List.pairwise_insertionSort edgeLe (collectEdges metas).edges
  have hperm := List.perm_insertionSort edgeLe (collectEdges metas).edges
  have hlt : ∀ edge ∈ (collectEdges metas).edges.insertionSort edgeLe, edge.1 < n := by
    rintro ⟨i, j⟩ hedge
    obtain ⟨-, a, b, ha, -⟩ := mem_collectEdges.mp (hperm.mem_iff.mp hedge)
    rw [hn]
    exact (List.getElem?_eq_some_iff.mp ha).1
  rw [funext (targetsOf_eq hsorted), ← Kahn.inDegreeOf_eq_remaining hlt,
    counted_collectEdges.inDegree, Kahn.inDegreeOf, Kahn.inDegreeOf]
  exact (hperm.filter _).length_eq.symm

/-- The level of a system is the length of the longest chain of conflicts that ends there. -/
theorem levels_isGreatest (hn : n = metas.length) (j : Nat) :
    IsGreatest {k | Kahn.ChainInto (ConflictEdge metas) k j} (levels n metas j) := by
  have hadj : ∀ i < n, ∀ j ∈ targetsOf ((collectEdges metas).edges.insertionSort edgeLe) i,
      j < n := fun i _ j hj => hn ▸ (mem_targets.mp hj).lt_length
  have hsource : ∀ i, ∀ j ∈ targetsOf ((collectEdges metas).edges.insertionSort edgeLe) i,
      i < n := fun i j hj => (mem_targets.mp hj).1.trans (hn ▸ (mem_targets.mp hj).lt_length)
  have hacc (j : Nat) : Acc (fun i j =>
      j ∈ targetsOf ((collectEdges metas).edges.insertionSort edgeLe) i) j := by
    induction j using Nat.strong_induction_on with
    | _ j ih => exact ⟨j, fun i hi => ih i (mem_targets.mp hi).1⟩
  have hfuel : n ≤ ([] : List Nat).length + n := Nat.le_add_left n _
  obtain ⟨done, hleveled, hempty⟩ :=
    (Kahn.Leveled.start (inDegree_eq_remaining hn)).drain hadj hfuel
  have hsettled := hleveled.settled
  rw [hempty] at hsettled
  have hgreatest := hleveled.isGreatest hsource
    (fun j hj => hsettled.mem_of_acc hj (hacc j)) j
  have hset : {k | Kahn.ChainInto (ConflictEdge metas) k j} =
      {k | Kahn.ChainInto (fun i j =>
        j ∈ targetsOf ((collectEdges metas).edges.insertionSort edgeLe) i) k j} := by
    ext k
    exact ⟨.mono fun _ _ => mem_targets.mpr, .mono fun _ _ => mem_targets.mp⟩
  rw [hset]
  exact hgreatest

/-- A conflict puts the later system on a higher level. -/
theorem levels_lt (hn : n = metas.length) (h : ConflictEdge metas i j) :
    levels n metas i < levels n metas j :=
  (levels_isGreatest hn j).2 (Kahn.ChainInto.step (levels_isGreatest hn i).1 h)

end

/-! ## Stages -/

section
variable [DecidableEq T] {systems : List (SystemEntry T V)} {metas : List (ExpandedMeta T)}
  {stage : List Nat} {i l : Nat}

theorem configs_buildStagesInner :
    (buildStagesInner systems metas).2 = systems.map SystemEntry.config := by
  rw [buildStagesInner]
  split_ifs with h
  · rw [List.isEmpty_iff.mp h]
    rfl
  · rfl

/-- A stage holds the systems of its level. -/
theorem getElem?_stages (h : (buildStagesInner systems metas).1[l]? = some stage) :
    stage = (List.range systems.length).filter fun i =>
      levels systems.length metas i = l := by
  rw [buildStagesInner] at h
  split_ifs at h with hempty
  · simp at h
  · rw [List.getElem?_map, Option.map_eq_some_iff] at h
    obtain ⟨l', hl', rfl⟩ := h
    obtain ⟨hlt, rfl⟩ := List.getElem?_eq_some_iff.mp hl'
    rw [List.getElem_range]

theorem mem_stage (h : (buildStagesInner systems metas).1[l]? = some stage) :
    i ∈ stage ↔ i < systems.length ∧ levels systems.length metas i = l := by
  rw [getElem?_stages h, List.mem_filter, List.mem_range, decide_eq_true_eq]

/-- Every system is in the stage of its level. -/
theorem getElem?_stages_level (metas : List (ExpandedMeta T)) (h : i < systems.length) :
    ∃ stage, (buildStagesInner systems metas).1[levels systems.length metas i]? = some stage ∧
      i ∈ stage := by
  have hsystems : ¬ systems.isEmpty := by
    intro hempty
    rw [List.isEmpty_iff.mp hempty] at h
    exact Nat.not_lt_zero i h
  have hmem : levels systems.length metas i ∈
      (List.range systems.length).map (levels systems.length metas) :=
    List.mem_map_of_mem (List.mem_range.mpr h)
  have hle : levels systems.length metas i ≤
      ((List.range systems.length).map (levels systems.length metas)).max?.getD 0 := by
    rcases hmax : ((List.range systems.length).map (levels systems.length metas)).max? with _ | m
    · rw [List.max?_eq_none_iff.mp hmax] at hmem
      exact absurd hmem List.not_mem_nil
    · exact (List.max?_eq_some_iff.mp hmax).2 _ hmem
  refine ⟨(List.range systems.length).filter fun i' =>
    levels systems.length metas i' = levels systems.length metas i, ?_, ?_⟩
  · rw [buildStagesInner, if_neg hsystems, List.getElem?_map, Option.map_eq_some_iff]
    exact ⟨_, List.getElem?_range (Nat.lt_succ_of_le hle), rfl⟩
  · rw [List.mem_filter, List.mem_range, decide_eq_true_eq]
    exact ⟨h, rfl⟩

/-- The stages are a partition of the systems. -/
theorem flatten_stages :
    (buildStagesInner systems metas).1.flatten.Perm (List.range systems.length) := by
  refine (List.perm_ext_iff_of_nodup ?_ List.nodup_range).mpr fun i => ?_
  · refine List.nodup_flatten.mpr ⟨fun stage hstage => ?_, ?_⟩
    · obtain ⟨l, hl⟩ := List.mem_iff_getElem?.mp hstage
      rw [getElem?_stages hl]
      exact List.nodup_range.filter _
    · refine List.pairwise_iff_getElem.mpr fun l l' hl hl' hlt => ?_
      refine List.disjoint_left.mpr fun i hi hi' => ?_
      have h := (mem_stage (List.getElem?_eq_getElem hl)).mp hi
      have h' := (mem_stage (List.getElem?_eq_getElem hl')).mp hi'
      omega
  · rw [List.mem_flatten, List.mem_range]
    constructor
    · rintro ⟨stage, hstage, hi⟩
      obtain ⟨l, hl⟩ := List.mem_iff_getElem?.mp hstage
      exact ((mem_stage hl).mp hi).1
    · intro hi
      obtain ⟨stage, hstage, hmem⟩ := getElem?_stages_level metas hi
      exact ⟨stage, List.mem_of_getElem? hstage, hmem⟩

end

end Saci
