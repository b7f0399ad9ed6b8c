import Mathlib
import Saci.Core.SchedulerTicks
import Saci.Library.Layers

/-!
# What a stage plan is

`build_stages` counts the dependencies of every pipeline down, stage by stage. The loop is given so
many rounds here, and stops where a counter would underflow; neither ends it (`buildStages_staged`).
A plan is made exactly when all dependencies are registered and none of them leads back to where it
started, and then the number of a pipeline's stage is the length of its longest dependency path.
-/

namespace Saci

open Kahn (Halt release)

variable {P : Type}

/-! ## The loop -/

/-- The targets of one stage are released, node by node. -/
def releaseStage (adjacency : Nat → List Nat) (inDegree : Nat → Nat) (stage : List Nat) :
    Except Halt ((Nat → Nat) × List Nat) :=
  stage.foldlM (fun state node => (adjacency node).foldlM release state) (inDegree, [])

/-- The loop of `build_stages`, for so many rounds. -/
def drainStages (adjacency : Nat → List Nat) (rounds : Nat) (queue : List Nat)
    (inDegree : Nat → Nat) (stages : List (List Nat)) (visited : Nat) :
    Except Halt (List (List Nat) × Nat) :=
  if queue.isEmpty then .ok (stages, visited)
  else
    match rounds with
    | 0 => .error .outOfRounds
    | rounds + 1 => do
      let (inDegree, nextQueue) ← releaseStage adjacency inDegree queue
      drainStages adjacency rounds nextQueue inDegree (stages ++ [queue]) (visited + queue.length)

/-- `build_stages` with its loop. -/
def buildStagesWithin (rounds : Nat) (names : List String) (configs : List (PipelineConfig P)) :
    Except Halt (SaciResult (List (List Nat))) :=
  let n := names.length
  if n = 0 then .ok (.ok [])
  else
    let edges := (names.zip configs).zipIdx.mapM fun ((name, config), idx) =>
      dependencyEdges names name idx config.dependencies
    match edges with
    | .error e => .ok (.error e)
    | .ok edges => do
      let inDegree := Kahn.inDegreeOf edges.flatten
      let queue := (List.range n).filter fun i => inDegree i = 0
      let (stages, visited) ←
        drainStages (Kahn.adjacencyOf edges.flatten) rounds queue inDegree [] 0
      .ok <|
        if visited ≠ n then .error (.scheduler "pipeline dependency graph contains a cycle")
        else .ok stages

section
variable {n rounds : Nat} {adjacency : Nat → List Nat} {inDegree : Nat → Nat}
  {done queue : List Nat}

theorem releaseStage_eq (h : Kahn.Settled n adjacency done queue inDegree) :
    releaseStage adjacency inDegree queue =
      .ok (Kahn.settle inDegree (queue.flatMap adjacency)) := by
  have hnodes (stage : List Nat) (state : (Nat → Nat) × List Nat) :
      stage.foldlM (fun state node => (adjacency node).foldlM release state) state =
        (stage.flatMap adjacency).foldlM release state := by
    induction stage generalizing state with
    | nil => rfl
    | cons node stage ih =>
      rw [List.foldlM_cons, List.flatMap_cons, List.foldlM_append]
      exact bind_congr ih
  rw [releaseStage, hnodes, Kahn.foldlM_release h.count_le]

/-- The loop peels the graph layer by layer. -/
theorem drainStages_eq (hadj : ∀ i < n, ∀ j ∈ adjacency i, j < n)
    (h : Kahn.Settled n adjacency done queue inDegree) (hrounds : n ≤ done.length + rounds)
    (stages : List (List Nat)) (visited : Nat) :
    drainStages adjacency rounds queue inDegree stages visited =
      .ok (stages ++ Kahn.layersWithin adjacency rounds queue inDegree,
        visited + ((Kahn.layersWithin adjacency rounds queue inDegree).map List.length).sum) := by
  induction rounds generalizing done queue inDegree stages visited with
  | zero =>
    have hle := h.length_le
    rw [List.length_append] at hle
    obtain rfl : queue = [] := List.length_eq_zero_iff.mp (by omega)
    simp [drainStages, Kahn.layersWithin_nil]
  | succ rounds ih =>
    by_cases hempty : queue = []
    · simp [drainStages, hempty, Kahn.layersWithin_nil]
    · have hpos := List.length_pos_iff.mpr hempty
      rw [drainStages, Kahn.layersWithin, if_neg (by simpa using hempty),
        if_neg (by simpa using hempty)]
      dsimp only
      rw [releaseStage_eq h, ok_bind]
      have hnext := ih (h.step_all hadj) (by rw [List.length_append]; omega) (stages ++ [queue])
        (visited + queue.length)
      rw [List.map_cons, List.sum_cons, ← Nat.add_assoc]
      simpa using hnext

/-- Enough rounds end the loop, and no counter underflows. -/
theorem buildStagesWithin_eq {names : List String} (configs : List (PipelineConfig P))
    (hrounds : names.length ≤ rounds) :
    buildStagesWithin rounds names configs = .ok (buildStages names configs) := by
  rw [buildStagesWithin, buildStages]
  dsimp only
  split_ifs with hzero
  · rfl
  · cases hedges : (names.zip configs).zipIdx.mapM fun ((name, config), idx) =>
      dependencyEdges names name idx config.dependencies with
    | error e => rfl
    | ok edges =>
      have hbound := dependencyEdges_lt hedges
      have hadj : ∀ i < names.length, ∀ j ∈ Kahn.adjacencyOf edges.flatten i, j < names.length :=
        fun i _ j hj => (Kahn.adjacencyOf_lt hbound i j hj).2
      have hstart := Kahn.settled_start hbound
      dsimp only
      rw [drainStages_eq hadj hstart (by simpa using hrounds),
        Kahn.layersWithin_fuel hadj hstart (by simpa using hrounds)
          (by simp : names.length ≤ ([] : List Nat).length + names.length), ok_bind, ok_bind,
        List.nil_append, Nat.zero_add, Kahn.layers]

end

/-! ## The edges -/

/-- Some pipeline is found under a name exactly when one has it. -/
theorem exists_nameToIdx_iff {names : List String} {name : String} :
    (∃ d, nameToIdx names name = some d) ↔ name ∈ names := by
  constructor
  · rintro ⟨d, hd⟩
    exact List.mem_of_getElem? (getElem?_of_nameToIdx hd)
  · intro hmem
    obtain ⟨d, hd⟩ := List.mem_iff_getElem?.mp hmem
    rw [← Option.isSome_iff_exists, nameToIdx, Option.isSome_map, List.find?_isSome]
    exact ⟨(name, d), List.mem_reverse.mpr (List.mem_zipIdx_iff_getElem?.mpr hd),
      decide_eq_true rfl⟩

/-- With distinct names, a pipeline is found under its own. -/
theorem nameToIdx_eq_some_iff {names : List String} (hnames : names.Nodup) {name : String}
    {d : Nat} : nameToIdx names name = some d ↔ names[d]? = some name := by
  refine ⟨getElem?_of_nameToIdx, fun hget => ?_⟩
  obtain ⟨d', hd'⟩ := exists_nameToIdx_iff.mpr (List.mem_of_getElem? hget)
  obtain ⟨hlt, heq⟩ := List.getElem?_eq_some_iff.mp hget
  obtain ⟨hlt', heq'⟩ := List.getElem?_eq_some_iff.mp (getElem?_of_nameToIdx hd')
  rw [hd', hnames.getElem_inj_iff.mp (heq'.trans heq.symm)]

theorem mem_dependencyEdges {names : List String} {name : String} {idx i j : Nat}
    {dependencies : List (String × DependencyKind)} {edges : List (Nat × Nat)}
    (h : dependencyEdges names name idx dependencies = .ok edges) :
    (i, j) ∈ edges ↔ j = idx ∧ ∃ dep ∈ dependencies, nameToIdx names dep.1 = some i := by
  obtain ⟨hevery, horigin⟩ := mem_of_mapM_eq_ok h
  constructor
  · intro hedge
    obtain ⟨dep, hdep, heq⟩ := horigin _ hedge
    dsimp only at heq
    split at heq
    · cases heq
    · next hfound =>
      cases heq
      exact ⟨rfl, dep, hdep, hfound⟩
  · rintro ⟨rfl, dep, hdep, hfound⟩
    obtain ⟨edge, hedge, heq⟩ := hevery dep hdep
    dsimp only at heq
    rw [hfound] at heq
    cases heq
    exact hedge

/-- The edges of a pipeline are made exactly when all its dependencies are registered. -/
theorem exists_dependencyEdges_iff {names : List String} (name : String) (idx : Nat)
    {dependencies : List (String × DependencyKind)} :
    (∃ edges, dependencyEdges names name idx dependencies = .ok edges) ↔
      ∀ dep ∈ dependencies, dep.1 ∈ names := by
  constructor
  · rintro ⟨edges, hedges⟩ dep hdep
    obtain ⟨_, _, hname⟩ := (dependencyEdges_spec hedges).2 dep hdep
    exact List.mem_of_getElem? hname
  · intro hknown
    refine Exists.imp (fun _ => mapM_eq_ok_of_forall₂) (exists_forall₂ fun dep hdep => ?_)
    obtain ⟨d, hd⟩ := exists_nameToIdx_iff.mpr (hknown dep hdep)
    obtain ⟨depName, kind⟩ := dep
    exact ⟨(d, idx), by dsimp only; rw [hd]⟩

/-! ## What the plan is for -/

section
variable (pipelines : List (String × PipelineConfig P))

/-- `build_stages`, on the pipelines with their configurations. -/
def stagesOf : SaciResult (List (List Nat)) :=
  buildStages (pipelines.map Prod.fst) (pipelines.map Prod.snd)

/-- All dependencies name registered pipelines. -/
def DependenciesKnown : Prop :=
  ∀ pipeline ∈ pipelines, ∀ dep ∈ pipeline.2.dependencies, dep.1 ∈ pipelines.map Prod.fst

/-- The `j`-th pipeline depends on the `i`-th. -/
def DependsOn (i j : Nat) : Prop :=
  ∃ dep ∈ dependenciesOf (pipelines.map Prod.snd) j, (pipelines.map Prod.fst)[i]? = some dep.1

/-- Some pipeline depends on itself, through others or directly. -/
def DependencyCycle : Prop := ∃ i, Relation.TransGen (DependsOn pipelines) i i

/-- The length of the longest dependency path that ends at a pipeline. -/
def DependencyDepth (j d : Nat) : Prop :=
  IsGreatest {k | Kahn.ChainInto (DependsOn pipelines) k j} d

/-- The stages are a partition of the pipelines by their depths, and a dependency is in a strictly
earlier stage. -/
structure Staged (stages : List (List Nat)) : Prop where
  partition : stages.flatten.Perm (List.range pipelines.length)
  nonempty : [] ∉ stages
  depth : ∀ (d : Nat) stage, stages[d]? = some stage → ∀ j ∈ stage, DependencyDepth pipelines j d
  earlier : ∀ (d : Nat) stage, stages[d]? = some stage → ∀ j ∈ stage,
    ∀ dep ∈ dependenciesOf (pipelines.map Prod.snd) j,
      ∃ d' < d, ∃ stage' i, stages[d']? = some stage' ∧ i ∈ stage' ∧
        (pipelines.map Prod.fst)[i]? = some dep.1

end

section
variable {pipelines : List (String × PipelineConfig P)} {edges : List (List (Nat × Nat))}

/-- The edges that `build_stages` makes. -/
def edgesOfPipelines (pipelines : List (String × PipelineConfig P)) :
    SaciResult (List (List (Nat × Nat))) :=
  pipelines.zipIdx.mapM fun ((name, config), idx) =>
    dependencyEdges (pipelines.map Prod.fst) name idx config.dependencies

theorem zip_names_configs : (pipelines.map Prod.fst).zip (pipelines.map Prod.snd) = pipelines :=
  (List.zip_of_prod rfl rfl).symm

theorem exists_edgesOfPipelines_iff :
    (∃ edges, edgesOfPipelines pipelines = .ok edges) ↔ DependenciesKnown pipelines := by
  constructor
  · rintro ⟨edges, hedges⟩ pipeline hmem
    obtain ⟨i, hi⟩ := List.mem_iff_getElem?.mp hmem
    obtain ⟨es, _, heq⟩ := (mem_of_mapM_eq_ok hedges).1 (pipeline, i)
      (List.mem_zipIdx_iff_getElem?.mpr hi)
    exact (exists_dependencyEdges_iff pipeline.1 i).mp ⟨es, heq⟩
  · intro hknown
    have hmade : ∀ entry ∈ pipelines.zipIdx, ∃ es, dependencyEdges (pipelines.map Prod.fst)
        entry.1.1 entry.2 entry.1.2.dependencies = .ok es := by
      intro entry hentry
      have hmem := List.mem_of_getElem? (List.mem_zipIdx_iff_getElem?.mp hentry)
      exact (exists_dependencyEdges_iff entry.1.1 entry.2).mpr (hknown entry.1 hmem)
    obtain ⟨edges, hedges⟩ := exists_forall₂ hmade
    exact ⟨edges, mapM_eq_ok_of_forall₂ hedges⟩

/-- With distinct names the edges are the dependencies. -/
theorem mem_edgesOfPipelines (hnames : (pipelines.map Prod.fst).Nodup)
    (h : edgesOfPipelines pipelines = .ok edges) {i j : Nat} :
    (i, j) ∈ edges.flatten ↔ DependsOn pipelines i j := by
  obtain ⟨hevery, horigin⟩ := mem_of_mapM_eq_ok h
  constructor
  · intro hedge
    obtain ⟨es, hes, hedge⟩ := List.mem_flatten.mp hedge
    obtain ⟨⟨⟨name, config⟩, idx⟩, hmem, heq⟩ := horigin es hes
    obtain ⟨rfl, dep, hdep, hfound⟩ := (mem_dependencyEdges heq).mp hedge
    refine ⟨dep, ?_, (nameToIdx_eq_some_iff hnames).mp hfound⟩
    simpa [dependenciesOf, List.mem_zipIdx_iff_getElem?.mp hmem] using hdep
  · rintro ⟨dep, hdep, hname⟩
    cases hget : pipelines[j]? with
    | none => simp [dependenciesOf, hget] at hdep
    | some pipeline =>
      have hdep : dep ∈ pipeline.2.dependencies := by simpa [dependenciesOf, hget] using hdep
      obtain ⟨es, hes, heq⟩ := hevery (pipeline, j) (List.mem_zipIdx_iff_getElem?.mpr hget)
      refine List.mem_flatten.mpr ⟨es, hes, (mem_dependencyEdges heq).mpr ⟨rfl, dep, hdep, ?_⟩⟩
      exact (nameToIdx_eq_some_iff hnames).mpr hname

theorem edgesOfPipelines_lt (h : edgesOfPipelines pipelines = .ok edges) :
    ∀ edge ∈ edges.flatten, edge.1 < pipelines.length ∧ edge.2 < pipelines.length := by
  have hlt := @dependencyEdges_lt P (pipelines.map Prod.fst) (pipelines.map Prod.snd) edges
    (by rw [zip_names_configs]; exact h)
  rwa [List.length_map] at hlt

/-- With distinct names the dependencies are the graph that is peeled. -/
theorem dependsOn_eq (hnames : (pipelines.map Prod.fst).Nodup)
    (h : edgesOfPipelines pipelines = .ok edges) :
    DependsOn pipelines = fun i j => j ∈ Kahn.adjacencyOf edges.flatten i := by
  funext i j
  rw [Kahn.mem_adjacencyOf, mem_edgesOfPipelines hnames h]

/-- The plan is the layers of the edges, or says that pipelines are left over. -/
theorem stagesOf_eq (h : edgesOfPipelines pipelines = .ok edges) :
    stagesOf pipelines =
      if (Kahn.layers pipelines.length (Kahn.adjacencyOf edges.flatten)
          (Kahn.inDegreeOf edges.flatten)).flatten.length ≠ pipelines.length then
        .error (.scheduler "pipeline dependency graph contains a cycle")
      else .ok (Kahn.layers pipelines.length (Kahn.adjacencyOf edges.flatten)
        (Kahn.inDegreeOf edges.flatten)) := by
  rw [stagesOf, buildStages, zip_names_configs, List.length_map]
  dsimp only
  split_ifs with hzero hlength hlength
  · rw [List.length_eq_zero_iff.mp hzero] at hlength
    exact absurd rfl hlength
  · rw [List.length_eq_zero_iff.mp hzero]
    rfl
  · exact (congrArg (· >>= _) h).trans (if_pos (by rwa [← List.length_flatten]))
  · exact (congrArg (· >>= _) h).trans (if_neg (by rwa [← List.length_flatten]))

/-- A dependency that is not registered ends it before the plan. -/
theorem stagesOf_unknown {e : SaciError} (h : edgesOfPipelines pipelines = .error e) :
    stagesOf pipelines = .error e := by
  rw [stagesOf, buildStages, zip_names_configs, List.length_map]
  dsimp only
  split_ifs with hzero
  · rw [List.length_eq_zero_iff.mp hzero] at h
    cases h
  · exact congrArg (· >>= _) h

/-- The layers of the dependencies, where there is no cycle. -/
theorem staged_layers (hnames : (pipelines.map Prod.fst).Nodup)
    (h : edgesOfPipelines pipelines = .ok edges) (hacyclic : ¬DependencyCycle pipelines) :
    Staged pipelines (Kahn.layers pipelines.length (Kahn.adjacencyOf edges.flatten)
      (Kahn.inDegreeOf edges.flatten)) := by
  have hbound := edgesOfPipelines_lt h
  have hgraph := dependsOn_eq hnames h
  have hperm := (Kahn.perm_layers_iff hbound).mpr (by rwa [Kahn.Cyclic, ← hgraph])
  have hdepth : ∀ (d : Nat) stage, (Kahn.layers pipelines.length
      (Kahn.adjacencyOf edges.flatten) (Kahn.inDegreeOf edges.flatten))[d]? = some stage →
      ∀ j ∈ stage, DependencyDepth pipelines j d := by
    intro d stage hstage j hj
    rw [DependencyDepth, hgraph]
    exact Kahn.depth_of_layer hbound hstage j hj
  refine ⟨hperm, Kahn.nil_notMem_layersWithin, hdepth, fun d stage hstage j hj dep hdep => ?_⟩
  -- the pipeline that the dependency names is in the stage of its own depth
  have hknown : dep.1 ∈ pipelines.map Prod.fst := by
    cases hget : pipelines[j]? with
    | none => simp [dependenciesOf, hget] at hdep
    | some pipeline =>
      exact exists_edgesOfPipelines_iff.mp ⟨edges, h⟩ pipeline (List.mem_of_getElem? hget) dep
        (by simpa [dependenciesOf, hget] using hdep)
  obtain ⟨i, hi⟩ := List.mem_iff_getElem?.mp hknown
  have hlt : i < pipelines.length := by simpa using (List.getElem?_eq_some_iff.mp hi).1
  obtain ⟨stage', hstage', hmem⟩ := List.mem_flatten.mp
    (hperm.mem_iff.mpr (List.mem_range.mpr hlt))
  obtain ⟨d', hd'⟩ := List.mem_iff_getElem?.mp hstage'
  have hlonger := Kahn.ChainInto.step (hdepth d' stage' hd' i hmem).1 ⟨dep, hdep, hi⟩
  exact ⟨d', (hdepth d stage hstage j hj).2 hlonger, stage', i, hd', hmem, hi⟩

/-- **The stage plan**: the loop ends without an underflow, a plan is made exactly when all
dependencies are registered and none leads back to where it started, and it puts every pipeline in
the stage whose number is its depth. -/
theorem buildStages_staged (hnames : (pipelines.map Prod.fst).Nodup) :
    (∀ rounds, pipelines.length ≤ rounds →
      buildStagesWithin rounds (pipelines.map Prod.fst) (pipelines.map Prod.snd) =
        .ok (stagesOf pipelines)) ∧
    ((∃ stages, stagesOf pipelines = .ok stages) ↔
      DependenciesKnown pipelines ∧ ¬DependencyCycle pipelines) ∧
    ∀ stages, stagesOf pipelines = .ok stages → Staged pipelines stages := by
  refine ⟨fun rounds hrounds => buildStagesWithin_eq _ (by simpa using hrounds), ?_⟩
  rw [← exists_edgesOfPipelines_iff]
  cases hedges : edgesOfPipelines pipelines with
  | error e => simp [stagesOf_unknown hedges]
  | ok edges =>
    have hlength := Kahn.length_layers_iff (edgesOfPipelines_lt hedges)
    rw [Kahn.Cyclic, ← dependsOn_eq hnames hedges] at hlength
    rw [stagesOf_eq hedges]
    by_cases hcycle : DependencyCycle pipelines
    · rw [if_pos (mt hlength.mp (not_not_intro hcycle))]
      exact ⟨iff_of_false nofun fun ⟨_, hnot⟩ => hnot hcycle, nofun⟩
    · rw [if_neg (not_not_intro (hlength.mpr hcycle))]
      refine ⟨iff_of_true ⟨_, rfl⟩ ⟨⟨edges, rfl⟩, hcycle⟩, fun stages hstages => ?_⟩
      cases hstages
      exact staged_layers hnames hedges hcycle

end

namespace SchedulerSample

/-- `report` names `enrich` twice. -/
def repeated : List (String × PipelineConfig Fixed) :=
  [("report", { dependencies := [("enrich", .order), ("enrich", .data), ("ingest", .order)] }),
    ("enrich", { dependencies := [("ingest", .data)] }), ("ingest", {})]

theorem repeated_staged :
    stagesOf repeated = .ok [[2], [1], [0]] ∧ Staged repeated [[2], [1], [0]] := by
  have hstages : stagesOf repeated = .ok [[2], [1], [0]] := by decide +kernel
  exact ⟨hstages, (buildStages_staged (by decide)).2.2 _ hstages⟩

end SchedulerSample

end Saci
