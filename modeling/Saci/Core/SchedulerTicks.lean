import Saci.Core.Scheduler

/-!
# What a tick attends to

The plan is computed by the first tick and kept, while pipelines can be registered at any time. So a
tick that succeeds gives one turn to each pipeline that was there at the first tick, each after all
pipelines it depends on, and to no other (`tick_turns`).
-/

namespace Saci

variable {P : Type} {R : PipelineApi P} {names : List String} {configs : List (PipelineConfig P)}
  {stages : List (List Nat)} {name : String} {idx d : Nat}

/-! ## The plan -/

theorem getElem?_of_nameToIdx (h : nameToIdx names name = some d) : names[d]? = some name := by
  obtain ⟨⟨found, i⟩, hfind, rfl⟩ := Option.map_eq_some_iff.mp h
  have hmem := List.mem_zipIdx_iff_getElem?.mp (List.mem_reverse.mp (List.mem_of_find?_eq_some hfind))
  have hname := List.find?_some hfind
  rw [hmem]
  exact congrArg some (of_decide_eq_true hname)

/-- The edges of one pipeline go to it from the pipelines its dependencies name. -/
theorem dependencyEdges_spec {edges : List (Nat × Nat)}
    {dependencies : List (String × DependencyKind)}
    (h : dependencyEdges names name idx dependencies = .ok edges) :
    (∀ edge ∈ edges, edge.1 < names.length ∧ edge.2 = idx) ∧
      ∀ dep ∈ dependencies, ∃ d, (d, idx) ∈ edges ∧ names[d]? = some dep.1 := by
  have hall := forall₂_of_mapM_eq_ok h
  clear h
  induction hall with
  | nil => exact ⟨fun _ h => (nomatch h), fun _ h => (nomatch h)⟩
  | @cons dep edge dependencies edges hedge _ ih =>
    dsimp only at hedge
    split at hedge
    · cases hedge
    · next d hd =>
      cases hedge
      have hname := getElem?_of_nameToIdx hd
      refine ⟨List.forall_mem_cons.mpr ⟨⟨(List.getElem?_eq_some_iff.mp hname).1, rfl⟩, ih.1⟩, ?_⟩
      refine List.forall_mem_cons.mpr ⟨⟨d, List.mem_cons_self, hname⟩, fun dep hdep => ?_⟩
      obtain ⟨d', hmem, hd'⟩ := ih.2 dep hdep
      exact ⟨d', List.mem_cons_of_mem _ hmem, hd'⟩

/-- All edges are between pipelines. -/
theorem dependencyEdges_lt {edges : List (List (Nat × Nat))}
    (h : ((names.zip configs).zipIdx.mapM fun ((name, config), idx) =>
      dependencyEdges names name idx config.dependencies) = .ok edges) :
    ∀ edge ∈ edges.flatten, edge.1 < names.length ∧ edge.2 < names.length := by
  intro edge hedge
  obtain ⟨es, hes, hedge⟩ := List.mem_flatten.mp hedge
  obtain ⟨⟨⟨nm, config⟩, i⟩, hmem, heq⟩ := (mem_of_mapM_eq_ok h).2 es hes
  have hi := List.mem_zipIdx_iff_getElem?.mp hmem
  obtain ⟨hsrc, hdst⟩ := (dependencyEdges_spec heq).1 edge hedge
  have hname := (List.getElem?_zip_eq_some.mp hi).1
  exact ⟨hsrc, hdst ▸ (List.getElem?_eq_some_iff.mp hname).1⟩

/-- A plan lists every pipeline once, and the dependencies of a pipeline in the stages before its
own. -/
theorem buildStages_spec (hlen : configs.length = names.length)
    (h : buildStages names configs = .ok stages) :
    stages.flatten.Perm (List.range names.length) ∧
      ∀ before layer after, stages = before ++ layer :: after → ∀ j ∈ layer,
        ∀ dep ∈ dependenciesOf configs j, ∃ d ∈ before.flatten, names[d]? = some dep.1 := by
  rw [buildStages] at h
  dsimp only at h
  split_ifs at h with hzero
  · cases h
    refine ⟨by rw [hzero]; exact .nil, fun before layer after heq => ?_⟩
    cases before <;> cases heq
  · obtain ⟨edges, hedges, h⟩ := bind_eq_ok_iff.mp h
    split_ifs at h with hvisited
    cases h
    obtain ⟨hevery, _⟩ := mem_of_mapM_eq_ok hedges
    have hbound := dependencyEdges_lt hedges
    have hadj : ∀ i < names.length, ∀ j ∈ Kahn.adjacencyOf edges.flatten i, j < names.length :=
      fun i _ j hj => (hbound _ (Kahn.mem_adjacencyOf.mp hj)).2
    have hstart := Kahn.Settled.start
      (Kahn.inDegreeOf_eq_remaining fun edge hedge => (hbound edge hedge).1)
    obtain ⟨hnodup, hlt, hafter⟩ := Kahn.flatten_layersWithin names.length hadj hstart
    rw [List.nil_append] at hnodup
    have hlayers : ∀ stage ∈ Kahn.layers names.length (Kahn.adjacencyOf edges.flatten)
        (Kahn.inDegreeOf edges.flatten), ∀ j ∈ stage, j < names.length :=
      fun stage hstage j hj => hlt j (List.mem_flatten.mpr ⟨stage, hstage, hj⟩)
    refine ⟨?_, fun before layer after heq j hj dep hdep => ?_⟩
    · refine (List.subperm_of_subset hnodup fun i hi => List.mem_range.mpr (hlt i hi)).perm_of_length_le ?_
      rw [List.length_range, List.length_flatten]
      exact (not_not.mp hvisited).ge
    · have hjlt := hlayers layer (heq ▸ List.mem_append_right _ List.mem_cons_self) j hj
      obtain ⟨config, hconfig⟩ : ∃ config, configs[j]? = some config :=
        ⟨_, List.getElem?_eq_getElem (hlen ▸ hjlt)⟩
      have hmem : ((names[j], config), j) ∈ (names.zip configs).zipIdx :=
        List.mem_zipIdx_iff_getElem?.mpr
          (List.getElem?_zip_eq_some.mpr ⟨List.getElem?_eq_getElem hjlt, hconfig⟩)
      obtain ⟨es, hes, heqs⟩ := hevery _ hmem
      have hdep' : dep ∈ config.dependencies := by
        simpa [dependenciesOf, hconfig] using hdep
      obtain ⟨d, hd, hname⟩ := (dependencyEdges_spec heqs).2 dep hdep'
      refine ⟨d, ?_, hname⟩
      have hedge : (d, j) ∈ edges.flatten := List.mem_flatten.mpr ⟨es, hes, hd⟩
      simpa using hafter before layer after heq j hj d (List.getElem?_eq_some_iff.mp hname).1
        (Kahn.mem_adjacencyOf.mpr hedge)

theorem orderedStage_perm (configs : List (PipelineConfig P)) (stage : List Nat) :
    (orderedStage configs stage).Perm stage := List.perm_insertionSort ..

/-- The order of the turns is the plan's, up to the order inside a stage. -/
theorem flatMap_orderedStage_perm (configs : List (PipelineConfig P)) (stages : List (List Nat)) :
    (stages.flatMap (orderedStage configs)).Perm stages.flatten := by
  induction stages with
  | nil => exact .nil
  | cons stage stages ih => exact (orderedStage_perm configs stage).append ih

/-- A turn comes after the turns of all earlier stages. -/
theorem exists_stage_of_turn {l₁ l₂ : List Nat} {i : Nat}
    (h : stages.flatMap (orderedStage configs) = l₁ ++ i :: l₂) :
    ∃ before stage after, stages = before ++ stage :: after ∧ i ∈ stage ∧
      ∀ d ∈ before.flatten, d ∈ l₁ := by
  induction stages generalizing l₁ with
  | nil => simp at h
  | cons stage stages ih =>
    rw [List.flatMap_cons] at h
    rcases List.append_eq_append_iff.mp h with ⟨l, rfl, hrest⟩ | ⟨l, hstage, hrest⟩
    · obtain ⟨before, stage', after, rfl, hi, hbefore⟩ := ih hrest
      refine ⟨stage :: before, stage', after, rfl, hi, fun d hd => ?_⟩
      rcases List.mem_append.mp hd with hd | hd
      · exact List.mem_append_left _ ((orderedStage_perm configs stage).mem_iff.mpr hd)
      · exact List.mem_append_right _ (hbefore d hd)
    · obtain _ | ⟨j, l⟩ := l
      · rw [List.append_nil] at hstage
        rw [List.nil_append] at hrest
        obtain ⟨before, stage', after, rfl, hi, hbefore⟩ := ih
          (show stages.flatMap (orderedStage configs) = [] ++ i :: l₂ from hrest.symm)
        refine ⟨stage :: before, stage', after, rfl, hi, fun d hd => ?_⟩
        rcases List.mem_append.mp hd with hd | hd
        · exact hstage ▸ (orderedStage_perm configs stage).mem_iff.mpr hd
        · exact absurd (hbefore d hd) (by simp)
      · obtain ⟨rfl, -⟩ := List.cons.inj hrest
        refine ⟨[], stage, stages, rfl, ?_, fun d hd => (nomatch hd)⟩
        refine (orderedStage_perm configs stage).mem_iff.mp ?_
        exact hstage ▸ List.mem_append_right _ List.mem_cons_self

/-! ## Turns -/

theorem concat_eq_append_cons {α : Type} {l l₁ l₂ : List α} {a b : α}
    (h : l ++ [a] = l₁ ++ b :: l₂) :
    (l₁ = l ∧ b = a ∧ l₂ = []) ∨ ∃ l', l₂ = l' ++ [a] ∧ l = l₁ ++ b :: l' := by
  rcases List.eq_nil_or_concat l₂ with rfl | ⟨l', c, rfl⟩
  · obtain ⟨rfl, hab⟩ := List.append_inj' h rfl
    exact .inl ⟨rfl, (List.cons.inj hab).1.symm, rfl⟩
  · have hsplit : l ++ [a] = (l₁ ++ b :: l') ++ [c] := by simpa using h
    obtain ⟨hl, hac⟩ := List.append_inj' hsplit rfl
    exact .inr ⟨l', by rw [(List.cons.inj hac).1, List.concat_eq_append], hl⟩

/-- Some pipeline whose data `i` depends on has had its turn and produced nothing. -/
def MissesData (names : List String) (configs : List (PipelineConfig P))
    (taken : List (Nat × Outcome)) (i : Nat) : Prop :=
  ∃ depName, (depName, .data) ∈ dependenciesOf configs i ∧
    ∃ d o, (d, o) ∈ taken ∧ names[d]? = some depName ∧ o.producedZero = true

/-- What a turn did with a pipeline: it is as it was, under backpressure if that is why, or it is
what running it leaves. -/
def Turn (R : PipelineApi P) (configs : List (PipelineConfig P)) (i : Nat) (p p' : P) :
    Outcome → Prop
  | .skippedData => p' = p
  | .skippedBackpressure => p' = p ∧ isBackpressured configs i p = true
  | .ran rows => R.runWithIo p = (.ok (), p') ∧ isBackpressured configs i p = false ∧
      rows = R.rowsProduced p'

/-- The turns taken so far, where the tick began with the pipelines `ps`. -/
structure Turns (R : PipelineApi P) (configs : List (PipelineConfig P)) (ps : List P)
    (t : TickState P) : Prop where
  names : t.pipelines.map R.name = ps.map R.name
  flags : t.producedZero.length = ps.length
  waiting : ∀ i, i ∉ t.log.map Prod.fst →
    t.pipelines[i]? = ps[i]? ∧ t.producedZero[i]? ≠ some true
  taken : ∀ i o, (i, o) ∈ t.log → t.producedZero[i]? = some o.producedZero ∧
    ∃ p p', ps[i]? = some p ∧ t.pipelines[i]? = some p' ∧ Turn R configs i p p' o
  skipped : ∀ l₁ i o l₂, t.log = l₁ ++ (i, o) :: l₂ →
    (o = .skippedData ↔ MissesData (ps.map R.name) configs l₁ i)

namespace Turns
variable {ps : List P} {t t' : TickState P} {i : Nat} {o : Outcome} {p p' : P}

theorem start (ps : List P) : Turns R configs ps ⟨ps, ps.map fun _ => false, []⟩ where
  names := rfl
  flags := List.length_map _
  waiting i _ := by
    refine ⟨rfl, fun htrue => ?_⟩
    obtain ⟨_, _, hfalse⟩ := List.mem_map.mp (List.mem_of_getElem? htrue)
    cases hfalse
  taken _ _ h := (nomatch h)
  skipped l₁ _ _ _ h := by cases l₁ <;> cases h

/-- A turn that leaves `p'` of pipeline `i`. -/
theorem record (H : Turns R configs ps t) (hi : i ∉ t.log.map Prod.fst) (hp : ps[i]? = some p)
    (hname : R.name p' = R.name p) (hturn : Turn R configs i p p' o)
    (hskip : o = .skippedData ↔ MissesData (ps.map R.name) configs t.log i) :
    Turns R configs ps ({ t with pipelines := t.pipelines.set i p' }.record i o) := by
  have hlt := (List.getElem?_eq_some_iff.mp hp).1
  have hlen : t.pipelines.length = ps.length := by simpa using congrArg List.length H.names
  refine ⟨?_, ?_, fun j hj => ?_, fun j o' hj => ?_, fun l₁ j o' l₂ heq => ?_⟩
  · rw [TickState.record, List.map_set, H.names, hname]
    refine List.ext_getElem? fun j => ?_
    rw [List.getElem?_set]
    split_ifs with hij
    · subst hij
      rw [List.getElem?_map, hp]
      rfl
    · subst hij
      simp at *
      omega
    · rfl
  · exact (List.length_set ..).trans H.flags
  · simp only [TickState.record, List.map_append, List.mem_append, List.map_cons, List.map_nil,
      List.mem_singleton, not_or] at hj
    obtain ⟨hpipe, hflag⟩ := H.waiting j hj.1
    simp only [TickState.record, List.getElem?_set_ne (Ne.symm hj.2)]
    exact ⟨hpipe, hflag⟩
  · rcases List.mem_append.mp hj with hj | hj
    · have hij : i ≠ j := fun heq => hi (heq ▸ List.mem_map_of_mem hj)
      simp only [TickState.record, List.getElem?_set_ne hij]
      exact H.taken j o' hj
    · cases List.mem_singleton.mp hj
      exact ⟨List.getElem?_set_self (H.flags ▸ hlt), p, p', hp,
        List.getElem?_set_self (hlen ▸ hlt), hturn⟩
  · rcases concat_eq_append_cons heq with ⟨rfl, hj, -⟩ | ⟨l, -, hlog⟩
    · cases hj
      exact hskip
    · exact H.skipped l₁ j o' l hlog

/-- With distinct names the lookup at run time finds what the names say. -/
theorem findIdx?_name_iff (H : Turns R configs ps t) (hnames : (ps.map R.name).Nodup)
    {depName : String} {d : Nat} :
    (t.pipelines.findIdx? fun p => R.name p = depName) = some d ↔
      (ps.map R.name)[d]? = some depName := by
  rw [← H.names] at hnames ⊢
  rw [List.findIdx?_eq_some_iff_getElem, List.getElem?_eq_some_iff]
  constructor
  · intro ⟨hd, hname, _⟩
    exact ⟨by simpa using hd, by simpa using hname⟩
  · intro ⟨hd, hname⟩
    have hlt : d < t.pipelines.length := by simpa using hd
    refine ⟨hlt, by simpa using hname, fun j hj hsame => ?_⟩
    have hjlt : j < (t.pipelines.map R.name).length := by
      rw [List.length_map]
      exact hj.trans hlt
    have heq : (t.pipelines.map R.name)[j] = (t.pipelines.map R.name)[d] := by
      rw [hname]
      simpa using hsame
    exact hj.ne (hnames.getElem_inj_iff.mp heq)

theorem producedZero_iff (H : Turns R configs ps t) {d : Nat} :
    t.producedZero[d]? = some true ↔ ∃ o, (d, o) ∈ t.log ∧ o.producedZero = true := by
  constructor
  · intro htrue
    by_cases hd : d ∈ t.log.map Prod.fst
    · obtain ⟨⟨_, o⟩, hmem, rfl⟩ := List.mem_map.mp hd
      have hflag := (H.taken _ o hmem).1
      exact ⟨o, hmem, Option.some.inj (hflag.symm.trans htrue)⟩
    · exact absurd htrue (H.waiting d hd).2
  · intro ⟨o, hmem, hzero⟩
    rw [(H.taken d o hmem).1, hzero]

theorem shouldSkipDataDep_iff (H : Turns R configs ps t) (hnames : (ps.map R.name).Nodup) :
    shouldSkipDataDep R configs t i = true ↔ MissesData (ps.map R.name) configs t.log i := by
  rw [shouldSkipDataDep, List.any_eq_true]
  simp only [Prod.exists, decide_eq_true_eq, Option.bind_eq_some_iff, H.findIdx?_name_iff hnames,
    H.producedZero_iff]
  constructor
  · rintro ⟨depName, _, hdep, rfl, d, hd, o, hmem, hzero⟩
    exact ⟨depName, hdep, d, o, hmem, hd, hzero⟩
  · rintro ⟨depName, hdep, d, o, hmem, hd, hzero⟩
    exact ⟨depName, _, hdep, rfl, d, hd, o, hmem, hzero⟩

/-- One turn. -/
theorem step (H : Turns R configs ps t) (hnames : (ps.map R.name).Nodup) (hlt : i < ps.length)
    (hi : i ∉ t.log.map Prod.fst) (h : tickPipeline R configs t i = (.ok (), t')) :
    ∃ o, t'.log = t.log ++ [(i, o)] ∧ Turns R configs ps t' := by
  have hp : ps[i]? = some ps[i] := List.getElem?_eq_getElem hlt
  have htp : t.pipelines[i]? = some ps[i] := (H.waiting i hi).1.trans hp
  have hsame : { t with pipelines := t.pipelines.set i ps[i] } = t := by
    obtain ⟨_, hget⟩ := List.getElem?_eq_some_iff.mp htp
    rw [← hget, List.set_getElem_self]
  rw [tickPipeline] at h
  split_ifs at h with hskip
  · cases h
    refine ⟨_, rfl, ?_⟩
    rw [← hsame]
    refine H.record hi hp rfl rfl ?_
    exact iff_of_true rfl ((H.shouldSkipDataDep_iff hnames).mp hskip)
  · have hnot := mt (H.shouldSkipDataDep_iff hnames).mpr hskip
    rw [htp] at h
    dsimp only at h
    split_ifs at h with hback
    · cases h
      refine ⟨_, rfl, ?_⟩
      rw [← hsame]
      exact H.record hi hp rfl ⟨rfl, hback⟩ (iff_of_false nofun hnot)
    · split at h
      · cases h
      · next p' hrun =>
        cases h
        have hname := R.name_runWithIo ps[i]
        rw [hrun] at hname
        exact ⟨_, rfl, H.record hi hp hname ⟨hrun, by simpa using hback, rfl⟩ (iff_of_false nofun hnot)⟩

/-- All turns. -/
theorem run {order : List Nat} (H : Turns R configs ps t) (hnames : (ps.map R.name).Nodup)
    (hnodup : (t.log.map Prod.fst ++ order).Nodup) (hlt : ∀ i ∈ order, i < ps.length)
    (h : tickPipelines R configs t order = (.ok (), t')) :
    t'.log.map Prod.fst = t.log.map Prod.fst ++ order ∧ Turns R configs ps t' := by
  induction order generalizing t with
  | nil =>
    cases h
    exact ⟨(List.append_nil _).symm, H⟩
  | cons i order ih =>
    rw [tickPipelines] at h
    split at h
    · cases h
    · next t₁ hturn =>
      have hi : i ∉ t.log.map Prod.fst := fun hmem =>
        (List.nodup_append.mp hnodup).2.2 i hmem i List.mem_cons_self rfl
      obtain ⟨o, hlog, H₁⟩ := H.step hnames (hlt i List.mem_cons_self) hi hturn
      have hsplit : t₁.log.map Prod.fst ++ order = t.log.map Prod.fst ++ i :: order := by
        rw [hlog]; simp
      obtain ⟨hlog', H'⟩ := ih H₁ (hsplit ▸ hnodup) (fun j hj => hlt j (List.mem_cons_of_mem _ hj)) h
      exact ⟨hlog'.trans hsplit, H'⟩

end Turns

/-! ## Runs of a scheduler -/

/-- What happens to a scheduler. -/
inductive SchedulerOp (P : Type)
  | register (p : P) (config : PipelineConfig P)
  | tick

def SchedulerOp.isRegister : SchedulerOp P → Bool
  | .register _ _ => true
  | .tick => false

def Scheduler.step (R : PipelineApi P) (s : Scheduler P) : SchedulerOp P → Scheduler P
  | .register p config => s.addPipelineWithConfig p config
  | .tick => (s.tick R).2.1

/-- The scheduler that operations leave, whatever the ticks among them answered. -/
def runOps (R : PipelineApi P) (ops : List (SchedulerOp P)) : Scheduler P :=
  ops.foldl (Scheduler.step R) .new

/-- The number of pipelines registered before the first tick. -/
def plannedCount (ops : List (SchedulerOp P)) : Nat := (ops.takeWhile (·.isRegister)).length

/-- The turns of a tick from `s` to `s'` that gives one to each of the first `n` pipelines. -/
structure TickTurns (R : PipelineApi P) (s : Scheduler P) (n : Nat) (log : List (Nat × Outcome))
    (s' : Scheduler P) : Prop where
  once : (log.map Prod.fst).Perm (List.range n)
  after : ∀ l₁ i o l₂, log = l₁ ++ (i, o) :: l₂ → ∀ dep ∈ dependenciesOf s.configs i,
    ∃ d ∈ l₁.map Prod.fst, (s.pipelines.map R.name)[d]? = some dep.1
  skipped : ∀ l₁ i o l₂, log = l₁ ++ (i, o) :: l₂ →
    (o = .skippedData ↔ MissesData (s.pipelines.map R.name) s.configs l₁ i)
  turn : ∀ i o, (i, o) ∈ log → ∃ p p', s.pipelines[i]? = some p ∧ s'.pipelines[i]? = some p' ∧
    Turn R s.configs i p p' o
  others : ∀ i, n ≤ i → s'.pipelines[i]? = s.pipelines[i]?

/-- The plan of `s`, made or still to be made, is that of its first `n` pipelines. -/
structure Planned (R : PipelineApi P) (s : Scheduler P) (n : Nat) : Prop where
  length : s.configs.length = s.pipelines.length
  le : n ≤ s.pipelines.length
  plan : s.stagePlan = some (buildStages ((s.pipelines.map R.name).take n) (s.configs.take n)) ∨
    s.stagePlan = none ∧ n = s.pipelines.length

theorem Planned.getD {s : Scheduler P} {n : Nat} (H : Planned R s n) :
    s.stagePlan.getD (buildStages (s.pipelines.map R.name) s.configs) =
      buildStages ((s.pipelines.map R.name).take n) (s.configs.take n) := by
  rcases H.plan with hplan | ⟨hplan, rfl⟩
  · rw [hplan, Option.getD_some]
  · rw [hplan, Option.getD_none, List.take_of_length_le (by simp),
      List.take_of_length_le H.length.le]

/-- A turn leaves the names alone, whatever comes of it. -/
theorem map_name_tickPipeline (R : PipelineApi P) (configs : List (PipelineConfig P))
    (t : TickState P) (i : Nat) :
    (tickPipeline R configs t i).2.pipelines.map R.name = t.pipelines.map R.name := by
  rw [tickPipeline]
  split_ifs
  · rfl
  · split
    · rfl
    · next p hp =>
      split_ifs
      · rfl
      · obtain ⟨hlt, rfl⟩ := List.getElem?_eq_some_iff.mp hp
        have hset : (t.pipelines.set i (R.runWithIo t.pipelines[i]).2).map R.name =
            t.pipelines.map R.name := by
          rw [List.map_set, R.name_runWithIo]
          exact (List.map_set ..).symm.trans (by rw [List.set_getElem_self])
        split <;> next hrun => simpa [TickState.record, hrun] using hset

theorem map_name_tickPipelines (t : TickState P) (order : List Nat) :
    (tickPipelines R configs t order).2.pipelines.map R.name = t.pipelines.map R.name := by
  induction order generalizing t with
  | nil => rfl
  | cons i order ih =>
    have hturn := map_name_tickPipeline R configs t i
    rw [tickPipelines]
    split
    · next hstep => rwa [hstep] at hturn
    · next hstep =>
      rw [hstep] at hturn
      exact (ih _).trans hturn

/-- A tick makes the plan if there is none, and leaves names and configurations alone. -/
theorem tick_keeps (s : Scheduler P) :
    (s.tick R).2.1.pipelines.map R.name = s.pipelines.map R.name ∧
      (s.tick R).2.1.configs = s.configs ∧
      (s.tick R).2.1.stagePlan =
        some (s.stagePlan.getD (buildStages (s.pipelines.map R.name) s.configs)) := by
  rw [Scheduler.tick]
  dsimp only
  split
  · exact ⟨rfl, rfl, rfl⟩
  · next stages hplan => exact ⟨map_name_tickPipelines .., rfl, rfl⟩

theorem plannedCount_concat (ops : List (SchedulerOp P)) (op : SchedulerOp P) :
    plannedCount (ops ++ [op]) =
      if ops.all (·.isRegister) ∧ op.isRegister then plannedCount ops + 1 else plannedCount ops := by
  induction ops with
  | nil => cases op <;> rfl
  | cons head ops ih =>
    rw [plannedCount] at ih ⊢
    cases head with
    | tick => simp [plannedCount, SchedulerOp.isRegister]
    | register p config =>
      have hcount : plannedCount (.register p config :: ops) = plannedCount ops + 1 := rfl
      have hall : (SchedulerOp.register p config :: ops).all (·.isRegister) =
          ops.all (·.isRegister) := rfl
      rw [hcount, hall, List.cons_append, List.takeWhile_cons_of_pos rfl, List.length_cons, ih]
      split_ifs <;> rfl

/-- What the operations so far have planned, and whether they have. -/
theorem planned_runOps (R : PipelineApi P) (ops : List (SchedulerOp P)) :
    Planned R (runOps R ops) (plannedCount ops) ∧
      (ops.all (·.isRegister) = true ↔ (runOps R ops).stagePlan = none) := by
  induction ops using List.reverseRecOn with
  | nil => exact ⟨⟨rfl, le_rfl, .inr ⟨rfl, rfl⟩⟩, iff_of_true rfl rfl⟩
  | append_singleton ops op ih =>
    obtain ⟨H, hall⟩ := ih
    have hstep : runOps R (ops ++ [op]) = (runOps R ops).step R op := by
      rw [runOps, List.foldl_append]
      rfl
    rw [hstep, plannedCount_concat, List.all_append]
    generalize runOps R ops = s at *
    cases op with
    | register p config =>
      have hlen : (s.configs ++ [config]).length = (s.pipelines ++ [p]).length := by
        simp [H.length]
      have hgrow : (s.pipelines ++ [p]).length = s.pipelines.length + 1 := List.length_append
      rcases H.plan with hplan | ⟨hplan, hn⟩
      · have hnot : ¬ ops.all (·.isRegister) = true := fun h => by
          rw [hall.mp h] at hplan
          cases hplan
        rw [if_neg fun h => hnot h.1]
        refine ⟨⟨hlen, H.le.trans (hgrow ▸ Nat.le_succ _), .inl ?_⟩, ?_⟩
        · refine hplan.trans ?_
          rw [Scheduler.step, Scheduler.addPipelineWithConfig, List.map_append,
            List.take_append_of_le_length (by simpa using H.le),
            List.take_append_of_le_length (H.length ▸ H.le)]
        · refine iff_of_false (fun h => hnot (Bool.and_eq_true_iff.mp h).1) fun h => ?_
          exact Option.some_ne_none _ (hplan.symm.trans h)
      · rw [if_pos ⟨hall.mpr hplan, rfl⟩]
        refine ⟨⟨hlen, (hn ▸ hgrow).ge, .inr ⟨hplan, hn ▸ hgrow.symm⟩⟩, iff_of_true ?_ hplan⟩
        exact Bool.and_eq_true_iff.mpr ⟨hall.mpr hplan, rfl⟩
    | tick =>
      obtain ⟨hnames, hconfigs, hplan⟩ := tick_keeps (R := R) s
      have hlen : (s.tick R).2.1.pipelines.length = s.pipelines.length := by
        simpa using congrArg List.length hnames
      rw [if_neg fun h => nomatch h.2]
      refine ⟨⟨?_, hlen ▸ H.le, .inl ?_⟩, ?_⟩
      · exact (congrArg List.length hconfigs).trans (H.length.trans hlen.symm)
      · refine hplan.trans ?_
        rw [H.getD, Scheduler.step, hnames, hconfigs]
      · refine iff_of_false (fun h => nomatch (Bool.and_eq_true_iff.mp h).2) fun h => ?_
        exact Option.some_ne_none _ (hplan.symm.trans h)

/-- **A tick that succeeds** gives one turn to each pipeline registered before the first tick: after
the turns of all it depends on, and skipped only for want of data or under backpressure. Pipelines
registered later get none. -/
theorem tick_turns {ops : List (SchedulerOp P)} {s' : Scheduler P} {log : List (Nat × Outcome)}
    (hnames : ((runOps R ops).pipelines.map R.name).Nodup)
    (h : (runOps R ops).tick R = (.ok (), s', log)) :
    TickTurns R (runOps R ops) (plannedCount ops) log s' := by
  have H := (planned_runOps R ops).1
  generalize runOps R ops = s at *
  generalize plannedCount ops = n at *
  rw [Scheduler.tick, H.getD] at h
  dsimp only at h
  split at h
  · cases h
  · next stages hplan =>
    have hn : ((s.pipelines.map R.name).take n).length = n := by simpa using H.le
    obtain ⟨hperm, hbefore⟩ := buildStages_spec (by simp [H.length]) hplan
    rw [hn] at hperm
    have horder := (flatMap_orderedStage_perm s.configs stages).trans hperm
    have hlt : ∀ i ∈ stages.flatMap (orderedStage s.configs), i < s.pipelines.length :=
      fun i hi => (List.mem_range.mp (horder.mem_iff.mp hi)).trans_le H.le
    cases htick : tickPipelines R s.configs ⟨s.pipelines, s.pipelines.map fun _ => false, []⟩
      (stages.flatMap (orderedStage s.configs)) with
    | mk result t =>
    rw [htick] at h
    cases h
    obtain ⟨hlog, hturns⟩ := (Turns.start s.pipelines).run hnames
      (horder.nodup_iff.mpr List.nodup_range) hlt htick
    replace hlog : t.log.map Prod.fst = stages.flatMap (orderedStage s.configs) := hlog
    refine ⟨by rwa [hlog], fun l₁ i o l₂ heq dep hdep => ?_, hturns.skipped, fun i o hmem => ?_,
      fun i hi => ?_⟩
    · rw [heq, List.map_append, List.map_cons] at hlog
      obtain ⟨before, stage, after, hsplit, hi, hsub⟩ := exists_stage_of_turn hlog.symm
      have hin : i < n := List.mem_range.mp (horder.mem_iff.mp (hlog ▸ by simp))
      have hdeps : dependenciesOf (s.configs.take n) i = dependenciesOf s.configs i := by
        rw [dependenciesOf, List.getElem?_take_of_lt hin]
        rfl
      obtain ⟨d, hd, hname⟩ := hbefore before stage after hsplit i hi dep (hdeps ▸ hdep)
      have hdlt : d < n := hn ▸ (List.getElem?_eq_some_iff.mp hname).1
      rw [List.getElem?_take_of_lt hdlt] at hname
      exact ⟨d, hsub d hd, hname⟩
    · obtain ⟨-, p, p', hturn⟩ := hturns.taken i o hmem
      exact ⟨p, p', hturn⟩
    · refine (hturns.waiting i ?_).1
      rw [hlog, horder.mem_iff, List.mem_range]
      omega

/-! ## Runs -/

namespace SchedulerSample

/-- A pipeline that produces the same number of rows on every run, and counts its runs. -/
structure Fixed where
  name : String
  rows : Int
  runs : Nat

def api : PipelineApi Fixed where
  name p := p.name
  runWithIo p := (.ok (), { p with runs := p.runs + 1 })
  rowsProduced p := p.rows
  name_runWithIo _ := rfl

/-- A pipeline is registered after the first tick. -/
def lateOps : List (SchedulerOp Fixed) :=
  [.register ⟨"ingest", 1, 0⟩ {}, .tick, .register ⟨"late", 1, 0⟩ {}]

/-- The next tick succeeds without a turn for it. -/
theorem late_gets_no_turn :
    ((runOps api lateOps).tick api).1 = .ok () ∧
      ((runOps api lateOps).tick api).2.2 = [(0, .ran 1)] ∧
      ((runOps api lateOps).tick api).2.1.pipelines.map (fun p => (p.name, p.runs)) =
        [("ingest", 2), ("late", 0)] := by
  refine ⟨?_, ?_, ?_⟩ <;> rfl

/-- Registered out of order: `report` waits for `enrich`, which wants rows of `ingest`. -/
def chainOps : List (SchedulerOp Fixed) :=
  [.register ⟨"report", 1, 0⟩ { dependencies := [("enrich", .order)] },
    .register ⟨"enrich", 1, 0⟩ { dependencies := [("ingest", .data)] },
    .register ⟨"ingest", 0, 0⟩ {}, .tick]

theorem chain_turns :
    ∃ s', TickTurns api (runOps api chainOps) 3
      [(2, .ran 0), (1, .skippedData), (0, .ran 1)] s' :=
  ⟨_, tick_turns (by decide) rfl⟩

end SchedulerSample

end Saci
