import Saci.Core.Pipeline

/-!
# The registry a plan is made over

The cells of a plan hold what was computed over the first registry that a call came with since the last
system was added (`plan_pinned`). That is the plan of the registry at hand exactly when both fall short of the
declarations, or both meet them and name the same fields for each component that is declared as a whole
(`computePlan_eq_iff`).
-/

namespace Saci

variable {T V : Type}

/-! ## Declarations over a registry -/

/-- The names of a component's fields, where it is registered. -/
def fieldNames (schemas : SchemaRegistry) (component : String) : Option (List String) :=
  (schemas component).map fun schema => schema.fields.map Field.name

namespace SystemMeta

/-- All that is declared is registered. -/
structure Registered (schemas : SchemaRegistry) (m : SystemMeta T) : Prop where
  fields : ∀ fa ∈ m.reads ++ m.writes, ∃ schema, schemas fa.component = some schema ∧
    (schema.indexOf fa.field).isSome
  components : ∀ component ∈ m.readsComponents ++ m.writesComponents, (schemas component).isSome

/-- Two registries name the same fields for each component that is declared as a whole. -/
def SameFields (schemas schemas' : SchemaRegistry) (m : SystemMeta T) : Prop :=
  ∀ component ∈ m.readsComponents ++ m.writesComponents,
    fieldNames schemas component = fieldNames schemas' component

end SystemMeta

/-- The fields of components, one after the other. -/
def wholeFields (schemas : SchemaRegistry) (components : List String) : List FieldAccess :=
  components.flatMap fun component =>
    ((fieldNames schemas component).getD []).map fun field => ⟨component, field⟩

/-- A declaration with the components declared as a whole spelt out. -/
def SystemMeta.expanded (schemas : SchemaRegistry) (m : SystemMeta T) : ExpandedMeta T where
  name := m.name
  reads := m.reads ++ wholeFields schemas m.readsComponents
  writes := m.writes ++ wholeFields schemas m.writesComponents
  readsResources := m.readsResources
  writesResources := m.writesResources

variable {schemas schemas' : SchemaRegistry} {m : SystemMeta T} {components : List String}

theorem validateField_eq_ok_iff {fa : FieldAccess} : validateField schemas fa = .ok () ↔
    ∃ schema, schemas fa.component = some schema ∧ (schema.indexOf fa.field).isSome := by
  rw [validateField]
  rcases schemas fa.component with _ | schema
  · exact iff_of_false nofun fun ⟨_, h, _⟩ => nomatch h
  · dsimp only
    rcases hindex : schema.indexOf fa.field with _ | idx
    · refine iff_of_false nofun ?_
      rintro ⟨_, ⟨⟩, hsome⟩
      rw [hindex] at hsome
      cases hsome
    · exact iff_of_true rfl ⟨schema, rfl, by rw [hindex]; rfl⟩

theorem expandComponents_eq_ok_iff {name access : String} {fields : List FieldAccess} :
    expandComponents schemas name access components = .ok fields ↔
      (∀ component ∈ components, (schemas component).isSome) ∧ fields = wholeFields schemas components := by
  induction components generalizing fields with
  | nil =>
    rw [expandComponents, wholeFields, List.flatMap_nil, Except.ok.injEq]
    exact ⟨fun h => ⟨nofun, h.symm⟩, fun h => h.2.symm⟩
  | cons component components ih =>
    rw [expandComponents, wholeFields, List.flatMap_cons, List.forall_mem_cons, fieldNames]
    rcases hschema : schemas component with _ | schema
    · simp
    · dsimp only
      rw [bind_eq_ok_iff]
      simp only [ih, Option.isSome_some, Option.map_some, Option.getD_some, List.map_map, true_and]
      constructor
      · rintro ⟨rest, ⟨hall, rfl⟩, hfields⟩
        cases hfields
        exact ⟨hall, rfl⟩
      · rintro ⟨hall, rfl⟩
        exact ⟨_, ⟨hall, rfl⟩, rfl⟩

theorem fromMeta_eq_ok_iff {expanded : ExpandedMeta T} :
    ExpandedMeta.fromMeta schemas m = .ok expanded ↔
      m.Registered schemas ∧ expanded = m.expanded schemas := by
  rw [ExpandedMeta.fromMeta]
  constructor
  · intro h
    obtain ⟨⟨⟩, hreads, h⟩ := bind_eq_ok_iff.mp h
    obtain ⟨⟨⟩, hwrites, h⟩ := bind_eq_ok_iff.mp h
    obtain ⟨_, hexpand, h⟩ := bind_eq_ok_iff.mp h
    obtain ⟨_, hexpand', h⟩ := bind_eq_ok_iff.mp h
    obtain ⟨hread, rfl⟩ := expandComponents_eq_ok_iff.mp hexpand
    obtain ⟨hwritten, rfl⟩ := expandComponents_eq_ok_iff.mp hexpand'
    cases h
    refine ⟨⟨?_, List.forall_mem_append.mpr ⟨hread, hwritten⟩⟩, rfl⟩
    rw [List.forall_mem_append]
    exact ⟨fun fa hfa => validateField_eq_ok_iff.mp (forM_eq_ok_iff.mp hreads fa hfa),
      fun fa hfa => validateField_eq_ok_iff.mp (forM_eq_ok_iff.mp hwrites fa hfa)⟩
  · rintro ⟨hregistered, rfl⟩
    obtain ⟨hreads, hwrites⟩ := List.forall_mem_append.mp hregistered.fields
    obtain ⟨hread, hwritten⟩ := List.forall_mem_append.mp hregistered.components
    refine bind_eq_ok_iff.mpr ⟨(), forM_eq_ok_iff.mpr fun fa hfa => validateField_eq_ok_iff.mpr (hreads fa hfa), ?_⟩
    refine bind_eq_ok_iff.mpr ⟨(), forM_eq_ok_iff.mpr fun fa hfa => validateField_eq_ok_iff.mpr (hwrites fa hfa), ?_⟩
    refine bind_eq_ok_iff.mpr ⟨_, expandComponents_eq_ok_iff.mpr ⟨hread, rfl⟩, ?_⟩
    exact bind_eq_ok_iff.mpr ⟨_, expandComponents_eq_ok_iff.mpr ⟨hwritten, rfl⟩, rfl⟩

/-- What one component contributes to the fields of many. -/
theorem fields_of_wholeFields (component : String) :
    ((wholeFields schemas components).filter fun fa => fa.component = component).map FieldAccess.field =
      (List.replicate (components.count component) ((fieldNames schemas component).getD [])).flatten := by
  induction components with
  | nil => rfl
  | cons other components ih =>
    rw [wholeFields, List.flatMap_cons, List.filter_append, List.map_append, ← wholeFields, ih, List.count_cons]
    by_cases heq : other = component
    · subst heq
      rw [if_pos (beq_self_eq_true other), List.replicate_succ, List.flatten_cons]
      simp [List.filter_map, Function.comp_def]
    · rw [if_neg (by simpa using heq)]
      simp [List.filter_map, Function.comp_def, heq]

/-- Components that are registered in both have the same fields spelt out exactly when each has. -/
theorem wholeFields_eq_iff (h : ∀ component ∈ components, (schemas component).isSome)
    (h' : ∀ component ∈ components, (schemas' component).isSome) :
    wholeFields schemas components = wholeFields schemas' components ↔
      ∀ component ∈ components, fieldNames schemas component = fieldNames schemas' component := by
  constructor
  · intro heq component hmem
    have hfields := @fields_of_wholeFields schemas components component
    rw [heq, fields_of_wholeFields] at hfields
    obtain ⟨n, hn⟩ := Nat.exists_eq_succ_of_ne_zero (List.count_pos_iff.mpr hmem).ne'
    obtain ⟨schema, hschema⟩ := Option.isSome_iff_exists.mp (h component hmem)
    obtain ⟨schema', hschema'⟩ := Option.isSome_iff_exists.mp (h' component hmem)
    have hlength := congrArg List.length hfields
    simp only [List.length_flatten, List.map_replicate, List.sum_replicate_nat] at hlength
    have hsame := Nat.eq_of_mul_eq_mul_left (List.count_pos_iff.mpr hmem) hlength
    rw [hn, List.replicate_succ, List.replicate_succ, List.flatten_cons, List.flatten_cons] at hfields
    have hnames := List.append_inj_left hfields hsame
    rw [fieldNames, fieldNames, hschema, hschema'] at hnames ⊢
    exact congrArg some hnames.symm
  · intro heq
    rw [wholeFields, wholeFields]
    exact List.flatMap_congr fun component hmem => by rw [heq component hmem]

theorem expanded_eq_iff (h : m.Registered schemas) (h' : m.Registered schemas') :
    m.expanded schemas = m.expanded schemas' ↔ m.SameFields schemas schemas' := by
  obtain ⟨hread, hwritten⟩ := List.forall_mem_append.mp h.components
  obtain ⟨hread', hwritten'⟩ := List.forall_mem_append.mp h'.components
  rw [SystemMeta.SameFields, List.forall_mem_append, ← wholeFields_eq_iff hread hread',
    ← wholeFields_eq_iff hwritten hwritten', SystemMeta.expanded, SystemMeta.expanded, ExpandedMeta.mk.injEq]
  simp

/-! ## Plans over two registries -/

/-- All that the systems declare is registered. -/
def AllRegistered (systems : List (SystemEntry T V)) (schemas : SchemaRegistry) : Prop :=
  ∀ entry ∈ systems, entry.meta_.Registered schemas

/-- Two registries fall short of the declarations, or meet them and name the same fields for each component
that is declared as a whole. -/
def SamePlan (systems : List (SystemEntry T V)) (schemas schemas' : SchemaRegistry) : Prop :=
  (AllRegistered systems schemas ↔ AllRegistered systems schemas') ∧
    (AllRegistered systems schemas → ∀ entry ∈ systems, entry.meta_.SameFields schemas schemas')

variable {systems : List (SystemEntry T V)}

theorem expandMetas_eq_ok_iff {metas : List (ExpandedMeta T)} : expandMetas schemas systems = .ok metas ↔
    AllRegistered systems schemas ∧ metas = systems.map fun entry => entry.meta_.expanded schemas := by
  rw [expandMetas, AllRegistered]
  induction systems generalizing metas with
  | nil =>
    rw [List.mapM_nil]
    exact ⟨fun h => ⟨nofun, by cases h; rfl⟩, fun ⟨_, h⟩ => by rw [h]; rfl⟩
  | cons entry systems ih =>
    rw [List.mapM_cons, List.forall_mem_cons, List.map_cons]
    constructor
    · intro h
      obtain ⟨_, hentry, h⟩ := bind_eq_ok_iff.mp h
      obtain ⟨_, hrest, h⟩ := bind_eq_ok_iff.mp h
      obtain ⟨hregistered, rfl⟩ := fromMeta_eq_ok_iff.mp hentry
      obtain ⟨hall, rfl⟩ := ih.mp hrest
      cases h
      exact ⟨⟨hregistered, hall⟩, rfl⟩
    · rintro ⟨⟨hregistered, hall⟩, rfl⟩
      refine bind_eq_ok_iff.mpr ⟨_, fromMeta_eq_ok_iff.mpr ⟨hregistered, rfl⟩, ?_⟩
      exact bind_eq_ok_iff.mpr ⟨_, ih.mpr ⟨hall, rfl⟩, rfl⟩

variable [DecidableEq T]

/-- The plan where all is registered. -/
def planOver (systems : List (SystemEntry T V)) (schemas : SchemaRegistry) : Plan T :=
  let metas := systems.map fun entry => entry.meta_.expanded schemas
  { expandedMetas := metas
    stages := (buildStagesInner systems metas).1
    configs := (buildStagesInner systems metas).2 }

theorem computePlan_eq_ok_iff {plan : Plan T} : computePlan systems schemas = .ok plan ↔
    AllRegistered systems schemas ∧ plan = planOver systems schemas := by
  rw [computePlan]
  constructor
  · intro h
    obtain ⟨metas, hmetas, h⟩ := bind_eq_ok_iff.mp h
    obtain ⟨hall, rfl⟩ := expandMetas_eq_ok_iff.mp hmetas
    cases h
    exact ⟨hall, rfl⟩
  · rintro ⟨hall, rfl⟩
    exact bind_eq_ok_iff.mpr ⟨_, expandMetas_eq_ok_iff.mpr ⟨hall, rfl⟩, rfl⟩

/-- The same plans come of two registries exactly when they plan the same. -/
theorem computePlan_eq_iff : (∀ plan, computePlan systems schemas = .ok plan ↔
    computePlan systems schemas' = .ok plan) ↔ SamePlan systems schemas schemas' := by
  constructor
  · intro heq
    have hto : AllRegistered systems schemas →
        AllRegistered systems schemas' ∧ planOver systems schemas = planOver systems schemas' :=
      fun hall => computePlan_eq_ok_iff.mp ((heq _).mp (computePlan_eq_ok_iff.mpr ⟨hall, rfl⟩))
    refine ⟨⟨fun hall => (hto hall).1, fun hall => ?_⟩, fun hall entry hentry => ?_⟩
    · exact (computePlan_eq_ok_iff.mp ((heq _).mpr (computePlan_eq_ok_iff.mpr ⟨hall, rfl⟩))).1
    · obtain ⟨hall', hplan⟩ := hto hall
      have hexpanded := List.map_inj_left.mp (congrArg Plan.expandedMetas hplan) entry hentry
      exact (expanded_eq_iff (hall entry hentry) (hall' entry hentry)).mp hexpanded
  · rintro ⟨hboth, hsame⟩ plan
    rw [computePlan_eq_ok_iff, computePlan_eq_ok_iff, ← hboth]
    refine and_congr_right fun hall => ?_
    have hmetas : (systems.map fun entry => entry.meta_.expanded schemas) =
        systems.map fun entry => entry.meta_.expanded schemas' :=
      List.map_congr_left fun entry hentry =>
        (expanded_eq_iff (hall entry hentry) (hboth.mp hall entry hentry)).mpr (hsame hall entry hentry)
    rw [planOver, planOver, hmetas]

namespace Pipeline

/-! ## The cells -/

/-- The plan that a call over a registry works with, or the error it answers. -/
def planFor (p : Pipeline T V) (asked : SchemaRegistry) : SaciResult (Option (Plan T)) :=
  match p.ensurePlan asked with
  | (_, .error e) => .error e
  | (p, .ok ()) => .ok p.plan

/-- A call over a registry works with the plan of that registry, or answers an error where it has none. -/
def Fresh (p : Pipeline T V) (asked : SchemaRegistry) : Prop :=
  match p.planFor asked, computePlan p.systems asked with
  | .ok used, .ok plan => used = some plan
  | .error _, .error _ => True
  | _, _ => False

/-- The cells hold what was computed over a registry. -/
structure Holds (p : Pipeline T V) (schemas : SchemaRegistry) : Prop where
  metas : p.expandedMetas = some (expandMetas schemas p.systems)
  plan : ∀ metas, expandMetas schemas p.systems = .ok metas →
    p.stages = some (.ok (buildStagesInner p.systems metas).1) ∧
      p.configs = some (buildStagesInner p.systems metas).2
  failed : ∀ e, expandMetas schemas p.systems = .error e → p.stages = none ∧ p.configs = none

/-- The cells are empty, or hold what was computed over the pinned registry. -/
def Caches (p : Pipeline T V) : Option SchemaRegistry → Prop
  | none => p.expandedMetas = none ∧ p.stages = none ∧ p.configs = none
  | some schemas => p.Holds schemas

variable {p : Pipeline T V} {pinned : Option SchemaRegistry}

theorem ensurePlan_data (asked : SchemaRegistry) : (p.ensurePlan asked).1.data = p.data ∧
    (p.ensurePlan asked).1.systems = p.systems ∧ (p.ensurePlan asked).1.lastStats = p.lastStats := by
  rw [ensurePlan]
  dsimp only
  rcases p.expandedMetas.getD (expandMetas asked p.systems) with e | metas
  · exact ⟨rfl, rfl, rfl⟩
  · rcases p.stages with _ | _ | _ <;> exact ⟨rfl, rfl, rfl⟩

/-- A call pins the registry it comes with, if none is pinned. -/
theorem Caches.ensurePlan (h : p.Caches pinned) (asked : SchemaRegistry) :
    (p.ensurePlan asked).1.Holds (pinned.getD asked) ∧
      (p.ensurePlan asked).2 = (expandMetas (pinned.getD asked) p.systems).map fun _ => () := by
  rcases pinned with _ | schemas
  · obtain ⟨hmetas, hstages, hconfigs⟩ := h
    rw [Option.getD_none, Pipeline.ensurePlan]
    dsimp only
    rw [hmetas, Option.getD_none]
    rcases hexpand : expandMetas asked p.systems with e | metas
    · refine ⟨⟨congrArg some hexpand.symm, fun metas hok => ?_, fun _ _ => ⟨hstages, hconfigs⟩⟩, rfl⟩
      cases hexpand.symm.trans hok
    · dsimp only
      rw [hstages, hconfigs]
      refine ⟨⟨congrArg some hexpand.symm, fun metas' hok => ?_, fun e hfailed => ?_⟩, rfl⟩
      · cases hexpand.symm.trans hok
        exact ⟨rfl, rfl⟩
      · cases hexpand.symm.trans hfailed
  · rw [Option.getD_some, Pipeline.ensurePlan]
    dsimp only
    rw [h.metas, Option.getD_some]
    rcases hexpand : expandMetas schemas p.systems with e | metas
    · exact ⟨⟨congrArg some hexpand.symm, h.plan, h.failed⟩, rfl⟩
    · obtain ⟨hstages, hconfigs⟩ := h.plan metas hexpand
      dsimp only
      rw [hstages]
      refine ⟨⟨congrArg some hexpand.symm, fun metas' hok => ?_, fun e hfailed => ?_⟩, rfl⟩
      · cases hexpand.symm.trans hok
        exact ⟨rfl, hconfigs⟩
      · cases hexpand.symm.trans hfailed

/-- A call works with the plan of the pinned registry, or answers its error. -/
theorem Caches.planFor (h : p.Caches pinned) (asked : SchemaRegistry) :
    p.planFor asked = (computePlan p.systems (pinned.getD asked)).map some := by
  obtain ⟨hholds, hanswer⟩ := h.ensurePlan asked
  have hsystems := (@ensurePlan_data T V _ p asked).2.1
  rw [Pipeline.planFor, computePlan]
  generalize p.ensurePlan asked = result at hholds hanswer hsystems
  obtain ⟨after, answer⟩ := result
  dsimp only at hholds hanswer hsystems
  rw [← hsystems] at hanswer ⊢
  rcases hexpand : expandMetas (pinned.getD asked) after.systems with e | metas
  · rw [hexpand] at hanswer
    rw [hanswer]
    rfl
  · obtain ⟨hstages, hconfigs⟩ := hholds.plan metas hexpand
    rw [hexpand] at hanswer
    rw [hanswer]
    refine congrArg Except.ok ?_
    rw [plan, hholds.metas, hexpand, hstages, hconfigs]
    rfl

/-- How a call begins: with an error, or with a plan. -/
theorem Caches.begins (h : p.Caches pinned) (asked : SchemaRegistry) :
    (∃ after e, p.ensurePlan asked = (after, .error e) ∧ after.data = p.data ∧
        computePlan p.systems (pinned.getD asked) = .error e) ∨
      ∃ after plan, p.ensurePlan asked = (after, .ok ()) ∧ after.data = p.data ∧ after.systems = p.systems ∧
        after.plan = some plan ∧ computePlan p.systems (pinned.getD asked) = .ok plan := by
  have hplan := h.planFor asked
  obtain ⟨hdata, hsystems, -⟩ := @ensurePlan_data T V _ p asked
  rw [Pipeline.planFor] at hplan
  generalize hresult : p.ensurePlan asked = result at hplan hdata hsystems
  obtain ⟨after, e | ⟨⟩⟩ := result
  · rcases hcompute : computePlan p.systems (pinned.getD asked) with e' | plan
    · rw [hcompute] at hplan
      cases hplan
      exact .inl ⟨after, e, rfl, hdata, rfl⟩
    · rw [hcompute] at hplan
      cases hplan
  · rcases hcompute : computePlan p.systems (pinned.getD asked) with e' | plan
    · rw [hcompute] at hplan
      cases hplan
    · rw [hcompute] at hplan
      exact .inr ⟨after, plan, rfl, hdata, hsystems, Except.ok.inj hplan, rfl⟩

/-- The plan in use is that of the registry at hand exactly when the pinned one plans the same. -/
theorem Caches.fresh_iff (h : p.Caches pinned) (asked : SchemaRegistry) :
    p.Fresh asked ↔ ∀ schemas ∈ pinned, SamePlan p.systems schemas asked := by
  rw [Fresh, h.planFor asked]
  rcases pinned with _ | schemas
  · rw [Option.getD_none]
    refine iff_of_true ?_ nofun
    rcases computePlan p.systems asked with e | plan
    · trivial
    · exact rfl
  · rw [Option.getD_some]
    simp only [Option.mem_some_iff, forall_eq', ← computePlan_eq_iff]
    rcases computePlan p.systems schemas with e | plan
    · rcases computePlan p.systems asked with e' | plan'
      · exact iff_of_true trivial fun _ => iff_of_false nofun nofun
      · exact iff_of_false id fun heq => nomatch (heq plan').mpr rfl
    · rcases computePlan p.systems asked with e' | plan'
      · exact iff_of_false id fun heq => nomatch (heq plan).mp rfl
      · constructor
        · rintro ⟨⟩ _
          exact Iff.rfl
        · intro heq
          cases (heq plan).mp rfl
          rfl

end Pipeline

/-! ## Any run -/

/-- What is done with a pipeline. Components are registered through `data_mut`, which can change the dataset
in any way. -/
inductive PipelineOp (T V : Type)
  | dataMut (change : Dataset (ResourceMap T V) → Dataset (ResourceMap T V))
  | addSystem (entry : SystemEntry T V)
  | validate
  | run
  | runOn (data : Dataset (ResourceMap T V))

namespace Pipeline

def apply (M : Machine) (p : Pipeline T V) : PipelineOp T V → Pipeline T V
  | .dataMut change => { p with data := change p.data }
  | .addSystem entry => p.addSystem entry
  | .validate => p.validate.1
  | .run => (p.run M).1
  | .runOn data => (p.runOnWithStats M data).1

/-- The registry that a call plans over. -/
def asks (p : Pipeline T V) : PipelineOp T V → Option SchemaRegistry
  | .dataMut _ => none
  | .addSystem _ => none
  | .validate => some p.data.schemas
  | .run => some p.data.schemas
  | .runOn data => some data.schemas

/-- The first registry that was planned over since the last system was added. -/
def pin (p : Pipeline T V) (pinned : Option SchemaRegistry) : PipelineOp T V → Option SchemaRegistry
  | .addSystem _ => none
  | op => pinned <|> p.asks op

/-- A pipeline after some operations, and the registry that is pinned then. -/
def after (M : Machine) (p : Pipeline T V) (ops : List (PipelineOp T V)) :
    Pipeline T V × Option SchemaRegistry :=
  ops.foldl (fun s op => (s.1.apply M op, s.1.pin s.2 op)) (p, none)

variable {p : Pipeline T V} {pinned : Option SchemaRegistry}

theorem Holds.congr {p' : Pipeline T V} (h : p.Holds schemas) (hsystems : p'.systems = p.systems)
    (hmetas : p'.expandedMetas = p.expandedMetas) (hstages : p'.stages = p.stages)
    (hconfigs : p'.configs = p.configs) : p'.Holds schemas := by
  constructor
  · rw [hsystems, hmetas]
    exact h.metas
  · rw [hsystems, hstages, hconfigs]
    exact h.plan
  · rw [hsystems, hstages, hconfigs]
    exact h.failed

theorem Caches.congr {p' : Pipeline T V} (h : p.Caches pinned) (hsystems : p'.systems = p.systems)
    (hmetas : p'.expandedMetas = p.expandedMetas) (hstages : p'.stages = p.stages)
    (hconfigs : p'.configs = p.configs) : p'.Caches pinned := by
  rcases pinned with _ | schemas
  · rw [Caches, hmetas, hstages, hconfigs]
    exact h
  · exact Holds.congr h hsystems hmetas hstages hconfigs

/-- One operation keeps the cells to what is pinned. -/
theorem Caches.apply (M : Machine) (h : p.Caches pinned) (op : PipelineOp T V) :
    (p.apply M op).Caches (p.pin pinned op) := by
  have hpin : ∀ asked, (p.ensurePlan asked).1.Caches (pinned <|> some asked) := by
    intro asked
    have hholds := (h.ensurePlan asked).1
    rcases pinned with _ | schemas
    · exact hholds
    · exact hholds
  cases op with
  | dataMut change =>
    rcases pinned with _ | schemas <;> exact h.congr rfl rfl rfl rfl
  | addSystem entry => exact ⟨rfl, rfl, rfl⟩
  | validate => exact hpin p.data.schemas
  | run =>
    have hheld := hpin p.data.schemas
    rw [Pipeline.apply, run]
    generalize p.ensurePlan p.data.schemas = result at hheld ⊢
    obtain ⟨planned, e | ⟨⟩⟩ := result
    · exact hheld
    · dsimp only
      rcases planned.runPlan M planned.data with ⟨data, e | stats⟩
      · exact hheld.congr rfl rfl rfl rfl
      · exact hheld.congr rfl rfl rfl rfl
  | runOn data =>
    have hheld := hpin data.schemas
    rw [Pipeline.apply, runOnWithStats]
    generalize p.ensurePlan data.schemas = result at hheld ⊢
    obtain ⟨planned, e | ⟨⟩⟩ := result
    · exact hheld
    · dsimp only
      rcases planned.runPlan M data with ⟨data', e | stats⟩
      · exact hheld
      · exact hheld.congr rfl rfl rfl rfl

namespace Remembered

def machine : Machine := ⟨1, 1, by decide, by decide, by decide, by decide⟩

/-- A system that reads one field. -/
def reader : SystemEntry Unit Unit :=
  .sequential {
    meta_ := ⟨"reader", [⟨"Order", "id"⟩], [], [], [], [], []⟩
    config := {}
    run := fun data => (data, .ok ()) }

def register (data : Dataset (ResourceMap Unit Unit)) : Dataset (ResourceMap Unit Unit) :=
  (data.registerComponent "Order" ⟨[⟨"id", .int32, false⟩]⟩ 1).toOption.getD data

end Remembered
end Pipeline
end Saci
