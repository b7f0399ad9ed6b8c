import Mathlib
import Saci.Core.Execution
import Saci.Core.StagePlan

/-!
# Stages keep the meaning of the registration order

A dataset is looked at through its shape, the columns of its components and its resources. Systems
that stay within what they declare can be run stage by stage, in any order inside a stage: what
they leave is what running them one after the other leaves
(`stages_refine_registration_order`).
-/

namespace Saci

variable {T V : Type}

/-! ## Places of a dataset -/

/-- The places of a dataset that a system may read or write. -/
inductive Loc (T : Type)
  | shape
  | column (name : String) (idx : Nat)
  | resource (r : T)

/-- What there is to see at a place. -/
abbrev Loc.Value (V : Type) : Loc T → Type
  | .shape => Shape
  | .column _ _ => Option (List Cell)
  | .resource _ => Option V

/-- A dataset as it shows at each place. -/
def look (data : Dataset (ResourceMap T V)) : ∀ l : Loc T, l.Value V
  | .shape => data.shape
  | .column name idx => data.columnAt name idx
  | .resource r => data.resources r

/-! ## Footprints -/

/-- The columns with the fields given, and the resources given. -/
def Loc.Of (schemas : SchemaRegistry) (fields : FieldAccess → Prop) (resources : List T) :
    Loc T → Prop
  | .shape => False
  | .column name idx =>
    ∃ schema field, schemas name = some schema ∧ schema.fields[idx]? = some field ∧
      fields ⟨name, field.name⟩
  | .resource r => r ∈ resources

namespace SystemMeta

/-- What a system may look at: what it declares to read, and the shape of the dataset. -/
def readLocs (schemas : SchemaRegistry) (m : SystemMeta T) : Set (Loc T) :=
  {l | l = .shape ∨ Loc.Of schemas (m.ReadsField schemas) m.readsResources l}

/-- What a system may change. -/
def writeLocs (schemas : SchemaRegistry) (m : SystemMeta T) : Set (Loc T) :=
  {l | Loc.Of schemas (m.WritesField schemas) m.writesResources l}

/-- Systems that do not conflict write nothing that the other one touches. -/
theorem disjoint_writeLocs {schemas : SchemaRegistry} {a b : SystemMeta T}
    (h : ¬ a.Conflicts schemas b) :
    Disjoint (a.writeLocs schemas) (b.readLocs schemas ∪ b.writeLocs schemas) := by
  rw [Set.disjoint_left]
  intro l hw htouch
  cases l with
  | shape => exact hw
  | column name idx =>
    obtain ⟨schema, field, hschema, hfield, hwrites⟩ := hw
    refine h (.inl ⟨⟨name, field.name⟩, .inl ⟨hwrites, ?_⟩⟩)
    rcases htouch with (htouch | htouch) | htouch
    · cases htouch
    · obtain ⟨schema', field', hschema', hfield', hreads⟩ := htouch
      rw [hschema] at hschema'
      cases hschema'
      rw [hfield] at hfield'
      cases hfield'
      exact .inl hreads
    · obtain ⟨schema', field', hschema', hfield', hwrites'⟩ := htouch
      rw [hschema] at hschema'
      cases hschema'
      rw [hfield] at hfield'
      cases hfield'
      exact .inr hwrites'
  | resource r =>
    refine h (.inr ⟨r, .inl ⟨hw, ?_⟩⟩)
    rcases htouch with (htouch | htouch) | htouch
    · cases htouch
    · exact .inl htouch
    · exact .inr htouch

theorem Conflicts.symm {schemas : SchemaRegistry} {a b : SystemMeta T}
    (h : a.Conflicts schemas b) : b.Conflicts schemas a := by
  rcases h with ⟨fa, h⟩ | ⟨r, h⟩
  · exact .inl ⟨fa, h.symm⟩
  · exact .inr ⟨r, h.symm⟩

end SystemMeta

/-! ## Retries -/

section
variable {S α L : Type} {W : L → Type} {see : S → ∀ l, W l} {inv : S → Prop} {r w : Set L}
  {f : S → S × SaciResult α}

/-- Retries stay within what the attempts touch. -/
theorem within_retryLoop (hf : Effects.Within see inv r w f) (left attempt : Nat) :
    Effects.Within see inv r w (retryLoop f left attempt) := by
  induction left generalizing attempt with
  | zero =>
    have hnext (x : SaciResult α) : Effects.Within see inv r w fun s' =>
        match x with
        | .ok value => (s', Except.ok (value, attempt))
        | .error e => (s', Except.error (SaciError.retryExhausted e (attempt + 1))) := by
      cases x <;> exact .answer _
    refine (hf.bind hnext).congr fun s => ?_
    rw [retryLoop]
    rcases f s with ⟨s', e | value⟩ <;> rfl
  | succ left ih =>
    have hnext (x : SaciResult α) : Effects.Within see inv r w fun s' =>
        match x with
        | .ok value => (s', Except.ok (value, attempt))
        | .error _ => retryLoop f left (attempt + 1) s' := by
      cases x
      · exact ih (attempt + 1)
      · exact .answer _
    refine (hf.bind hnext).congr fun s => ?_
    conv_rhs => rw [retryLoop]
    rcases f s with ⟨s', e | value⟩ <;> rfl

theorem within_runWithRetries (hf : Effects.Within see inv r w f) (config : SystemConfig) :
    Effects.Within see inv r w (runWithRetries config f) :=
  within_retryLoop hf _ 0

end

section
variable {M : Machine} {systems : List (SystemEntry T V)}
  {configs : List SystemConfig} {inv : Dataset (ResourceMap T V) → Prop} {r w : Set (Loc T)}
  {data : Dataset (ResourceMap T V)} {metas : List (ExpandedMeta T)} {idx : Nat}

/-- A sequential system touches what its attempts touch. -/
theorem within_runSystem_sequential [DecidableEq T] {sys : System T V} {config : SystemConfig}
    (hsys : systems[idx]? = some (.sequential sys)) (hconfig : configs[idx]? = some config)
    (h : Effects.Within look inv r w sys.attempt) :
    Effects.Within look inv r w (runSystem M systems configs idx) := by
  have hnext (x : SaciResult (Unit × Nat)) :
      Effects.Within look inv r w fun s' : Dataset (ResourceMap T V) =>
        match x with
        | .error e => (s', Except.error e)
        | .ok (_, retries) => (s', Except.ok ((1, retries) : Nat × Nat)) := by
    cases x <;> exact .answer _
  refine ((within_runWithRetries h config).bind hnext).congr fun s => ?_
  simp only [runSystem, hsys, hconfig, runArrowSystemWithRetries]
  rcases runWithRetries config sys.attempt s with ⟨s', e | ⟨value, retries⟩⟩ <;> rfl

/-! ## Stages in place of the registration order -/

/-- The systems at two indices conflict, and the first was added before the second. -/
def SystemConflict (schemas : SchemaRegistry) (systems : List (SystemEntry T V)) (i j : Nat) :
    Prop :=
  i < j ∧ ∃ a b, systems[i]? = some a ∧ systems[j]? = some b ∧
    a.meta_.Conflicts schemas b.meta_

theorem conflictEdge_iff {schemas : SchemaRegistry} (h : expandMetas schemas systems = .ok metas)
    {i j : Nat} : ConflictEdge metas i j ↔ SystemConflict schemas systems i j := by
  have hall := forall₂_of_mapM_eq_ok h
  refine and_congr_right fun _ => ⟨?_, ?_⟩
  · rintro ⟨a, b, ha, hb, hab⟩
    obtain ⟨ea, hea, hma⟩ := getElem?_of_forall₂ hall.flip ha
    obtain ⟨eb, heb, hmb⟩ := getElem?_of_forall₂ hall.flip hb
    exact ⟨ea, eb, hea, heb, ((ExpandedMeta.expands_of_fromMeta hma).conflicts_iff
      (ExpandedMeta.expands_of_fromMeta hmb)).mp hab⟩
  · rintro ⟨ea, eb, hea, heb, hab⟩
    obtain ⟨a, ha, hma⟩ := getElem?_of_forall₂ hall hea
    obtain ⟨b, hb, hmb⟩ := getElem?_of_forall₂ hall heb
    exact ⟨a, b, ha, hb, ((ExpandedMeta.expands_of_fromMeta hma).conflicts_iff
      (ExpandedMeta.expands_of_fromMeta hmb)).mpr hab⟩

/-- The footprint of the system at an index. -/
def readsAt (schemas : SchemaRegistry) (systems : List (SystemEntry T V)) (i : Nat) :
    Set (Loc T) :=
  {l | ∃ entry, systems[i]? = some entry ∧ l ∈ entry.meta_.readLocs schemas}

def writesAt (schemas : SchemaRegistry) (systems : List (SystemEntry T V)) (i : Nat) :
    Set (Loc T) :=
  {l | ∃ entry, systems[i]? = some entry ∧ l ∈ entry.meta_.writeLocs schemas}

theorem readsAt_eq {schemas : SchemaRegistry} {i : Nat} {entry : SystemEntry T V}
    (h : systems[i]? = some entry) :
    readsAt schemas systems i = entry.meta_.readLocs schemas := by
  ext l
  simp [readsAt, h]

theorem writesAt_eq {schemas : SchemaRegistry} {i : Nat} {entry : SystemEntry T V}
    (h : systems[i]? = some entry) :
    writesAt schemas systems i = entry.meta_.writeLocs schemas := by
  ext l
  simp [writesAt, h]

/-- Two systems are apart, or they conflict. -/
theorem apart_or_conflict {schemas : SchemaRegistry} {i j : Nat} {a b : SystemEntry T V}
    (hi : systems[i]? = some a) (hj : systems[j]? = some b) (hij : i ≠ j) :
    Effects.Apart (readsAt schemas systems) (writesAt schemas systems) i j ∨
      SystemConflict schemas systems i j ∨ SystemConflict schemas systems j i := by
  by_cases h : a.meta_.Conflicts schemas b.meta_
  · right
    rcases Nat.lt_or_gt_of_ne hij with hlt | hgt
    · exact .inl ⟨hlt, a, b, hi, hj, h⟩
    · exact .inr ⟨hgt, b, a, hj, hi, h.symm⟩
  · left
    rw [Effects.Apart, readsAt_eq hi, readsAt_eq hj, writesAt_eq hi, writesAt_eq hj]
    exact ⟨SystemMeta.disjoint_writeLocs h, SystemMeta.disjoint_writeLocs fun hba => h hba.symm⟩

section
variable [DecidableEq T] {schemas : SchemaRegistry} {order : List (List Nat)} {i j l l' : Nat}
  {stage stage' : List Nat}

/-- A conflict puts the later system into a later stage. -/
theorem stage_lt_of_conflict (h : expandMetas schemas systems = .ok metas)
    (hconflict : SystemConflict schemas systems i j)
    (hl : (buildStagesInner systems metas).1[l]? = some stage) (hi : i ∈ stage)
    (hl' : (buildStagesInner systems metas).1[l']? = some stage') (hj : j ∈ stage') : l < l' := by
  have hlt := levels_lt (forall₂_of_mapM_eq_ok h).length_eq ((conflictEdge_iff h).mpr hconflict)
  rwa [((mem_stage hl).mp hi).2, ((mem_stage hl').mp hj).2] at hlt

/-- Systems in stages that follow one another are apart or in their order of registration. -/
theorem apart_or_lt (h : expandMetas schemas systems = .ok metas) (hle : l ≤ l')
    (hl : (buildStagesInner systems metas).1[l]? = some stage) (hi : i ∈ stage)
    (hl' : (buildStagesInner systems metas).1[l']? = some stage') (hj : j ∈ stage')
    (hij : i ≠ j) :
    Effects.Apart (readsAt schemas systems) (writesAt schemas systems) i j ∨ i < j := by
  have hilt := ((mem_stage hl).mp hi).1
  have hjlt := ((mem_stage hl').mp hj).1
  rcases apart_or_conflict (List.getElem?_eq_getElem hilt) (List.getElem?_eq_getElem hjlt) hij with
    hapart | hconflict | hconflict
  · exact .inl hapart
  · exact .inr hconflict.1
  · exact absurd (stage_lt_of_conflict h hconflict hl' hj hl hi) (not_lt.mpr hle)

/-- The stages of a plan, each in any order, leave conflicting systems in their order of
registration. -/
theorem pairwise_order (h : expandMetas schemas systems = .ok metas)
    (horder : List.Forall₂ List.Perm order (buildStagesInner systems metas).1) :
    order.flatten.Pairwise fun i j =>
      Effects.Apart (readsAt schemas systems) (writesAt schemas systems) i j ∨ i < j := by
  refine List.pairwise_flatten.mpr ⟨fun part hpart => ?_, ?_⟩
  · obtain ⟨l, hl⟩ := List.mem_iff_getElem?.mp hpart
    obtain ⟨stage, hstage, hperm⟩ := getElem?_of_forall₂ horder hl
    have hnodup : part.Nodup := by
      rw [hperm.nodup_iff, getElem?_stages hstage]
      exact List.nodup_range.filter _
    refine hnodup.imp_of_mem fun hi hj hij => ?_
    exact apart_or_lt h le_rfl hstage (hperm.mem_iff.mp hi) hstage (hperm.mem_iff.mp hj) hij
  · refine List.pairwise_iff_getElem.mpr fun l l' hl hl' hlt i hi j hj => ?_
    obtain ⟨stage, hstage, hperm⟩ := getElem?_of_forall₂ horder (List.getElem?_eq_getElem hl)
    obtain ⟨stage', hstage', hperm'⟩ := getElem?_of_forall₂ horder (List.getElem?_eq_getElem hl')
    have hi := hperm.mem_iff.mp hi
    have hj := hperm'.mem_iff.mp hj
    refine apart_or_lt h hlt.le hstage hi hstage' hj fun hij => ?_
    rw [hij] at hi
    have := ((mem_stage hstage).mp hi).2.symm.trans ((mem_stage hstage').mp hj).2
    exact absurd this hlt.ne

/-- The plan of systems with validated declarations: its stages are a partition of the systems,
conflicting systems are in stages in their order of registration, the stage of a system is the
length of the longest chain of conflicts that ends there, and for systems that stay within what
they declare, running stage after stage, each in any order, does what running all systems in their
order of registration does. -/
theorem stages_refine_registration_order (M : Machine) (systems : List (SystemEntry T V))
    (data : Dataset (ResourceMap T V)) (metas : List (ExpandedMeta T))
    (hmetas : expandMetas data.schemas systems = .ok metas) :
    let stages := (buildStagesInner systems metas).1
    let configs := (buildStagesInner systems metas).2
    stages.flatten.Perm (List.range systems.length) ∧
      (∀ (i j l l' : Nat) (stage stage' : List Nat), SystemConflict data.schemas systems i j →
        stages[l]? = some stage → i ∈ stage → stages[l']? = some stage' → j ∈ stage' → l < l') ∧
      (∀ (l : Nat) (stage : List Nat), stages[l]? = some stage → ∀ j ∈ stage,
        IsGreatest {k | Kahn.ChainInto (SystemConflict data.schemas systems) k j} l) ∧
      ∀ (inv : Dataset (ResourceMap T V) → Prop) (order : List (List Nat)), inv data →
        (∀ i entry, systems[i]? = some entry →
          Effects.Within look inv (entry.meta_.readLocs data.schemas)
            (entry.meta_.writeLocs data.schemas) (runSystem M systems configs i)) →
        List.Forall₂ List.Perm order stages → ∀ left result,
          (runLoop M systems configs (List.range systems.length) data = (left, .ok result) →
            ∃ left', Effects.runAll (order.map (runLoop M systems configs)) data =
              (left', .ok result) ∧ Effects.Alike look left left') ∧
          (Effects.runAll (order.map (runLoop M systems configs)) data = (left, .ok result) →
            ∃ left', runLoop M systems configs (List.range systems.length) data =
              (left', .ok result) ∧ Effects.Alike look left left') := by
  intro stages configs
  refine ⟨flatten_stages, fun i j l l' stage stage' hconflict hl hi hl' hj =>
    stage_lt_of_conflict hmetas hconflict hl hi hl' hj, fun l stage hl j hj => ?_, ?_⟩
  · have hgreatest := levels_isGreatest (forall₂_of_mapM_eq_ok hmetas).length_eq j
    have hconflict : ConflictEdge metas = SystemConflict data.schemas systems :=
      funext fun i => funext fun j => propext (conflictEdge_iff hmetas)
    rwa [((mem_stage hl).mp hj).2, hconflict] at hgreatest
  · intro inv order hinv hsystems horder left result
    have hperm : (List.range systems.length).Perm order.flatten :=
      (flatten_stages.symm.trans (List.Perm.flatten_congr horder).symm)
    have hwithin : ∀ i ∈ List.range systems.length,
        Effects.Within look inv (readsAt data.schemas systems i)
          (writesAt data.schemas systems i) (runSystem M systems configs i) := by
      intro i hi
      have hsys := List.getElem?_eq_getElem (List.mem_range.mp hi)
      rw [readsAt_eq hsys, writesAt_eq hsys]
      exact hsystems i _ hsys
    have hregistration : (List.range systems.length).Pairwise fun i j : Nat =>
        Effects.Apart (readsAt data.schemas systems) (writesAt data.schemas systems) i j ∨ i < j :=
      List.pairwise_lt_range.imp .inr
    have hstages := pairwise_order hmetas horder
    have hflatten (left' : Dataset (ResourceMap T V)) :
        Effects.runAll (order.map (runLoop M systems configs)) data = (left', .ok result) ↔
          Effects.runAll (order.flatten.map (runSystem M systems configs)) data =
            (left', .ok result) := by
      rw [List.map_flatten, ← Effects.runAll_flatten_eq_ok, List.map_map]
      rfl
    simp only [hflatten]
    exact ⟨Effects.runAll_perm (fun _ _ => Nat.lt_asymm) hperm.symm
        (fun i hi => hwithin i (hperm.mem_iff.mpr hi)) hstages hregistration hinv,
      Effects.runAll_perm (fun _ _ => Nat.lt_asymm) hperm hwithin hregistration hstages hinv⟩

end

end

namespace StageSample

/-- A system that sets a resource to what it computes from the resources. -/
def resourceSystem (name : String) (reads : List Nat) (target : Nat)
    (compute : ResourceMap Nat Nat → Nat) : System Nat Nat where
  meta_ :=
    { name, reads := [⟨"Order", "total"⟩], writes := [], readsComponents := [],
      writesComponents := [], readsResources := reads, writesResources := [target] }
  config := {}
  run data :=
    (data.insertResource fun resources =>
      Function.update resources target (some (compute resources)), .ok ())

theorem within_resourceSystem {schemas : SchemaRegistry} {name : String} {reads : List Nat}
    {target : Nat} {compute : ResourceMap Nat Nat → Nat}
    (hcompute : ∀ res res' : ResourceMap Nat Nat, (∀ r ∈ reads, res r = res' r) →
      compute res = compute res') :
    Effects.Within look (fun _ => True)
      ((resourceSystem name reads target compute).meta_.readLocs schemas)
      ((resourceSystem name reads target compute).meta_.writeLocs schemas)
      (resourceSystem name reads target compute).attempt where
  keeps _ := trivial
  frame {data l} _ hl := by
    cases l with
    | shape => rfl
    | column name idx => rfl
    | resource r =>
      have hne : r ≠ target := fun h => hl (List.mem_singleton.mpr h)
      exact Function.update_of_ne hne _ _
  value _ _ _ := rfl
  written {data data'} _ _ h l hl := by
    cases l with
    | shape => exact hl.elim
    | column name idx =>
      obtain ⟨_, _, _, _, hwrites⟩ := hl
      simp [SystemMeta.WritesField, Declares, resourceSystem] at hwrites
    | resource r =>
      cases List.mem_singleton.mp hl
      have hsame := hcompute data.resources data'.resources fun r hr =>
        h (.resource r) (.inl (.inr hr))
      simp [look, System.attempt, resourceSystem, Dataset.insertResource, hsame]

def machine : Machine := ⟨4, 4, by decide, by decide, by decide, by decide⟩

def publish : System Nat Nat := resourceSystem "publish" [] 0 fun _ => 7
def copy : System Nat Nat := resourceSystem "copy" [0] 1 fun resources => (resources 0).getD 0
def audit : System Nat Nat := resourceSystem "audit" [] 2 fun _ => 9

def systems : List (SystemEntry Nat Nat) := [.sequential publish, .sequential copy, .sequential audit]

def data : Dataset (ResourceMap Nat Nat) where
  components := [Dataset.freshEntry "Order" ⟨[⟨"total", .float64, false⟩]⟩ 1]
  rowCount := 0
  alive := []
  liveCount := 0
  deadCount := 0
  resources := fun _ => none

def metas : List (ExpandedMeta Nat) :=
  [⟨"publish", [⟨"Order", "total"⟩], [], [], [0]⟩, ⟨"copy", [⟨"Order", "total"⟩], [], [0], [1]⟩,
    ⟨"audit", [⟨"Order", "total"⟩], [], [], [2]⟩]

/-- The copy waits for the resource it reads, and the two systems of the first stage can be run in
either order. -/
theorem copy_runs_last :
    (buildStagesInner systems metas).1 = [[0, 2], [1]] ∧
      ∃ left', Effects.runAll ([[2, 0], [1]].map (runLoop machine systems
          (buildStagesInner systems metas).2)) data = (left', .ok (3, 0)) ∧
        Effects.Alike look (runLoop machine systems (buildStagesInner systems metas).2
          (List.range 3) data).1 left' := by
  have hstages : (buildStagesInner systems metas).1 = [[0, 2], [1]] := by decide
  refine ⟨hstages, ?_⟩
  have hwithin : ∀ i entry, systems[i]? = some entry →
      Effects.Within look (fun _ => True) (entry.meta_.readLocs data.schemas)
        (entry.meta_.writeLocs data.schemas)
        (runSystem machine systems (buildStagesInner systems metas).2 i) := by
    intro i entry h
    rcases i with _ | _ | _ | i
    · cases h
      exact within_runSystem_sequential rfl rfl
        (within_resourceSystem fun _ _ _ => rfl)
    · cases h
      exact within_runSystem_sequential rfl rfl
        (within_resourceSystem fun _ _ h => by rw [h 0 (List.mem_singleton_self 0)])
    · cases h
      exact within_runSystem_sequential rfl rfl
        (within_resourceSystem fun _ _ _ => rfl)
    · cases h
  have horder : List.Forall₂ List.Perm [[2, 0], [1]] (buildStagesInner systems metas).1 := by
    rw [hstages]
    exact .cons (by decide) (.cons (by decide) .nil)
  exact ((stages_refine_registration_order machine systems data metas rfl).2.2.2 (fun _ => True)
    [[2, 0], [1]] trivial hwithin horder _ (3, 0)).1 rfl

end StageSample

end Saci
