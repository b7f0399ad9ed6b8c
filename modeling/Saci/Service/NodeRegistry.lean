import Saci.Core.DatasetRows
import Saci.Service.NodeTurns

/-!
# What the turns leave registered

Appends, forwards and `clear` move rows and keep the registered components with their fields, so
whether a batch is taken up by a node's dataset is decided by what is registered there.
-/

namespace Saci.Workflow

section
variable {R : Type}

/-- The registered components with their fields. -/
def registry (data : Dataset R) : List (String × List Field) :=
  data.components.map fun entry => (entry.name, entry.schema.fields)

/-- The dataset takes the batch up under this component: it is registered, with the batch's fields
where the batch has rows. -/
def Accepts (data : Dataset R) (component : String) (batch : RecordBatch) : Prop :=
  ∃ fields, fieldsOf data component = some fields ∧
    (batch.numRows = 0 ∨ batch.schema.fields = fields)

/-- The chunks of every component have its fields. -/
def Conforms (data : Dataset R) : Prop :=
  ∀ entry ∈ data.components,
    (∀ chunk ∈ entry.chunks, chunk.schema.fields = entry.schema.fields) ∧
      ∀ template ∈ entry.emptyTemplate, template.schema.fields = entry.schema.fields

variable {data data' dst : Dataset R} {component : String} {batch : RecordBatch}

/-- What is registered under a name. -/
theorem fieldsOf_eq (data : Dataset R) (component : String) :
    fieldsOf data component =
      ((registry data).find? fun registered => registered.1 = component).map Prod.snd := by
  rw [fieldsOf, Dataset.find, registry, List.find?_map, Option.map_map]
  rfl

theorem fieldsOf_congr (h : registry data' = registry data) (component : String) :
    fieldsOf data' component = fieldsOf data component := by
  rw [fieldsOf_eq, fieldsOf_eq, h]

theorem Accepts.congr (h : registry data' = registry data) :
    Accepts data' component batch ↔ Accepts data component batch := by
  rw [Accepts, Accepts, fieldsOf_congr h]

theorem map_name_components (data : Dataset R) :
    data.components.map Registered.name = (registry data).map Prod.fst := by
  rw [registry, List.map_map]
  rfl

/-- A component that is there is one of the names. -/
theorem fieldsOf_isSome_iff :
    (fieldsOf data component).isSome = true ↔ component ∈ data.components.map Registered.name := by
  rw [fieldsOf, Option.isSome_map, Dataset.find, List.find?_isSome, List.mem_map]
  simp

theorem batchFor_isSome_iff :
    (data.batchFor component).isSome = true ↔ (fieldsOf data component).isSome = true := by
  rw [Dataset.batchFor, fieldsOf, Option.isSome_map, Option.isSome_map]

/-! ## Appends -/

theorem registered_compactChunks (entry : Registered) :
    entry.compactChunks.name = entry.name ∧ entry.compactChunks.schema = entry.schema ∧
      entry.compactChunks.emptyTemplate = entry.emptyTemplate := by
  rw [Registered.compactChunks]
  split_ifs <;> exact ⟨rfl, rfl, rfl⟩

theorem registered_dropSentinel (entry : Registered) :
    entry.dropSentinel.name = entry.name ∧ entry.dropSentinel.schema = entry.schema ∧
      entry.dropSentinel.emptyTemplate = entry.emptyTemplate := by
  unfold Registered.dropSentinel
  split
  · split_ifs <;> exact ⟨rfl, rfl, rfl⟩
  · exact ⟨rfl, rfl, rfl⟩

theorem registered_pushChunk (entry : Registered) (chunk : RecordBatch) :
    (entry.pushChunk chunk).name = entry.name ∧ (entry.pushChunk chunk).schema = entry.schema ∧
      (entry.pushChunk chunk).emptyTemplate = entry.emptyTemplate := by
  rw [Registered.pushChunk]
  split_ifs
  · exact registered_compactChunks _
  · exact ⟨rfl, rfl, rfl⟩

/-- An append is taken up, or leaves an empty batch aside, or is refused. -/
theorem appendRecordBatch_cases (data : Dataset R) (component : String) (batch : RecordBatch) :
    (¬Accepts data component batch ∧ ∃ e, data.appendRecordBatch component batch = .error e) ∨
    (Accepts data component batch ∧ batch.numRows = 0 ∧
      ∃ range, data.appendRecordBatch component batch = .ok (data, range)) ∨
    ∃ entry, data.find component = some entry ∧ batch.numRows ≠ 0 ∧
      batch.schema.fields = entry.schema.fields ∧
      data.appendRecordBatch component batch =
        .ok ((data.modify component fun entry => entry.dropSentinel.pushChunk batch).extendTo
          entry.dropSentinel.numRows batch.numRows) := by
  rw [Accepts, fieldsOf, Dataset.appendRecordBatch]
  cases data.find component with
  | none => exact .inl ⟨fun ⟨_, h, _⟩ => (nomatch h), _, rfl⟩
  | some entry =>
    dsimp only
    split_ifs with hrows hfields
    · exact .inr (.inl ⟨⟨_, rfl, .inl hrows⟩, hrows, _, rfl⟩)
    · refine .inl ⟨?_, _, rfl⟩
      rintro ⟨fields, h, hempty | hequal⟩
      · exact hrows hempty
      · exact hfields (hequal.trans (Option.some.inj h).symm)
    · exact .inr (.inr ⟨entry, rfl, hrows, not_not.mp hfields, rfl⟩)

theorem accepts_of_find {entry : Registered} (hfind : data.find component = some entry)
    (hfields : batch.schema.fields = entry.schema.fields) : Accepts data component batch :=
  ⟨entry.schema.fields, by rw [fieldsOf, hfind, Option.map_some], .inr hfields⟩

/-- **A batch is taken up exactly when the dataset accepts it.** -/
theorem exists_appendRecordBatch_iff :
    (∃ answer, data.appendRecordBatch component batch = .ok answer) ↔
      Accepts data component batch := by
  rcases appendRecordBatch_cases data component batch with
    ⟨hnot, e, he⟩ | ⟨haccepts, -, range, hok⟩ | ⟨entry, hfind, -, hfields, hok⟩
  · refine iff_of_false ?_ hnot
    rintro ⟨answer, hanswer⟩
    cases he.symm.trans hanswer
  · exact iff_of_true ⟨_, hok⟩ haccepts
  · exact iff_of_true ⟨_, hok⟩ (accepts_of_find hfind hfields)

theorem registry_modify {f : Registered → Registered}
    (hf : ∀ entry, (f entry).name = entry.name ∧ (f entry).schema = entry.schema) :
    registry (data.modify component f) = registry data := by
  rw [registry, Dataset.modify, List.map_map, registry]
  refine List.map_congr_left fun entry _ => ?_
  rw [Function.comp_apply]
  split_ifs
  · rw [(hf entry).1, (hf entry).2]
  · rfl

theorem registry_appendRecordBatch {range : UInt32 × UInt32}
    (h : data.appendRecordBatch component batch = .ok (data', range)) :
    registry data' = registry data := by
  rcases appendRecordBatch_cases data component batch with
    ⟨-, e, he⟩ | ⟨-, -, range', hok⟩ | ⟨entry, -, -, -, hok⟩
  · cases he.symm.trans h
  · cases hok.symm.trans h
    rfl
  · have hpair := Except.ok.inj (hok.symm.trans h)
    have hdata : data' = _ := (congrArg Prod.fst hpair).symm
    rw [hdata, registry, Dataset.components_extendTo]
    refine registry_modify fun entry => ?_
    obtain ⟨hname, hschema, -⟩ := registered_pushChunk entry.dropSentinel batch
    obtain ⟨hname', hschema', -⟩ := registered_dropSentinel entry
    exact ⟨hname.trans hname', hschema.trans hschema'⟩

/-! ## Forwards and clear -/

theorem registry_forwardNames (data : Dataset R) (names : List String) (dst : Dataset R)
    (appended : Nat) : registry (forwardNames data names dst appended).1 = registry dst := by
  induction names generalizing dst appended with
  | nil => rfl
  | cons name names ih =>
    rw [forwardNames]
    cases data.batchFor name with
    | none => exact ih dst appended
    | some batch =>
      dsimp only
      cases happend : dst.appendRecordBatch name batch with
      | error e => rfl
      | ok answer => exact (ih answer.1 _).trans (registry_appendRecordBatch happend)

theorem registry_forwardInto (data dst : Dataset R) :
    registry (forwardInto data dst).1 = registry dst := registry_forwardNames data _ dst 0

theorem registry_clear (data : Dataset R) (resources : R) :
    registry (data.clear resources) = registry data := by
  rw [registry, Dataset.clear, List.map_map, registry]
  refine List.map_congr_left fun entry _ => ?_
  rw [Function.comp_apply]
  cases entry.emptyTemplate with
  | some template => rfl
  | none => cases entry.chunks.head? <;> rfl

/-! ## Conforming chunks -/

theorem conforms_modify {f : Registered → Registered} (h : Conforms data)
    (hf : ∀ entry ∈ data.components, entry.name = component →
      (∀ chunk ∈ (f entry).chunks, chunk.schema.fields = (f entry).schema.fields) ∧
        ∀ template ∈ (f entry).emptyTemplate, template.schema.fields = (f entry).schema.fields) :
    Conforms (data.modify component f) := by
  intro entry hentry
  obtain ⟨before, hbefore, rfl⟩ := List.mem_map.mp hentry
  split_ifs with hname
  · exact hf before hbefore hname
  · exact h before hbefore

/-- The chunks after a push are the new one and those that were there, or one merged of all. -/
theorem fields_pushChunk {entry : Registered} {chunk : RecordBatch}
    (hchunks : ∀ chunk ∈ entry.chunks, chunk.schema.fields = entry.schema.fields)
    (hchunk : chunk.schema.fields = entry.schema.fields) :
    ∀ pushed ∈ (entry.pushChunk chunk).chunks, pushed.schema.fields = entry.schema.fields := by
  have hall : ∀ pushed ∈ entry.chunks ++ [chunk], pushed.schema.fields = entry.schema.fields := by
    intro pushed hpushed
    rcases List.mem_append.mp hpushed with hpushed | hpushed
    · exact hchunks pushed hpushed
    · rw [List.mem_singleton.mp hpushed, hchunk]
  rw [Registered.pushChunk]
  split_ifs
  · rw [Registered.compactChunks]
    split_ifs
    · exact hall
    · intro pushed hpushed
      rw [List.mem_singleton.mp hpushed]
      rfl
  · exact hall

theorem chunks_dropSentinel_subset (entry : Registered) :
    entry.dropSentinel.chunks ⊆ entry.chunks := by
  unfold Registered.dropSentinel
  split
  · split_ifs
    · exact List.nil_subset _
    · exact List.Subset.refl _
  · exact List.Subset.refl _

/-- Under one name all entries have the fields of the first. -/
def NamesUnique (data : Dataset R) : Prop := (data.components.map Registered.name).Nodup

theorem eq_of_find (h : NamesUnique data) {entry : Registered} (hentry : entry ∈ data.components)
    (hname : entry.name = component) : data.find component = some entry := by
  induction hcomponents : data.components generalizing data with
  | nil => rw [hcomponents] at hentry; cases hentry
  | cons first rest ih =>
    rw [NamesUnique, hcomponents, List.map_cons, List.nodup_cons] at h
    rw [hcomponents] at hentry
    rw [Dataset.find, hcomponents, List.find?_cons]
    rcases List.mem_cons.mp hentry with rfl | hrest
    · rw [decide_eq_true hname]
    · have hne : ¬first.name = component := fun heq =>
        h.1 (heq ▸ hname ▸ List.mem_map_of_mem hrest)
      rw [decide_eq_false hne]
      exact @ih { data with components := rest } h.2 hrest rfl

theorem conforms_appendRecordBatch (h : Conforms data) (hunique : NamesUnique data)
    {range : UInt32 × UInt32} (happend : data.appendRecordBatch component batch = .ok (data', range)) :
    Conforms data' := by
  rcases appendRecordBatch_cases data component batch with
    ⟨-, e, he⟩ | ⟨-, -, range', hok⟩ | ⟨entry, hfind, -, hfields, hok⟩
  · cases he.symm.trans happend
  · cases hok.symm.trans happend
    exact h
  · have hpair := Except.ok.inj (hok.symm.trans happend)
    have hdata : data' = _ := (congrArg Prod.fst hpair).symm
    rw [hdata, Conforms, Dataset.components_extendTo]
    refine conforms_modify h fun other hother hname => ?_
    obtain rfl : entry = other := Option.some.inj (hfind.symm.trans (eq_of_find hunique hother hname))
    obtain ⟨-, hschema, htemplate⟩ := registered_dropSentinel entry
    obtain ⟨-, hpushed, hpushedTemplate⟩ := registered_pushChunk entry.dropSentinel batch
    rw [hpushedTemplate, htemplate, hpushed, hschema]
    refine ⟨?_, (h entry hother).2⟩
    have hkept : ∀ chunk ∈ entry.dropSentinel.chunks,
        chunk.schema.fields = entry.dropSentinel.schema.fields := by
      rw [hschema]
      exact fun chunk hchunk => (h entry hother).1 chunk (chunks_dropSentinel_subset entry hchunk)
    have hchunks := fields_pushChunk hkept (by rw [hschema, hfields])
    rwa [hschema] at hchunks

theorem namesUnique_congr (h : registry data' = registry data) :
    NamesUnique data' ↔ NamesUnique data := by
  rw [NamesUnique, NamesUnique, map_name_components, map_name_components, h]

theorem conforms_forwardNames (names : List String) (hdst : Conforms dst)
    (hunique : NamesUnique dst) (appended : Nat) :
    Conforms (forwardNames data names dst appended).1 := by
  induction names generalizing dst appended with
  | nil => exact hdst
  | cons name names ih =>
    rw [forwardNames]
    cases data.batchFor name with
    | none => exact ih hdst hunique appended
    | some batch =>
      dsimp only
      cases happend : dst.appendRecordBatch name batch with
      | error e => exact hdst
      | ok answer =>
        exact ih (conforms_appendRecordBatch hdst hunique happend)
          ((namesUnique_congr (registry_appendRecordBatch happend)).mpr hunique) _

theorem conforms_clear (h : Conforms data) (resources : R) : Conforms (data.clear resources) := by
  intro entry hentry
  obtain ⟨before, hbefore, rfl⟩ := List.mem_map.mp hentry
  obtain ⟨hchunks, htemplate⟩ := h before hbefore
  cases hempty : before.emptyTemplate with
  | some template =>
    refine ⟨fun chunk hchunk => ?_, fun other hother => ?_⟩
    · rw [List.mem_singleton.mp hchunk]
      exact htemplate template hempty
    · exact htemplate other (hempty.trans hother)
  | none =>
    cases hhead : before.chunks.head? with
    | none => exact ⟨hchunks, htemplate⟩
    | some first =>
      refine ⟨fun chunk hchunk => ?_, nofun⟩
      rw [List.mem_singleton.mp hchunk]
      exact hchunks first (List.mem_of_mem_head? hhead)

/-- What is read of a conforming dataset has the fields registered for it. -/
theorem fields_batchFor (h : Conforms data) (hbatch : data.batchFor component = some batch) :
    fieldsOf data component = some batch.schema.fields := by
  rw [Dataset.batchFor] at hbatch
  obtain ⟨entry, hfind, rfl⟩ := Option.map_eq_some_iff.mp hbatch
  rw [fieldsOf, hfind, Option.map_some]
  refine congrArg some ?_
  have hentry : entry ∈ data.components := List.mem_of_find?_eq_some hfind
  unfold Registered.merged
  split
  next chunk hchunks => exact ((h entry hentry).1 chunk (by rw [hchunks]; exact List.mem_singleton_self _)).symm
  next => rfl

end
end Saci.Workflow
