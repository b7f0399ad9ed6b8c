import Mathlib.Data.List.Induction
import Saci.Core.Write

/-!
# What a write set leaves

A write set is applied when every column has as many values as the dataset has rows, its field is
there with its type and without nulls it forbids, and the rows of its component are not fewer than
those of the dataset, unless all columns of the component are written together. Then the written
columns are the new ones and all others are as they were (`applyWriteSet_spec`).
-/

namespace Saci

/-! ## Batches from columns -/

theorem Schema.indexOf_eq_some {schema : Schema} {name : String} {idx : Nat}
    (h : schema.indexOf name = some idx) :
    ∃ field, schema.fields[idx]? = some field ∧ field.name = name := by
  obtain ⟨hidx, hname, -⟩ := List.findIdx?_eq_some_iff_getElem.mp h
  exact ⟨schema.fields[idx], List.getElem?_eq_getElem hidx, of_decide_eq_true hname⟩

/-- A batch that is what its schema says. -/
structure RecordBatch.Valid (schema : Schema) (batch : RecordBatch) : Prop where
  schema_eq : batch.schema = schema
  nonNull : ∀ idx field, schema.fields[idx]? = some field → field.nullable = false →
    .null ∉ batch.column idx

namespace RecordBatch

theorem length_column (batch : RecordBatch) (idx : Nat) :
    (batch.column idx).length = batch.numRows := List.length_map _

theorem column_concat (schema : Schema) (batches : List RecordBatch) (idx : Nat) :
    (concat schema batches).column idx = batches.flatMap fun batch => batch.column idx := by
  rw [column, rows_concat, List.map_flatMap]
  rfl

theorem Valid.concat {schema : Schema} {batches : List RecordBatch}
    (h : ∀ batch ∈ batches, batch.Valid schema) : (concat schema batches).Valid schema where
  schema_eq := rfl
  nonNull idx field hfield hnull hmem := by
    rw [column_concat] at hmem
    obtain ⟨batch, hbatch, hmem⟩ := List.mem_flatMap.mp hmem
    exact (h batch hbatch).nonNull idx field hfield hnull hmem

theorem getElem?_columns (batch : RecordBatch) (idx : Nat) :
    batch.columns[idx]? =
      batch.schema.fields[idx]?.map fun field => ⟨field.dataType, batch.column idx⟩ := by
  rw [columns, List.getElem?_map, List.getElem?_zipIdx, Option.map_map]
  simp [Function.comp_def]

/-- A column and the field it is to be. -/
def Suits (array : ArrayRef) (field : Field) : Prop :=
  array.dataType = field.dataType ∧ (field.nullable = false → .null ∉ array.cells)

/-- `tryNew` takes as many columns as there are fields, of one length and each suiting its
field. -/
theorem tryNew_eq_ok_iff {schema : Schema} {arrays : List ArrayRef} {batch : RecordBatch} :
    tryNew schema arrays = .ok batch ↔
      ∃ n, arrays.length = schema.fields.length ∧ arrays ≠ [] ∧
        (∀ array ∈ arrays, array.cells.length = n) ∧
        (∀ pair ∈ arrays.zip schema.fields, Suits pair.1 pair.2) ∧
        batch = ⟨schema, (List.range n).map fun row =>
          arrays.map fun array => array.cells.getD row .null⟩ := by
  rw [tryNew]
  constructor
  · intro h
    split at h
    · cases h
    next hlen =>
    split at h
    · cases h
    next first hfirst =>
    dsimp only at h
    split at h
    · cases h
    next hnull =>
    split at h
    · cases h
    next hsame =>
    split at h
    · cases h
    next htype =>
    cases h
    refine ⟨first.cells.length, not_not.mp hlen, ?_, fun array harray => ?_, fun pair hpair => ?_,
      rfl⟩
    · rintro rfl
      cases hfirst
    · by_contra hne
      exact hsame (List.any_eq_true.mpr ⟨array, harray, by simpa using hne⟩)
    · have htype := List.findIdx?_eq_none_iff.mp htype pair hpair
      have hnull := List.find?_eq_none.mp hnull pair hpair
      simp only [ne_eq, decide_not, Bool.not_eq_false', decide_eq_true_eq] at htype
      simp only [Bool.not_eq_true, decide_eq_true_eq, not_and] at hnull
      exact ⟨htype, hnull⟩
  · rintro ⟨n, hlen, hne, hsame, hsuits, rfl⟩
    obtain ⟨first, rest, rfl⟩ := List.exists_cons_of_ne_nil hne
    have hfirst := hsame first List.mem_cons_self
    have hany : ((first :: rest).any fun array =>
        array.cells.length ≠ first.cells.length) = false := by
      refine List.any_eq_false.mpr fun array harray => ?_
      simp [hsame array harray, hfirst]
    rw [if_neg (not_not.mpr hlen)]
    simp only [List.head?_cons]
    rw [List.find?_eq_none.mpr fun pair hpair => by simpa using (hsuits pair hpair).2,
      if_neg (by rw [hany]; exact Bool.false_ne_true),
      List.findIdx?_eq_none_iff.mpr fun pair hpair => by simpa using (hsuits pair hpair).1, hfirst]

/-- The columns of a batch made from columns. -/
theorem column_ofColumns {schema : Schema} {arrays : List ArrayRef} {n idx : Nat}
    {array : ArrayRef} (hlen : array.cells.length = n) (hidx : arrays[idx]? = some array) :
    column ⟨schema, (List.range n).map fun row =>
      arrays.map fun array => array.cells.getD row .null⟩ idx = array.cells := by
  rw [column, List.map_map]
  refine List.ext_getElem (by simp [hlen]) fun row hrow hrow' => ?_
  simp only [List.getElem_map, List.getElem_range, Function.comp_apply, List.getD_eq_getElem?_getD,
    List.getElem?_map, hidx, Option.map_some, Option.getD_some]
  rw [List.getElem?_eq_getElem hrow', Option.getD_some]

end RecordBatch

/-! ## One component -/

/-- The new columns, by field, that a component with `n` rows takes. -/
structure Schema.Takes (schema : Schema) (n rowCount : Nat) (news : String → ArrayRef → Prop) :
    Prop where
  suits : ∀ name array, news name array → ∃ idx field, schema.indexOf name = some idx ∧
    schema.fields[idx]? = some field ∧ RecordBatch.Suits array field
  rows : n = rowCount ∨ ∀ idx < schema.fields.length, ∃ name array, news name array ∧
    schema.indexOf name = some idx

namespace Dataset

section
variable {schema : Schema} {component : String} {updates : List (String × ArrayRef)}
  {columns columns' : List ArrayRef}

theorem setColumns_eq_ok (component : String)
    (h : ∀ u ∈ updates, ∃ idx, schema.indexOf u.1 = some idx) (columns : List ArrayRef) :
    ∃ columns', setColumns component schema updates columns = .ok columns' := by
  induction updates generalizing columns with
  | nil => exact ⟨columns, rfl⟩
  | cons u updates ih =>
    obtain ⟨⟨idx, hidx⟩, hrest⟩ := List.forall_mem_cons.mp h
    obtain ⟨columns', h'⟩ := ih hrest (columns.set idx u.2)
    exact ⟨columns', by rw [setColumns, hidx]; exact h'⟩

/-- The columns whose fields are among the updates are the new ones, and the others stay. -/
theorem setColumns_spec (hnodup : (updates.map (·.1)).Nodup)
    (h : setColumns component schema updates columns = .ok columns') :
    columns'.length = columns.length ∧
      (∀ u ∈ updates, ∃ idx, schema.indexOf u.1 = some idx ∧
        (idx < columns.length → columns'[idx]? = some u.2)) ∧
      ∀ idx, (∀ u ∈ updates, schema.indexOf u.1 ≠ some idx) → columns'[idx]? = columns[idx]? := by
  induction updates generalizing columns with
  | nil =>
    cases h
    exact ⟨rfl, fun _ hu => (nomatch hu), fun _ _ => rfl⟩
  | cons u updates ih =>
    rw [List.map_cons, List.nodup_cons] at hnodup
    rw [setColumns] at h
    rcases hidx : schema.indexOf u.1 with _ | idx
    · simp [hidx] at h
    · simp only [hidx] at h
      obtain ⟨hlen, hnew, hold⟩ := ih hnodup.2 h
      rw [List.length_set] at hlen hnew
      refine ⟨hlen, List.forall_mem_cons.mpr ⟨⟨idx, hidx, fun hlt => ?_⟩, hnew⟩, ?_⟩
      · -- no later update is for the same column
        rw [hold idx fun v hv hv' => ?_, List.getElem?_set_self hlt]
        obtain ⟨field, hfield, hname⟩ := Schema.indexOf_eq_some hidx
        obtain ⟨field', hfield', hname'⟩ := Schema.indexOf_eq_some hv'
        rw [hfield] at hfield'
        cases hfield'
        exact hnodup.1 (List.mem_map.mpr ⟨v, hv, by rw [← hname', hname]⟩)
      · intro idx' hne
        obtain ⟨hhead, htail⟩ := List.forall_mem_cons.mp hne
        rw [hold idx' htail, List.getElem?_set_ne]
        rintro rfl
        exact hhead hidx

end

section
variable {component : String} {existing batch : RecordBatch} {schema : Schema} {rowCount : Nat}
  {updates : List (String × ArrayRef)}

/-- The batch of a component that was rebuilt. -/
structure Rebuilt (schema : Schema) (rowCount : Nat) (updates : List (String × ArrayRef))
    (existing batch : RecordBatch) : Prop where
  valid : batch.Valid schema
  numRows : batch.numRows = rowCount
  news : ∀ u ∈ updates, ∀ idx, schema.indexOf u.1 = some idx → batch.column idx = u.2.cells
  others : ∀ idx < schema.fields.length, (∀ u ∈ updates, schema.indexOf u.1 ≠ some idx) →
    batch.column idx = existing.column idx

/-- Each column of a rebuilt component is one of the new ones or the one that was there. -/
theorem setColumns_cases {columns' : List ArrayRef} (hvalid : existing.Valid schema)
    (hnodup : (updates.map (·.1)).Nodup)
    (h : setColumns component schema updates existing.columns = .ok columns') :
    columns'.length = schema.fields.length ∧
      ∀ idx field, schema.fields[idx]? = some field →
        (∃ u ∈ updates, schema.indexOf u.1 = some idx ∧ columns'[idx]? = some u.2) ∨
          (∀ u ∈ updates, schema.indexOf u.1 ≠ some idx) ∧
            columns'[idx]? = some ⟨field.dataType, existing.column idx⟩ := by
  have hlength : existing.columns.length = schema.fields.length := by
    rw [RecordBatch.columns, List.length_map, List.length_zipIdx, hvalid.schema_eq]
  obtain ⟨hlen, hnew, hold⟩ := setColumns_spec hnodup h
  rw [hlength] at hlen hnew
  refine ⟨hlen, fun idx field hfield => ?_⟩
  by_cases hhit : ∃ u ∈ updates, schema.indexOf u.1 = some idx
  · obtain ⟨u, hu, hidx⟩ := hhit
    obtain ⟨idx', hidx', hget⟩ := hnew u hu
    cases hidx.symm.trans hidx'
    exact .inl ⟨u, hu, hidx, hget (List.getElem?_eq_some_iff.mp hfield).1⟩
  · have hmiss : ∀ u ∈ updates, schema.indexOf u.1 ≠ some idx :=
      fun u hu hidx => hhit ⟨u, hu, hidx⟩
    refine .inr ⟨hmiss, ?_⟩
    rw [hold idx hmiss, RecordBatch.getElem?_columns, hvalid.schema_eq, hfield]
    rfl

theorem rebuild_eq_ok (hvalid : existing.Valid schema) (hnodup : (updates.map (·.1)).Nodup)
    (hne : updates ≠ []) (hlen : ∀ u ∈ updates, u.2.cells.length = rowCount)
    (htakes : schema.Takes existing.numRows rowCount fun name array => (name, array) ∈ updates) :
    ∃ batch, rebuild component existing updates = .ok batch := by
  obtain ⟨columns', hset⟩ := setColumns_eq_ok component
    (fun u hu => (htakes.suits u.1 u.2 hu).imp fun idx h => h.choose_spec.1) existing.columns
  obtain ⟨hlength, hcases⟩ := setColumns_cases hvalid hnodup hset
  have hfields : ∀ (idx : Nat) (array : ArrayRef), columns'[idx]? = some array →
      ∃ field, schema.fields[idx]? = some field := by
    intro idx array harray
    have hlt := (List.getElem?_eq_some_iff.mp harray).1
    exact ⟨_, List.getElem?_eq_getElem (hlength ▸ hlt)⟩
  have htry : RecordBatch.tryNew existing.schema columns' = .ok ⟨schema,
      (List.range rowCount).map fun row =>
        columns'.map fun array => array.cells.getD row .null⟩ := by
    rw [hvalid.schema_eq, RecordBatch.tryNew_eq_ok_iff]
    refine ⟨rowCount, hlength, ?_, fun array harray => ?_, fun ⟨array, field⟩ hpair => ?_, rfl⟩
    · rintro rfl
      obtain ⟨u, hu⟩ := List.exists_mem_of_ne_nil _ hne
      obtain ⟨idx, field, -, hfield, -⟩ := htakes.suits u.1 u.2 hu
      have := (List.getElem?_eq_some_iff.mp hfield).1
      rw [← hlength] at this
      exact Nat.not_lt_zero _ this
    · obtain ⟨idx, hidx⟩ := List.mem_iff_getElem?.mp harray
      obtain ⟨field, hfield⟩ := hfields idx array hidx
      rcases hcases idx field hfield with ⟨u, hu, -, hget⟩ | ⟨hmiss, hget⟩
      · rw [hidx] at hget
        cases hget
        exact hlen u hu
      · rw [hidx] at hget
        cases hget
        rcases htakes.rows with hrows | hall
        · exact (existing.length_column idx).trans hrows
        · obtain ⟨name, array, hu, hindex⟩ := hall idx (List.getElem?_eq_some_iff.mp hfield).1
          exact absurd hindex (hmiss _ hu)
    · obtain ⟨idx, hidx⟩ := List.mem_iff_getElem?.mp hpair
      obtain ⟨harray, hfield⟩ := List.getElem?_zip_eq_some.mp hidx
      rcases hcases idx field hfield with ⟨u, hu, hindex, hget⟩ | ⟨-, hget⟩
      · obtain ⟨idx', field', hindex', hfield', hsuits⟩ := htakes.suits u.1 u.2 hu
        cases hindex.symm.trans hindex'
        cases hfield.symm.trans hfield'
        cases harray.symm.trans hget
        exact hsuits
      · cases harray.symm.trans hget
        exact ⟨rfl, hvalid.nonNull idx field hfield⟩
  rw [hvalid.schema_eq] at htry
  rw [rebuild, hvalid.schema_eq, hset, ok_bind, htry]
  exact ⟨_, rfl⟩

theorem rebuild_spec (hvalid : existing.Valid schema) (hnodup : (updates.map (·.1)).Nodup)
    (hne : updates ≠ []) (hlen : ∀ u ∈ updates, u.2.cells.length = rowCount)
    (h : rebuild component existing updates = .ok batch) :
    schema.Takes existing.numRows rowCount (fun name array => (name, array) ∈ updates) ∧
      Rebuilt schema rowCount updates existing batch := by
  rw [rebuild, hvalid.schema_eq] at h
  obtain ⟨columns', hset, h⟩ := bind_eq_ok_iff.mp h
  obtain ⟨hlength, hcases⟩ := setColumns_cases hvalid hnodup hset
  have hnews := (setColumns_spec hnodup hset).2.1
  split at h
  · cases h
  next made htry =>
  cases h
  obtain ⟨n, -, -, hsame, hsuits, rfl⟩ := RecordBatch.tryNew_eq_ok_iff.mp htry
  have hhit : ∀ u ∈ updates, ∃ idx field, schema.indexOf u.1 = some idx ∧
      schema.fields[idx]? = some field ∧ columns'[idx]? = some u.2 := by
    intro u hu
    obtain ⟨idx, hindex, hget⟩ := hnews u hu
    obtain ⟨field, hfield, -⟩ := Schema.indexOf_eq_some hindex
    refine ⟨idx, field, hindex, hfield, hget ?_⟩
    rw [← (setColumns_spec hnodup hset).1, hlength]
    exact (List.getElem?_eq_some_iff.mp hfield).1
  -- the columns all have the length of any new one
  have hn : n = rowCount := by
    obtain ⟨u, hu⟩ := List.exists_mem_of_ne_nil _ hne
    obtain ⟨idx, field, -, -, hget⟩ := hhit u hu
    rw [← hsame u.2 (List.mem_of_getElem? hget), hlen u hu]
  subst hn
  refine ⟨⟨fun name array hu => ?_, ?_⟩, ⟨⟨rfl, fun idx field hfield hnull => ?_⟩, ?_, ?_, ?_⟩⟩
  · obtain ⟨idx, field, hindex, hfield, hget⟩ := hhit (name, array) hu
    have hpair : (columns'.zip schema.fields)[idx]? = some (array, field) :=
      List.getElem?_zip_eq_some.mpr ⟨hget, hfield⟩
    exact ⟨idx, field, hindex, hfield, hsuits _ (List.mem_of_getElem? hpair)⟩
  · by_cases hrows : existing.numRows = n
    · exact .inl hrows
    · refine .inr fun idx hidx => ?_
      rcases hcases idx _ (List.getElem?_eq_getElem hidx) with
        ⟨u, hu, hindex, -⟩ | ⟨-, hget⟩
      · exact ⟨u.1, u.2, hu, hindex⟩
      · have := hsame _ (List.mem_of_getElem? hget)
        exact absurd ((existing.length_column idx).symm.trans this) hrows
  · obtain ⟨array, hget⟩ : ∃ array, columns'[idx]? = some array :=
      ⟨_, List.getElem?_eq_getElem (hlength ▸ (List.getElem?_eq_some_iff.mp hfield).1)⟩
    rw [RecordBatch.column_ofColumns (hsame _ (List.mem_of_getElem? hget)) hget]
    have hpair : (columns'.zip schema.fields)[idx]? = some (array, field) :=
      List.getElem?_zip_eq_some.mpr ⟨hget, hfield⟩
    exact (hsuits _ (List.mem_of_getElem? hpair)).2 hnull
  · simp [RecordBatch.numRows]
  · intro u hu idx hindex
    obtain ⟨idx', field, hindex', -, hget⟩ := hhit u hu
    cases hindex.symm.trans hindex'
    exact RecordBatch.column_ofColumns (hsame _ (List.mem_of_getElem? hget)) hget
  · intro idx hidx hmiss
    rcases hcases idx _ (List.getElem?_eq_getElem hidx) with ⟨u, hu, hindex, -⟩ | ⟨-, hget⟩
    · exact absurd hindex (hmiss u hu)
    · exact RecordBatch.column_ofColumns (hsame _ (List.mem_of_getElem? hget)) hget

end

/-! ## Grouping by component -/

section
variable {entries : List (Sigma fun _ : FieldAccess => ArrayRef)} {groups groups' : Updates}
  {rowCount : Nat}

theorem byComponent_eq_ok (h : ∀ e ∈ entries, e.2.cells.length = rowCount) :
    byComponent rowCount entries groups =
      .ok (entries.foldl (fun groups e => addUpdate groups e.1 e.2) groups) := by
  induction entries generalizing groups with
  | nil => rfl
  | cons e entries ih =>
    obtain ⟨hhead, htail⟩ := List.forall_mem_cons.mp h
    rw [byComponent, if_neg (not_not.mpr hhead), ih htail]
    rfl

theorem length_of_byComponent (h : byComponent rowCount entries groups = .ok groups') :
    ∀ e ∈ entries, e.2.cells.length = rowCount := by
  induction entries generalizing groups with
  | nil => exact fun _ he => (nomatch he)
  | cons e entries ih =>
    rw [byComponent] at h
    split_ifs at h with hlen
    exact List.forall_mem_cons.mpr ⟨not_not.mp hlen, ih h⟩

/-- The updates of one component among all new columns. -/
def updatesOf (entries : List (Sigma fun _ : FieldAccess => ArrayRef)) (component : String) :
    List (String × ArrayRef) :=
  (entries.filter fun e => e.1.component = component).map fun e => (e.1.field, e.2)

theorem mem_updatesOf {component name : String} {array : ArrayRef} :
    (name, array) ∈ updatesOf entries component ↔ ⟨⟨component, name⟩, array⟩ ∈ entries := by
  simp only [updatesOf, List.mem_map, List.mem_filter, decide_eq_true_eq, Prod.mk.injEq]
  constructor
  · rintro ⟨⟨⟨c, f⟩, a⟩, ⟨he, rfl⟩, rfl, rfl⟩
    exact he
  · exact fun he => ⟨_, ⟨he, rfl⟩, rfl, rfl⟩

theorem nodup_updatesOf (h : (entries.map Sigma.fst).Nodup) (component : String) :
    ((updatesOf entries component).map (·.1)).Nodup := by
  have hfilter : ((entries.filter fun e => e.1.component = component).map Sigma.fst).Nodup :=
    h.sublist (List.filter_sublist.map _)
  rw [updatesOf, List.map_map]
  refine (List.nodup_map_iff_inj_on ?_).mpr fun e he e' he' hfield => ?_
  · exact hfilter.of_map _
  · have hcomponent := of_decide_eq_true (List.mem_filter.mp he).2
    have hcomponent' := of_decide_eq_true (List.mem_filter.mp he').2
    refine List.inj_on_of_nodup_map hfilter he he' ?_
    obtain ⟨⟨c, f⟩, a⟩ := e
    obtain ⟨⟨c', f'⟩, a'⟩ := e'
    simp_all

/-- Each component that comes up has one group, of all its updates. -/
structure Grouped (entries : List (Sigma fun _ : FieldAccess => ArrayRef)) (groups : Updates) :
    Prop where
  nodup : (groups.map (·.1)).Nodup
  updates : ∀ group ∈ groups, group.2 = updatesOf entries group.1 ∧ group.2 ≠ []
  covers : ∀ e ∈ entries, e.1.component ∈ groups.map (·.1)

theorem Grouped.concat {e : Sigma fun _ : FieldAccess => ArrayRef} (h : Grouped entries groups) :
    Grouped (entries ++ [e]) (addUpdate groups e.1 e.2) := by
  have hother (c : String) (hc : e.1.component ≠ c) :
      updatesOf (entries ++ [e]) c = updatesOf entries c := by
    simp [updatesOf, hc]
  have hown : updatesOf (entries ++ [e]) e.1.component =
      updatesOf entries e.1.component ++ [(e.1.field, e.2)] := by
    simp [updatesOf]
  rw [addUpdate]
  split_ifs with hany
  · have hnames : (groups.map fun group : String × List (String × ArrayRef) =>
        if group.1 = e.1.component then (group.1, group.2 ++ [(e.1.field, e.2)])
        else group).map (·.1) = groups.map (·.1) := by
      rw [List.map_map]
      refine List.map_congr_left fun group _ => ?_
      rw [Function.comp_apply]
      split_ifs <;> rfl
    refine ⟨hnames ▸ h.nodup, fun group hgroup => ?_, fun e' he' => ?_⟩
    · obtain ⟨old, hold, rfl⟩ := List.mem_map.mp hgroup
      obtain ⟨heq, hne⟩ := h.updates old hold
      split_ifs with hc
      · refine ⟨?_, by simp⟩
        rw [hc, hown, ← hc, ← heq]
      · exact ⟨heq.trans (hother old.1 (Ne.symm hc)).symm, hne⟩
    · rw [hnames]
      rcases List.mem_append.mp he' with he' | he'
      · exact h.covers e' he'
      · cases List.mem_singleton.mp he'
        obtain ⟨group, hgroup, hc⟩ := List.any_eq_true.mp hany
        exact List.mem_map.mpr ⟨group, hgroup, of_decide_eq_true hc⟩
  · have hnew : ∀ group ∈ groups, group.1 ≠ e.1.component := by
      intro group hgroup hc
      exact hany (List.any_eq_true.mpr ⟨group, hgroup, decide_eq_true hc⟩)
    refine ⟨?_, fun group hgroup => ?_, fun e' he' => ?_⟩
    · rw [List.map_append]
      refine List.nodup_append.mpr ⟨h.nodup, List.nodup_singleton _, fun c hc c' hc' => ?_⟩
      obtain ⟨group, hgroup, rfl⟩ := List.mem_map.mp hc
      rw [List.mem_singleton.mp hc']
      exact hnew group hgroup
    · rcases List.mem_append.mp hgroup with hgroup | hgroup
      · obtain ⟨heq, hne⟩ := h.updates group hgroup
        exact ⟨heq.trans (hother group.1 (hnew group hgroup).symm).symm, hne⟩
      · cases List.mem_singleton.mp hgroup
        refine ⟨?_, List.cons_ne_nil _ _⟩
        have hnone : updatesOf entries e.1.component = [] := by
          rw [updatesOf, List.map_eq_nil_iff, List.filter_eq_nil_iff]
          intro e' he' hc
          obtain ⟨group, hgroup, hname⟩ := List.mem_map.mp (h.covers e' he')
          exact hnew group hgroup (hname.trans (of_decide_eq_true hc))
        rw [hown, hnone, List.nil_append]
    · rw [List.map_append, List.mem_append]
      rcases List.mem_append.mp he' with he' | he'
      · exact .inl (h.covers e' he')
      · cases List.mem_singleton.mp he'
        exact .inr (List.mem_singleton_self _)

theorem grouped_foldl (entries : List (Sigma fun _ : FieldAccess => ArrayRef)) :
    Grouped entries (entries.foldl (fun groups e => addUpdate groups e.1 e.2) []) := by
  induction entries using List.reverseRecOn with
  | nil => exact ⟨List.nodup_nil, fun _ h => (nomatch h), fun _ h => (nomatch h)⟩
  | append_singleton entries e ih =>
    rw [List.foldl_append]
    exact ih.concat

end

/-! ## The dataset -/

variable {R : Type} {data data' : Dataset R} {name : String} {idx : Nat}

/-- Every component is there once and has chunks, and they are what its schema says. -/
structure WellFormed (data : Dataset R) : Prop where
  nodup : (data.components.map Registered.name).Nodup
  chunks : ∀ entry ∈ data.components, entry.chunks ≠ []
  valid : ∀ entry ∈ data.components, ∀ chunk ∈ entry.chunks, chunk.Valid entry.schema

/-- The columns of a relation from fields to new columns can be written together. -/
def Fits (data : Dataset R) (news : FieldAccess → ArrayRef → Prop) : Prop :=
  ∀ key array, news key array → array.cells.length = data.rowCount ∧
    ∃ entry, data.find key.component = some entry ∧
      entry.schema.Takes entry.numRows data.rowCount fun name array =>
        news ⟨key.component, name⟩ array

/-- The field whose column a write to the position replaces. -/
def keyAt (data : Dataset R) (name : String) (idx : Nat) : Option FieldAccess :=
  (data.find name).bind fun entry => (entry.schema.fields[idx]?).bind fun field =>
    if entry.schema.indexOf field.name = some idx then some ⟨name, field.name⟩ else none

/-- What is left of the components and the liveness once new columns are written. -/
structure Written (data : Dataset R) (news : FieldAccess → ArrayRef → Prop)
    (data' : Dataset R) : Prop where
  shape : data'.shape = data.shape
  wellFormed : data'.WellFormed
  written : ∀ name idx key array, data.keyAt name idx = some key → news key array →
    data'.columnAt name idx = some array.cells
  others : ∀ name idx, (∀ key array, data.keyAt name idx = some key → ¬ news key array) →
    data'.columnAt name idx = data.columnAt name idx
  rows : ∀ name entry entry', data.find name = some entry → data'.find name = some entry' →
    ((∃ key array, news key array ∧ key.component = name) → entry'.numRows = data.rowCount) ∧
      ((¬ ∃ key array, news key array ∧ key.component = name) → entry'.numRows = entry.numRows)

theorem keyAt_of_shape_eq (h : data'.shape = data.shape) :
    data'.keyAt name idx = data.keyAt name idx := by
  have hfind := find_of_shape_eq h name
  rw [keyAt, keyAt]
  rcases hd : data.find name with _ | entry <;> rcases hd' : data'.find name with _ | entry' <;>
    simp only [hd, hd', Option.map_none, Option.map_some, Option.some.injEq, reduceCtorEq] at hfind
  · rfl
  · have hschema : entry'.schema = entry.schema := congrArg (·.2.2.1) hfind
    simp only [Option.bind_some, hschema]

end Dataset

namespace Registered
variable {entry : Registered}

/-- Merging chunks does not change what is read of them. -/
theorem merged_compactChunks : entry.compactChunks.merged = entry.merged := by
  rw [compactChunks]
  split_ifs with h
  · rfl
  · rw [merged, merged]
    rcases hchunks : entry.chunks with _ | ⟨chunk, _ | ⟨chunk', chunks⟩⟩
    · simp [hchunks] at h
    · simp [hchunks] at h
    · rfl

theorem numRows_merged : entry.merged.numRows = entry.numRows := by
  rw [merged, numRows]
  rcases hchunks : entry.chunks with _ | ⟨chunk, _ | ⟨chunk', chunks⟩⟩
  · rfl
  · simp
  · exact RecordBatch.numRows_concat _ _

theorem valid_merged (h : ∀ chunk ∈ entry.chunks, chunk.Valid entry.schema) :
    entry.merged.Valid entry.schema := by
  rw [merged]
  rcases hchunks : entry.chunks with _ | ⟨chunk, _ | ⟨chunk', chunks⟩⟩
  · exact .concat fun _ h => (nomatch h)
  · exact h chunk (by simp [hchunks])
  · exact .concat fun batch hbatch => h batch (hchunks ▸ hbatch)

/-- After merging there is one chunk. -/
theorem chunks_compactChunks (h : entry.chunks ≠ []) :
    entry.compactChunks.chunks = [entry.merged] := by
  rw [compactChunks, merged]
  rcases hchunks : entry.chunks with _ | ⟨chunk, _ | ⟨chunk', chunks⟩⟩
  · exact absurd hchunks h
  · simp [hchunks]
  · simp

end Registered

namespace Dataset

variable {R : Type} {data data' : Dataset R} {groups : Updates} {name : String}
  {entry : Registered}

theorem mem_of_find (h : data.find name = some entry) :
    entry ∈ data.components ∧ entry.name = name :=
  ⟨List.mem_of_find?_eq_some h, by simpa using List.find?_some h⟩

/-- Every component has one chunk. -/
def OneChunk (data : Dataset R) : Prop :=
  ∀ entry ∈ data.components, entry.chunks = [entry.merged]

theorem WellFormed.eq_of_find (h : data.WellFormed) (hfind : data.find name = some entry)
    {other : Registered} (hother : other ∈ data.components) (hname : other.name = name) :
    other = entry := by
  obtain ⟨hmem, hentry⟩ := mem_of_find hfind
  exact List.inj_on_of_nodup_map h.nodup hother hmem (hname.trans hentry.symm)

/-- Replacing the chunks of a component by a batch of its schema. -/
theorem WellFormed.modify (h : data.WellFormed) (hfind : data.find name = some entry)
    {batch : RecordBatch} (hvalid : batch.Valid entry.schema) :
    (data.modify name fun entry => { entry with chunks := [batch] }).WellFormed := by
  have hnames : (data.modify name fun entry => { entry with chunks := [batch] }).components.map
      Registered.name = data.components.map Registered.name := by
    rw [Dataset.modify, List.map_map]
    refine List.map_congr_left fun other _ => ?_
    rw [Function.comp_apply]
    split_ifs <;> rfl
  refine ⟨hnames ▸ h.nodup, fun entry' hentry' => ?_, fun entry' hentry' chunk hchunk => ?_⟩
  · obtain ⟨other, hother, rfl⟩ := List.mem_map.mp hentry'
    split_ifs
    · exact List.cons_ne_nil _ _
    · exact h.chunks other hother
  · obtain ⟨other, hother, rfl⟩ := List.mem_map.mp hentry'
    split_ifs at hchunk ⊢ with hname
    · cases List.mem_singleton.mp hchunk
      rw [h.eq_of_find hfind hother hname]
      exact hvalid
    · exact h.valid other hother chunk hchunk

theorem OneChunk.modify (h : data.OneChunk) {batch : RecordBatch} :
    (data.modify name fun entry => { entry with chunks := [batch] }).OneChunk := by
  intro entry' hentry'
  obtain ⟨other, hother, rfl⟩ := List.mem_map.mp hentry'
  split_ifs
  · rfl
  · exact h other hother

/-! ## The loop over the components -/

/-- The groups of updates that a dataset takes. -/
def TakesAll (data : Dataset R) (groups : Updates) : Prop :=
  ∀ group ∈ groups, ∃ entry, data.find group.1 = some entry ∧
    entry.schema.Takes entry.numRows data.rowCount fun name array => (name, array) ∈ group.2

/-- What the loop leaves. -/
structure Looped (groups : Updates) (data data' : Dataset R) : Prop where
  shape : data'.shape = data.shape
  resources : data'.resources = data.resources
  wellFormed : data'.WellFormed
  rebuilt : ∀ group ∈ groups, ∀ entry, data.find group.1 = some entry →
    ∃ batch, data'.find group.1 = some { entry with chunks := [batch] } ∧
      Rebuilt entry.schema data.rowCount group.2 entry.merged batch
  others : ∀ name, name ∉ groups.map (·.1) → data'.find name = data.find name

/-- Groups that can be written. -/
structure Sound (rowCount : Nat) (groups : Updates) : Prop where
  nodup : (groups.map (·.1)).Nodup
  fields : ∀ group ∈ groups, (group.2.map (·.1)).Nodup
  nonempty : ∀ group ∈ groups, group.2 ≠ []
  length : ∀ group ∈ groups, ∀ u ∈ group.2, u.2.cells.length = rowCount

theorem Sound.tail {rowCount : Nat} {group : String × List (String × ArrayRef)}
    (h : Sound rowCount (group :: groups)) : Sound rowCount groups where
  nodup := (List.nodup_cons.mp h.nodup).2
  fields := (List.forall_mem_cons.mp h.fields).2
  nonempty := (List.forall_mem_cons.mp h.nonempty).2
  length := (List.forall_mem_cons.mp h.length).2

/-- Writing one group leaves what is asked of the others. -/
theorem find_modify_of_ne {batch : RecordBatch} {name' : String} (hne : name' ≠ name) :
    (data.modify name fun entry => { entry with chunks := [batch] }).find name' =
      data.find name' := by
  rw [find_modify (f := fun entry => { entry with chunks := [batch] }) fun _ => rfl, if_neg hne]

theorem applyUpdates_eq_ok (hwf : data.WellFormed) (hone : data.OneChunk)
    (hsound : Sound data.rowCount groups) (htakes : data.TakesAll groups) :
    ∃ data', applyUpdates groups data = (data', .ok ()) := by
  induction groups generalizing data with
  | nil => exact ⟨data, rfl⟩
  | cons group groups ih =>
    obtain ⟨component, updates⟩ := group
    obtain ⟨⟨entry, hfind, hentry⟩, hrest⟩ := List.forall_mem_cons.mp htakes
    obtain ⟨hmem, hname⟩ := mem_of_find hfind
    have hvalid := Registered.valid_merged (hwf.valid entry hmem)
    have hnodup := (List.forall_mem_cons.mp hsound.fields).1
    have hne := (List.forall_mem_cons.mp hsound.nonempty).1
    have hlen := (List.forall_mem_cons.mp hsound.length).1
    rw [← Registered.numRows_merged] at hentry
    have hexists : ∃ batch, rebuild component entry.merged updates = .ok batch :=
      rebuild_eq_ok hvalid hnodup hne hlen hentry
    obtain ⟨batch, hbatch⟩ := hexists
    obtain ⟨-, hrebuilt⟩ := rebuild_spec hvalid hnodup hne hlen hbatch
    have hdistinct : ∀ group ∈ groups, group.1 ≠ component := by
      intro group hgroup heq
      exact (List.nodup_cons.mp hsound.nodup).1 (List.mem_map.mpr ⟨group, hgroup, heq⟩)
    obtain ⟨data', hloop⟩ := ih (hwf.modify hfind hrebuilt.valid) hone.modify hsound.tail
      fun group hgroup => by
        rw [find_modify_of_ne (hdistinct group hgroup)]
        exact hrest group hgroup
    refine ⟨data', ?_⟩
    rw [applyUpdates, hfind]
    simp only [hone entry hmem, List.head?_cons, hbatch]
    exact hloop

theorem applyUpdates_spec (hwf : data.WellFormed) (hone : data.OneChunk)
    (hsound : Sound data.rowCount groups) (h : applyUpdates groups data = (data', .ok ())) :
    data.TakesAll groups ∧ Looped groups data data' := by
  induction groups generalizing data with
  | nil =>
    obtain ⟨rfl, -⟩ := Prod.mk.inj h
    exact ⟨fun _ hg => (nomatch hg),
      ⟨rfl, rfl, hwf, fun _ hg => (nomatch hg), fun _ _ => rfl⟩⟩
  | cons group groups ih =>
    obtain ⟨component, updates⟩ := group
    have hnodup := (List.forall_mem_cons.mp hsound.fields).1
    have hne := (List.forall_mem_cons.mp hsound.nonempty).1
    have hlen := (List.forall_mem_cons.mp hsound.length).1
    rw [applyUpdates] at h
    rcases hfind : data.find component with _ | entry
    · simp [hfind] at h
    obtain ⟨hmem, hname⟩ := mem_of_find hfind
    have hvalid := Registered.valid_merged (hwf.valid entry hmem)
    simp only [hfind, hone entry hmem, List.head?_cons] at h
    rcases hbatch : rebuild component entry.merged updates with e | batch
    · simp [hbatch] at h
    simp only [hbatch] at h
    obtain ⟨htakes, hrebuilt⟩ := rebuild_spec hvalid hnodup hne hlen hbatch
    rw [Registered.numRows_merged] at htakes
    obtain ⟨hrest, hlooped⟩ := ih (hwf.modify hfind hrebuilt.valid) hone.modify hsound.tail h
    have hdistinct : ∀ group ∈ groups, group.1 ≠ component := by
      intro group hgroup heq
      exact (List.nodup_cons.mp hsound.nodup).1 (List.mem_map.mpr ⟨group, hgroup, heq⟩)
    refine ⟨List.forall_mem_cons.mpr ⟨⟨entry, hfind, htakes⟩, fun group hgroup => ?_⟩, ?_⟩
    · have := hrest group hgroup
      rwa [find_modify_of_ne (hdistinct group hgroup)] at this
    · refine ⟨hlooped.shape.trans (shape_modify (f := fun entry =>
        { entry with chunks := [batch] }) (fun _ => rfl) _), hlooped.resources,
        hlooped.wellFormed, List.forall_mem_cons.mpr ⟨fun entry' hentry' => ?_, fun group hgroup =>
          ?_⟩, fun name hnot => ?_⟩
      · cases hfind.symm.trans hentry'
        refine ⟨batch, ?_, hrebuilt⟩
        rw [hlooped.others component fun hin => ?_, find_modify (f := fun entry =>
          { entry with chunks := [batch] }) fun _ => rfl, if_pos rfl, hfind]
        · rfl
        · obtain ⟨group, hgroup, heq⟩ := List.mem_map.mp hin
          exact hdistinct group hgroup heq
      · have := hlooped.rebuilt group hgroup
        rwa [find_modify_of_ne (hdistinct group hgroup)] at this
      · rw [List.map_cons, List.mem_cons, not_or] at hnot
        rw [hlooped.others name hnot.2, find_modify_of_ne hnot.1]

/-! ## Merging chunks first -/

theorem shapeOf_compactChunks (entry : Registered) :
    shapeOf entry.compactChunks = shapeOf entry := by
  rw [Registered.compactChunks]
  split_ifs <;> rfl

theorem find_flushAllPending (name : String) :
    data.flushAllPending.find name = (data.find name).map Registered.compactChunks := by
  have hname (entry : Registered) : entry.compactChunks.name = entry.name :=
    congrArg Prod.fst (shapeOf_compactChunks entry)
  rw [find, find, flushAllPending, List.find?_map]
  simp only [Function.comp_def, hname]

theorem shape_flushAllPending : data.flushAllPending.shape = data.shape := by
  have hmap : (data.components.map Registered.compactChunks).map shapeOf =
      data.components.map shapeOf := by
    rw [List.map_map]
    exact List.map_congr_left fun entry _ => shapeOf_compactChunks entry
  rw [shape, flushAllPending]
  dsimp only
  rw [hmap]
  rfl

theorem schema_compactChunks (entry : Registered) : entry.compactChunks.schema = entry.schema :=
  congrArg (·.2.2.1) (shapeOf_compactChunks entry)

theorem numRows_compactChunks (entry : Registered) :
    entry.compactChunks.numRows = entry.numRows := by
  rw [← Registered.numRows_merged, Registered.merged_compactChunks, Registered.numRows_merged]

theorem WellFormed.flush (h : data.WellFormed) : data.flushAllPending.WellFormed where
  nodup := by
    have hnames : data.flushAllPending.components.map Registered.name =
        data.components.map Registered.name := by
      rw [flushAllPending, List.map_map]
      exact List.map_congr_left fun entry _ => congrArg Prod.fst (shapeOf_compactChunks entry)
    rw [hnames]
    exact h.nodup
  chunks entry hentry := by
    obtain ⟨old, hold, rfl⟩ := List.mem_map.mp hentry
    rw [Registered.chunks_compactChunks (h.chunks old hold)]
    exact List.cons_ne_nil _ _
  valid entry hentry chunk hchunk := by
    obtain ⟨old, hold, rfl⟩ := List.mem_map.mp hentry
    rw [Registered.chunks_compactChunks (h.chunks old hold)] at hchunk
    cases List.mem_singleton.mp hchunk
    rw [schema_compactChunks]
    exact Registered.valid_merged (h.valid old hold)

theorem WellFormed.oneChunk_flush (h : data.WellFormed) : data.flushAllPending.OneChunk := by
  intro entry hentry
  obtain ⟨old, hold, rfl⟩ := List.mem_map.mp hentry
  rw [Registered.chunks_compactChunks (h.chunks old hold), Registered.merged_compactChunks]

theorem columnAt_flushAllPending (name : String) (idx : Nat) :
    data.flushAllPending.columnAt name idx = data.columnAt name idx := by
  rw [columnAt, columnAt, find_flushAllPending]
  rcases data.find name with _ | entry
  · rfl
  · simp only [Option.map_some, Option.bind_some, schema_compactChunks,
      Registered.merged_compactChunks]

theorem takesAll_iff_fits {entries : List (Sigma fun _ : FieldAccess => ArrayRef)}
    (hgrouped : Grouped entries groups)
    (hlen : ∀ e ∈ entries, e.2.cells.length = data.rowCount) :
    data.flushAllPending.TakesAll groups ↔
      data.Fits fun key array => ⟨key, array⟩ ∈ entries := by
  have hmem {group : String × List (String × ArrayRef)} (hgroup : group ∈ groups) :
      (fun name array => (name, array) ∈ group.2) =
        fun name array => ⟨⟨group.1, name⟩, array⟩ ∈ entries := by
    funext name array
    rw [(hgrouped.updates group hgroup).1, mem_updatesOf]
  constructor
  · intro h key array hwritten
    refine ⟨hlen _ hwritten, ?_⟩
    obtain ⟨group, hgroup, hname⟩ := List.mem_map.mp (hgrouped.covers _ hwritten)
    obtain ⟨entry, hfind, htakes⟩ := h group hgroup
    rw [find_flushAllPending, hname] at hfind
    obtain ⟨old, hold, rfl⟩ := Option.map_eq_some_iff.mp hfind
    refine ⟨old, hold, ?_⟩
    rw [hmem hgroup, schema_compactChunks, numRows_compactChunks, hname] at htakes
    exact htakes
  · intro h group hgroup
    obtain ⟨heq, hne⟩ := hgrouped.updates group hgroup
    obtain ⟨u, hu⟩ := List.exists_mem_of_ne_nil _ hne
    rw [heq] at hu
    obtain ⟨-, entry, hfind, htakes⟩ := h ⟨group.1, u.1⟩ u.2 (mem_updatesOf.mp hu)
    refine ⟨entry.compactChunks, by rw [find_flushAllPending, hfind]; rfl, ?_⟩
    rw [hmem hgroup, schema_compactChunks, numRows_compactChunks]
    exact htakes

/-- What the loop leaves, in terms of the dataset before its chunks were merged. -/
theorem Looped.written {entries : List (Sigma fun _ : FieldAccess => ArrayRef)}
    (h : Looped groups data.flushAllPending data') (hgrouped : Grouped entries groups)
    (htakes : data.flushAllPending.TakesAll groups) :
    Written data (fun key array => ⟨key, array⟩ ∈ entries) data' := by
  have hfound {name : String} (hname : name ∈ groups.map (·.1)) :
      ∃ entry batch, data.find name = some entry ∧
        data'.find name = some { entry.compactChunks with chunks := [batch] } ∧
        Rebuilt entry.schema data.rowCount (updatesOf entries name) entry.merged batch := by
    obtain ⟨group, hgroup, rfl⟩ := List.mem_map.mp hname
    obtain ⟨entry, hfind, -⟩ := htakes group hgroup
    obtain ⟨batch, hfind', hbatch⟩ := h.rebuilt group hgroup entry hfind
    rw [find_flushAllPending] at hfind
    obtain ⟨old, hold, rfl⟩ := Option.map_eq_some_iff.mp hfind
    rw [schema_compactChunks, Registered.merged_compactChunks,
      (hgrouped.updates group hgroup).1] at hbatch
    exact ⟨old, batch, hold, hfind', hbatch⟩
  have hin {key : FieldAccess} {array : ArrayRef} (hkey : ⟨key, array⟩ ∈ entries) :
      key.component ∈ groups.map (·.1) := hgrouped.covers _ hkey
  have hcolumn {name : String} {idx : Nat} {entry : Registered} {batch : RecordBatch}
      (hfind' : data'.find name = some { entry.compactChunks with chunks := [batch] }) :
      data'.columnAt name idx =
        if idx < entry.schema.fields.length then some (batch.column idx) else none := by
    rw [columnAt, hfind', Option.bind_some, schema_compactChunks]
    rfl
  refine ⟨h.shape.trans shape_flushAllPending, h.wellFormed, fun name idx key array hkey hwritten =>
    ?_, fun name idx hnone => ?_, fun name entry entry' hfind hfind' => ⟨?_, ?_⟩⟩
  · obtain ⟨entry, hentry, hkey⟩ := Option.bind_eq_some_iff.mp hkey
    obtain ⟨field, hfield, hkey⟩ := Option.bind_eq_some_iff.mp hkey
    split_ifs at hkey with hindex
    cases hkey
    obtain ⟨entry', batch, hfind, hfind', hbatch⟩ := hfound (hin hwritten)
    cases hentry.symm.trans hfind
    rw [hcolumn hfind', if_pos (List.getElem?_eq_some_iff.mp hfield).1]
    exact congrArg some (hbatch.news (field.name, array) (mem_updatesOf.mpr hwritten) idx hindex)
  · by_cases hname : name ∈ groups.map (·.1)
    · obtain ⟨entry, batch, hfind, hfind', hbatch⟩ := hfound hname
      rw [hcolumn hfind', columnAt, hfind, Option.bind_some]
      split_ifs with hidx
      · refine congrArg some (hbatch.others idx hidx fun u hu hindex => ?_)
        obtain ⟨field, hfield, hfname⟩ := Schema.indexOf_eq_some hindex
        refine hnone ⟨name, u.1⟩ u.2 ?_ (mem_updatesOf.mp hu)
        rw [keyAt, hfind, Option.bind_some, hfield, Option.bind_some, hfname, if_pos hindex]
      · rfl
    · rw [columnAt, h.others name hname, ← columnAt, columnAt_flushAllPending]
  · rintro ⟨key, array, hwritten, rfl⟩
    obtain ⟨old, batch, hold, hnew, hbatch⟩ := hfound (hin hwritten)
    cases hnew.symm.trans hfind'
    simpa [Registered.numRows] using hbatch.numRows
  · intro hnone
    have hname : name ∉ groups.map (·.1) := by
      intro hname
      obtain ⟨group, hgroup, rfl⟩ := List.mem_map.mp hname
      obtain ⟨heq, hne⟩ := hgrouped.updates group hgroup
      obtain ⟨u, hu⟩ := List.exists_mem_of_ne_nil _ hne
      rw [heq] at hu
      exact hnone ⟨_, u.2, mem_updatesOf.mp hu, rfl⟩
    rw [h.others name hname, find_flushAllPending, hfind] at hfind'
    cases hfind'
    exact numRows_compactChunks entry

/-! ## Write sets -/

section
variable {T V : Type} [DecidableEq T] {data data' : Dataset (ResourceMap T V)}
  {ws : WriteSet T V}

/-- The resources after updates in turn. -/
def updateResources (resources : ResourceMap T V) (updates : List (ResourceUpdate T V)) :
    ResourceMap T V :=
  updates.foldl (fun resources update =>
    Function.update resources update.resource (some update.value)) resources

theorem foldl_apply (updates : List (ResourceUpdate T V)) :
    updates.foldl (fun data update => update.apply data) data =
      { data with resources := updateResources data.resources updates } := by
  induction updates generalizing data with
  | nil => rfl
  | cons update updates ih =>
    rw [List.foldl_cons, ih]
    rfl

end

end Dataset

/-- The columns of a write set. -/
def WriteSet.Writes {T V : Type} (ws : WriteSet T V) (key : FieldAccess) (array : ArrayRef) :
    Prop :=
  ⟨key, array⟩ ∈ ws.fields.entries

namespace Dataset
variable {T V : Type} [DecidableEq T] {data data' : Dataset (ResourceMap T V)}
  {ws : WriteSet T V}

theorem sound_grouped {entries : List (Sigma fun _ : FieldAccess => ArrayRef)} {groups : Updates}
    {rowCount : Nat} (hkeys : (entries.map Sigma.fst).Nodup) (hgrouped : Grouped entries groups)
    (hlen : ∀ e ∈ entries, e.2.cells.length = rowCount) : Sound rowCount groups where
  nodup := hgrouped.nodup
  fields group hgroup := (hgrouped.updates group hgroup).1 ▸ nodup_updatesOf hkeys group.1
  nonempty group hgroup := (hgrouped.updates group hgroup).2
  length group hgroup u hu := by
    rw [(hgrouped.updates group hgroup).1] at hu
    exact hlen _ (mem_updatesOf.mp hu)

/-- A write set that fits is applied. -/
theorem applyWriteSet_eq_ok (hwf : data.WellFormed) (hfits : data.Fits ws.Writes) :
    ∃ data', data.applyWriteSet ws = (data', .ok ()) := by
  have hlen : ∀ e ∈ ws.fields.entries, e.2.cells.length = data.rowCount :=
    fun e he => (hfits e.1 e.2 he).1
  have hgrouped := grouped_foldl ws.fields.entries
  have hsound := sound_grouped ws.fields.nodupKeys hgrouped hlen
  obtain ⟨data', hloop⟩ := applyUpdates_eq_ok hwf.flush hwf.oneChunk_flush hsound
    ((takesAll_iff_fits hgrouped hlen).mpr hfits)
  refine ⟨{ data' with resources := updateResources data'.resources ws.resourceUpdates }, ?_⟩
  have hby : byComponent data.flushAllPending.rowCount ws.fields.entries [] = .ok _ :=
    byComponent_eq_ok hlen
  rw [applyWriteSet, hby]
  simp only [hloop, foldl_apply]

/-- A write set that is applied fits, and leaves its columns and resources in place of those that
were there. -/
theorem applyWriteSet_spec (hwf : data.WellFormed)
    (h : data.applyWriteSet ws = (data', .ok ())) :
    data.Fits ws.Writes ∧ Written data ws.Writes data' ∧
      data'.resources = updateResources data.resources ws.resourceUpdates := by
  rw [applyWriteSet] at h
  rcases hby : byComponent data.flushAllPending.rowCount ws.fields.entries [] with e | groups
  · simp [hby] at h
  have hlen : ∀ e ∈ ws.fields.entries, e.2.cells.length = data.rowCount :=
    length_of_byComponent hby
  have hgroups : groups = ws.fields.entries.foldl (fun groups e => addUpdate groups e.1 e.2) [] :=
    Except.ok.inj (hby.symm.trans (byComponent_eq_ok hlen))
  have hgrouped : Grouped ws.fields.entries groups := hgroups ▸ grouped_foldl ws.fields.entries
  have hsound := sound_grouped ws.fields.nodupKeys hgrouped hlen
  simp only [hby] at h
  rcases hloop : applyUpdates groups data.flushAllPending with ⟨looped, e | ⟨⟩⟩
  · simp [hloop] at h
  simp only [hloop, foldl_apply, Prod.mk.injEq, and_true] at h
  obtain ⟨htakes, hlooped⟩ := applyUpdates_spec hwf.flush hwf.oneChunk_flush hsound hloop
  have hwritten := hlooped.written hgrouped htakes
  subst h
  refine ⟨(takesAll_iff_fits hgrouped hlen).mp htakes,
    ⟨hwritten.shape, ⟨hwritten.wellFormed.nodup, hwritten.wellFormed.chunks,
      hwritten.wellFormed.valid⟩, hwritten.written, hwritten.others, hwritten.rows⟩, ?_⟩
  dsimp only
  rw [hlooped.resources]
  rfl

end Dataset
end Saci
