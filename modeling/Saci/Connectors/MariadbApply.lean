import Saci.Connectors.MariadbDedupe
import Saci.Connectors.MariadbSinkLaw
import Mathlib.Data.List.Perm.Subperm

/-!
# What a flush does to the target

The table is its rows, a value for each written column, and a conflict is a row with the same key, a float's
zero counted once. A statement of several rows applies them in order, so the statements of `apply_changes` do
what its rows do one by one (`Apply.covers_execute`), and a flush lands (`write_lands`), where positions fit.
-/

namespace Saci.Mariadb.Sink

/-! ## The target -/

abbrev Row := List Value

/-- Two keys conflict: no part is `NULL`, and the parts are the same. -/
def conflicts (a b : List Value) : Bool :=
  .null ∉ a && .null ∉ b && a.map Value.exact = b.map Value.exact

namespace MariadbSink

/-- The conflict key of a row of the target. -/
def key (sink : MariadbSink) (row : Row) : List Value :=
  sink.conflictColumns.map fun c =>
    match sink.written.findIdx? fun f => f.name = c with
    | some i => row.getD i .null
    | none => .null

/-- A row with the update columns of another. -/
def rewrite (sink : MariadbSink) (old new : Row) : Row :=
  sink.written.zipIdx.map fun (f, i) => if f.name ∈ sink.updateColumns then new.getD i .null else old.getD i .null

/-- An upsert on the conflict key. -/
def upsertRow (sink : MariadbSink) (table : List Row) (row : Row) : List Row :=
  if table.any fun old => conflicts (sink.key old) (sink.key row) then
    table.map fun old => if conflicts (sink.key old) (sink.key row) then sink.rewrite old row else old
  else table ++ [row]

/-- A delete by key. -/
def deleteKey (sink : MariadbSink) (table : List Row) (key : List Value) : List Row :=
  table.filter fun old => !conflicts (sink.key old) key

/-- The parameters of so many groups of placeholders. -/
def groups (columns : Nat) : Nat → List Value → List (List Value)
  | 0, _ => []
  | n + 1, params => params.take columns :: groups columns n (params.drop columns)

/-- What the server does on a statement of `apply_changes`: the rows of an `INSERT .. ON DUPLICATE KEY UPDATE`
in order, and at once the rows that a `DELETE` names. -/
def execute (sink : MariadbSink) (table : List Row) (statement : Statement) : List Row :=
  match statement.sql with
  | .clear => []
  | .insert rows => (groups sink.written.length rows statement.params).foldl sink.upsertRow table
  | .delete keys =>
    let named := groups sink.conflictColumns.length keys statement.params
    table.filter fun old => !named.any fun key => conflicts (sink.key old) key

/-! ## The changes, one by one -/

inductive Change
  | upsert (row : Row)
  | delete (key : List Value)

/-- What a change does to the target. -/
def applyChange (sink : MariadbSink) (table : List Row) : Change → List Row
  | .upsert row => sink.upsertRow table row
  | .delete key => sink.deleteKey table key

/-- The change that a row of a batch asks for. -/
def change (sink : MariadbSink) (batch : Batch) (row : Nat) : Except Failure Change :=
  match batch.columnByName "__op" with
  | some (.utf8 ops) => do
    match ← kindOf ops row with
    | .upsert => do
      let readers ← encoding (resolveColumns what batch sink.written)
      return .upsert (← encoding (rowValues readers row))
    | .delete => return .delete (← encoding (sink.keyOf batch row))
  | _ => .error (.encode (.generic s!"{what}: apply_changes needs a utf8 '__op' column in the batch"))

/-- The changes of the batches, in the order of arrival. -/
def changes (sink : MariadbSink) (batches : List Batch) : Except Failure (List Change) :=
  (batches.flatMap fun batch => (List.range batch.numRows).map fun row => (batch, row)).mapM fun (batch, row) =>
    sink.change batch row

end MariadbSink

/-! ## Groups -/

namespace MariadbSink

theorem groups_flatten {columns : Nat} {values : List (List Value)} (h : ∀ row ∈ values, row.length = columns) :
    groups columns values.length values.flatten = values := by
  induction values with
  | nil => rfl
  | cons row values ih =>
    obtain ⟨hrow, hvalues⟩ := List.forall_mem_cons.mp h
    rw [List.length_cons, groups, List.flatten_cons, List.take_left' hrow, List.drop_left' hrow, ih hvalues]

variable {sink : MariadbSink}

theorem foldl_deleteKey (keys : List (List Value)) (table : List Row) :
    keys.foldl sink.deleteKey table = table.filter fun old => !keys.any fun key => conflicts (sink.key old) key := by
  induction keys generalizing table with
  | nil => simp
  | cons key keys ih =>
    rw [List.foldl_cons, ih, deleteKey, List.filter_filter]
    simp [Bool.and_comm]

end MariadbSink

/-! ## Statements, change by change -/

/-- The change of a row's values. -/
def RunKind.change : RunKind → List Value → MariadbSink.Change
  | .upsert => .upsert
  | .delete => .delete

/-- The values that a row gives to a statement. -/
def MariadbSink.columns (sink : MariadbSink) : RunKind → Nat
  | .upsert => sink.written.length
  | .delete => sink.conflictColumns.length

/-- The rows of runs, with what each is for. -/
def steps (runs : List Run) : List (RunKind × Position) :=
  runs.flatMap fun run => run.rows.map fun p => (run.kind, p)

section
variable {sink : MariadbSink} {ctx : Apply} {limits : Limits} {fill : Position → Except Failure (List Value)}
  {rows : List Position} {statements : List Statement} {runs : List Run} {kind : RunKind}

theorem execute_changes {values : List (List Value)} (h : ∀ row ∈ values, row.length = sink.columns kind)
    (table : List Row) :
    sink.execute table ⟨kind.sql values.length, values.flatten⟩ =
      (values.map kind.change).foldl sink.applyChange table := by
  rw [List.foldl_map]
  cases kind with
  | upsert =>
    have hgroups : MariadbSink.groups sink.written.length values.length values.flatten = values :=
      MariadbSink.groups_flatten h
    simp only [MariadbSink.execute, RunKind.sql, hgroups]
    rfl
  | delete =>
    have hgroups : MariadbSink.groups sink.conflictColumns.length values.length values.flatten = values :=
      MariadbSink.groups_flatten h
    simp only [MariadbSink.execute, RunKind.sql, hgroups]
    exact (MariadbSink.foldl_deleteKey values table).symm

theorem Cut.execute (h : Cut limits fill kind.sql rows statements)
    (hfill : ∀ p ∈ rows, ∀ row, fill p = .ok row → row.length = sink.columns kind) :
    ∃ values, rows.mapM fill = .ok values ∧
      ∀ table, statements.foldl sink.execute table = (values.map kind.change).foldl sink.applyChange table := by
  induction h with
  | nil => exact ⟨[], rfl, fun _ => rfl⟩
  | @cons slice rows values statements _ hread _ _ ih =>
    obtain ⟨hslice, hrows⟩ := List.forall_mem_append.mp hfill
    obtain ⟨others, hothers, hrest⟩ := ih hrows
    have hlength : slice.length = values.length := (forall₂_of_mapM_eq_ok hread).length_eq
    have hvalues : ∀ row ∈ values, row.length = sink.columns kind := by
      intro row hrow
      obtain ⟨p, hp, hfillp⟩ := (mem_of_mapM_eq_ok hread).2 row hrow
      exact hslice p hp row hfillp
    refine ⟨values ++ others, ?_, fun table => ?_⟩
    · rw [List.mapM_append, hread, ok_bind, hothers]
      rfl
    · rw [List.foldl_cons, hlength, execute_changes hvalues, hrest, List.map_append, List.foldl_append]

/-- **The statements of the runs do what their rows do**, one by one. -/
theorem Apply.covers_execute (h : ctx.Covers runs statements)
    (hfill : ∀ step ∈ steps runs, ∀ row, ctx.fill step.1 step.2 = .ok row → row.length = sink.columns step.1) :
    ∃ changes, List.Forall₂ (fun step change => ∃ row, ctx.fill step.1 step.2 = .ok row ∧ change = step.1.change row)
        (steps runs) changes ∧
      ∀ table, statements.foldl sink.execute table = changes.foldl sink.applyChange table := by
  induction h with
  | nil => exact ⟨[], .nil, fun _ => rfl⟩
  | @cons run runs statements others hcut _ ih =>
    have hsteps : steps (run :: runs) = (run.rows.map fun p => (run.kind, p)) ++ steps runs := List.flatMap_cons
    rw [hsteps] at hfill ⊢
    obtain ⟨hrun, hruns⟩ := List.forall_mem_append.mp hfill
    obtain ⟨values, hread, hstatements⟩ := hcut.execute fun p hp => hrun _ (List.mem_map_of_mem hp)
    obtain ⟨changes, hchanges, hothers⟩ := ih hruns
    refine ⟨values.map run.kind.change ++ changes, List.rel_append ?_ hchanges, fun table => ?_⟩
    · rw [List.forall₂_map_left_iff, List.forall₂_map_right_iff]
      exact (forall₂_of_mapM_eq_ok hread).imp fun p row hp => ⟨row, hp, rfl⟩
    · rw [List.foldl_append, hstatements, hothers, List.foldl_append]

end

/-! ## Runs of changes -/

theorem steps_append (runs others : List Run) : steps (runs ++ others) = steps runs ++ steps others :=
  List.flatMap_append

theorem steps_pushRow (runs : List Run) (kind : RunKind) (p : Position) :
    steps (MariadbSink.pushRow runs kind p) = steps runs ++ [(kind, p)] := by
  rw [MariadbSink.pushRow]
  split
  · rename_i run hlast
    split_ifs with hkind
    · obtain ⟨front, rfl⟩ := List.getLast?_eq_some_iff.mp hlast
      rw [List.dropLast_concat, steps_append, steps_append, List.append_assoc]
      simp [steps, hkind]
    · rw [steps_append]
      rfl
  · rw [steps_append]
    rfl

/-- A row of the batches, with its batch. -/
abbrev Arrived := Batch × Position

/-- What `split_changes` reads of a row: the row itself, where positions fit. -/
def Asks (row : Arrived) (step : RunKind × Position) : Prop :=
  ∃ ops, row.1.columnByName "__op" = some (.utf8 ops) ∧ MariadbSink.kindOf ops row.2.2 = .ok step.1 ∧
    step.2 = (asU32 row.2.1, asU32 row.2.2)

/-- The rows of the batches, in the order of arrival. -/
def arrived (batches : List (Batch × Nat)) : List Arrived :=
  batches.flatMap fun (batch, b) => (List.range batch.numRows).map fun r => (batch, b, r)

section
variable {sink : MariadbSink} {runs runs' : List Run} {batch : Batch} {b : Nat} {ops : List (Option Text)}
  {keyReaders : List ColumnReader}

theorem splitRows_steps {rows : List Nat} (hops : batch.columnByName "__op" = some (.utf8 ops))
    (h : MariadbSink.splitRows b ops keyReaders rows runs = .ok runs') :
    ∃ more, steps runs' = steps runs ++ more ∧ List.Forall₂ Asks (rows.map fun r => (batch, b, r)) more := by
  induction rows generalizing runs with
  | nil =>
    cases h
    exact ⟨[], (List.append_nil _).symm, .nil⟩
  | cons r rows ih =>
    have hnext : ∃ kind, MariadbSink.kindOf ops r = .ok kind ∧
        MariadbSink.splitRows b ops keyReaders rows (MariadbSink.pushRow runs kind (asU32 b, asU32 r)) =
          .ok runs' := by
      obtain ⟨kind, hkind, h⟩ := bind_eq_ok_iff.mp h
      refine ⟨kind, hkind, ?_⟩
      cases kind with
      | upsert => exact h
      | delete =>
        obtain ⟨values, -, h⟩ := bind_eq_ok_iff.mp h
        dsimp only at h
        split_ifs at h
        · exact nomatch h
        · exact h
    obtain ⟨kind, hkind, h⟩ := hnext
    obtain ⟨more, hmore, hasks⟩ := ih h
    refine ⟨(kind, asU32 b, asU32 r) :: more, ?_, .cons ⟨ops, hops, hkind, rfl⟩ hasks⟩
    rw [hmore, steps_pushRow, List.append_assoc]
    rfl

theorem splitBatches_steps {batches : List (Batch × Nat)} (h : sink.splitBatches batches runs = .ok runs') :
    ∃ more, steps runs' = steps runs ++ more ∧ List.Forall₂ Asks (arrived batches) more := by
  induction batches generalizing runs with
  | nil =>
    cases h
    exact ⟨[], (List.append_nil _).symm, .nil⟩
  | cons first batches ih =>
    obtain ⟨batch, b⟩ := first
    rw [MariadbSink.splitBatches] at h
    split at h
    · rename_i ops hops
      obtain ⟨keyReaders, -, h⟩ := bind_eq_ok_iff.mp h
      obtain ⟨runs₁, hrows, h⟩ := bind_eq_ok_iff.mp h
      obtain ⟨here, hhere, hasks⟩ := splitRows_steps hops hrows
      obtain ⟨more, hmore, hrest⟩ := ih h
      refine ⟨here ++ more, by rw [hmore, hhere, List.append_assoc], ?_⟩
      rw [arrived, List.flatMap_cons]
      exact List.rel_append hasks hrest
    · exact nomatch h

/-- The runs are the rows of the batches, each with what its `__op` asks for. -/
theorem splitChanges_steps {batches : List Batch} (h : sink.splitChanges batches = .ok runs) :
    List.Forall₂ Asks (arrived batches.zipIdx) (steps runs) := by
  obtain ⟨more, hmore, hasks⟩ := splitBatches_steps h
  rw [hmore]
  exact hasks

end

/-! ## Configurations -/

/-- What a validated configuration gives a sink. -/
structure MariadbSink.Valid (sink : MariadbSink) : Prop where
  found : ∀ c ∈ sink.conflictColumns, ∃ f ∈ sink.fields, f.name = c
  keyFits : sink.conflictColumns.length ≤ sink.written.length
  order : ∀ column, sink.dedupeOrderColumn = some column → ∃ f ∈ sink.written, f.name = column

theorem checkColumn_eq_ok_iff {cfg : MariadbSinkConfig} {key column : String} :
    cfg.checkColumn key column = .ok () ↔ ∃ f ∈ cfg.fields, f.name = column := by
  rw [MariadbSinkConfig.checkColumn]
  split_ifs with h
  · simpa using h
  · exact iff_of_false nofun (by simpa using h)

theorem validateConflicts_eq_ok {cfg : MariadbSinkConfig} (h : cfg.validateConflicts = .ok ()) :
    cfg.conflictColumns.Nodup ∧ ∀ c ∈ cfg.conflictColumns, ∃ f ∈ cfg.fields, f.name = c := by
  rw [MariadbSinkConfig.validateConflicts] at h
  split_ifs at h
  · exact nomatch h
  obtain ⟨_, hfound, htwice⟩ := bind_eq_ok_iff.mp h
  refine ⟨?_, fun c hc => checkColumn_eq_ok_iff.mp (forM_eq_ok_iff.mp hfound c hc)⟩
  refine List.pairwise_iff_getElem.mpr fun i j hi hj hlt heq => ?_
  have hj' := forM_eq_ok_iff.mp htwice (cfg.conflictColumns[j], j) (List.mem_zipIdx_iff_getElem?.mpr (by simp))
  dsimp only at hj'
  split_ifs at hj' with hmem
  · exact nomatch hj'
  · exact hmem (heq ▸ List.mem_take_iff_getElem.mpr ⟨i, by omega, rfl⟩)

theorem validateChanges_eq_ok {cfg : MariadbSinkConfig} (h : cfg.validateChanges = .ok ())
    (hmode : cfg.writeMode = .applyChanges) : ∀ c ∈ cfg.conflictColumns, c.startsWith "__" = false := by
  rw [MariadbSinkConfig.validateChanges, if_neg (not_not.mpr hmode)] at h
  split at h
  · exact nomatch h
  · split_ifs at h
    · exact nomatch h
    · have hconflict := forM_eq_ok_iff.mp h ("conflict_columns", cfg.conflictColumns) List.mem_cons_self
      dsimp only at hconflict
      split at hconflict
      · exact nomatch hconflict
      · rename_i hnone
        exact fun c hc => Bool.eq_false_of_not_eq_true (List.find?_eq_none.mp hnone c hc)

theorem length_le_of_subset_map {α β : Type} {l : List β} {l' : List α} {f : α → β} (hnodup : l.Nodup)
    (h : ∀ b ∈ l, ∃ a ∈ l', f a = b) : l.length ≤ l'.length := by
  rw [← List.length_map f]
  exact (List.subperm_of_subset hnodup fun b hb => List.mem_map.mpr (h b hb)).length_le

/-- A sink that builds is valid. -/
theorem MariadbSink.new_valid {table : String × String} {cfg : MariadbSinkConfig} {sink : MariadbSink}
    (h : MariadbSink.new table cfg = .ok sink) : sink.Valid := by
  obtain ⟨_, hvalid, h⟩ := bind_eq_ok_iff.mp h
  cases h
  obtain ⟨_, -, hvalid⟩ := bind_eq_ok_iff.mp hvalid
  split_ifs at hvalid with hchunk happend
  · exact nomatch hvalid
  · have hnone := forM_eq_ok_iff.mp hvalid
    simp only [List.forall_mem_cons] at hnone
    obtain ⟨hconflict, -, hdedupe, -⟩ := hnone
    have hempty : cfg.conflictColumns = [] := by
      by_contra hne
      simp [hne] at hconflict
      exact nomatch hconflict
    have hnodedupe : cfg.dedupeOrderColumn = none := by
      by_contra hne
      simp [Option.isSome_iff_ne_none.mpr hne] at hdedupe
      exact nomatch hdedupe
    refine ⟨?_, ?_, ?_⟩
    · simp [hempty]
    · simp [hempty]
    · simp [hnodedupe]
  · obtain ⟨_, hconflicts, hvalid⟩ := bind_eq_ok_iff.mp hvalid
    obtain ⟨_, -, hvalid⟩ := bind_eq_ok_iff.mp hvalid
    obtain ⟨_, hdedupe, hchanges⟩ := bind_eq_ok_iff.mp hvalid
    obtain ⟨hnodup, hfound⟩ := validateConflicts_eq_ok hconflicts
    refine ⟨hfound, length_le_of_subset_map (f := FieldSpec.name) hnodup fun c hc => ?_, fun column hcolumn => ?_⟩
    · obtain ⟨f, hf, rfl⟩ := hfound c hc
      refine ⟨f, List.mem_filter.mpr ⟨hf, ?_⟩, rfl⟩
      by_cases hmode : cfg.writeMode = .applyChanges
      · simp [FieldSpec.isReserved, validateChanges_eq_ok hchanges hmode f.name hc]
      · simp [hmode]
    · dsimp only at hcolumn
      rw [MariadbSinkConfig.validateDedupe, hcolumn] at hdedupe
      dsimp only at hdedupe
      split_ifs at hdedupe with hmode
      · exact nomatch hdedupe
      · obtain ⟨f, hf, hname⟩ := checkColumn_eq_ok_iff.mp hdedupe
        exact ⟨f, List.mem_filter.mpr ⟨hf, by simp [hmode]⟩, hname⟩

theorem forall₂_trans {α β γ : Type} {R : α → β → Prop} {S : β → γ → Prop} {T : α → γ → Prop} {l : List α}
    {l' : List β} {l'' : List γ} (h : List.Forall₂ R l l') (h' : List.Forall₂ S l' l'')
    (htrans : ∀ a b c, R a b → S b c → T a c) : List.Forall₂ T l l'' := by
  induction h generalizing l'' with
  | nil =>
    cases h'
    exact .nil
  | cons hab _ ih =>
    cases h' with
    | cons hbc hrest => exact .cons (htrans _ _ _ hab hbc) (ih hrest)

/-! ## Readers -/

theorem length_rowValues {readers : List ColumnReader} {r : Nat} {row : List Value}
    (h : rowValues readers r = .ok row) : row.length = readers.length :=
  (forall₂_of_mapM_eq_ok h).length_eq.symm

theorem length_resolveColumns {batch : Batch} {specs : List FieldSpec} {readers : List ColumnReader}
    (h : resolveColumns what batch specs = .ok readers) : readers.length = specs.length :=
  (forall₂_of_mapM_eq_ok h).length_eq.symm

/-- A resolved column is of the declared type. -/
theorem resolveColumns_isA {batch : Batch} {specs : List FieldSpec} {readers : List ColumnReader}
    (h : resolveColumns what batch specs = .ok readers) {spec : FieldSpec} (hspec : spec ∈ specs) :
    ∃ array, batch.columnByName spec.name = some array ∧ array.isA spec.ty = true := by
  obtain ⟨reader, -, hreader⟩ := (mem_of_mapM_eq_ok h).1 spec hspec
  split at hreader
  · exact nomatch hreader
  · rename_i array harray
    obtain ⟨kind, hkind, -⟩ := bind_eq_ok_iff.mp hreader
    refine ⟨array, harray, ?_⟩
    by_contra hisA
    unfold readerKind at hkind
    rw [if_neg hisA] at hkind
    exact nomatch hkind

namespace MariadbSink

variable {sink : MariadbSink} {batches : List Batch} {readers : List (List ColumnReader × List ColumnReader)}

theorem length_keyFields (hvalid : sink.Valid) :
    (keyFields sink.fields sink.conflictColumns).length = sink.conflictColumns.length := by
  rw [keyFields, List.length_filterMap_eq_countP, List.countP_eq_length]
  intro c hc
  obtain ⟨f, hf, hname⟩ := hvalid.found c hc
  exact List.find?_isSome.mpr ⟨f, hf, by simpa using hname⟩

theorem applyReaders_spec (h : sink.applyReaders batches = .ok readers) {b : Nat} {batch : Batch}
    (hbatch : batches[b]? = some batch) :
    ∃ written key, readers[b]? = some (written, key) ∧ resolveColumns what batch sink.written = .ok written ∧
      resolveColumns what batch (keyFields sink.fields sink.conflictColumns) = .ok key := by
  obtain ⟨⟨written, key⟩, hreaders, hread⟩ := getElem?_of_forall₂ (forall₂_of_mapM_eq_ok h) hbatch
  obtain ⟨written', hwritten, hread⟩ := bind_eq_ok_iff.mp hread
  obtain ⟨key', hkey, hread⟩ := bind_eq_ok_iff.mp hread
  cases hread
  exact ⟨written, key, hreaders, encoding_eq_ok_iff.mp hwritten, encoding_eq_ok_iff.mp hkey⟩

/-- The values of a row, and the change that they make of it. -/
theorem fill_spec {prepared : Prepared} (hvalid : sink.Valid) (h : sink.applyReaders batches = .ok readers)
    {b r : Nat} {batch : Batch} (hbatch : batches[b]? = some batch) {kind : RunKind} {row : List Value}
    (hfill : (sink.apply prepared readers).fill kind (b, r) = .ok row) :
    row.length = sink.columns kind ∧
      ∀ ops, batch.columnByName "__op" = some (.utf8 ops) → kindOf ops r = .ok kind →
        sink.change batch r = .ok (kind.change row) := by
  obtain ⟨written, key, hreaders, hwritten, hkey⟩ := applyReaders_spec h hbatch
  cases kind with
  | upsert =>
    obtain ⟨values, hvalues, hfill⟩ := bind_eq_ok_iff.mp hfill
    obtain ⟨_, -, hfill⟩ := bind_eq_ok_iff.mp hfill
    cases hfill
    rw [encoding_eq_ok_iff] at hvalues
    have hat : (sink.apply prepared readers).readers.getD b [] = written := by simp [apply, hreaders]
    rw [hat] at hvalues
    refine ⟨(length_rowValues hvalues).trans (length_resolveColumns hwritten), fun ops hops hkind => ?_⟩
    rw [change, hops]
    dsimp only
    rw [hkind, ok_bind, hwritten, encoding_eq_ok_iff.mpr rfl, ok_bind, encoding_eq_ok_iff.mpr hvalues]
    rfl
  | delete =>
    have hvalues := encoding_eq_ok_iff.mp hfill
    have hat : (sink.apply prepared readers).keyReaders.getD b [] = key := by simp [apply, hreaders]
    rw [hat] at hvalues
    refine ⟨?_, fun ops hops hkind => ?_⟩
    · exact (length_rowValues hvalues).trans ((length_resolveColumns hkey).trans (length_keyFields hvalid))
    · rw [change, hops]
      dsimp only
      rw [hkind, ok_bind, keyOf, hkey, ok_bind, encoding_eq_ok_iff.mpr hvalues]
      rfl

/-! ## A flush lands -/

/-- The rows that a flush has to carry, in order. -/
def Planned (sink : MariadbSink) (batches : List Batch) (rows : List Position) : Prop :=
  match sink.writeMode, sink.dedupeOrderColumn with
  | .applyChanges, _ | _, none => rows = arrival batches
  | _, some order =>
    rows.Sublist (arrival batches) ∧ ∀ p ∈ arrival batches, p ∈ rows ↔ sink.Survives batches order p

/-- What a flush promises of the statements it commits. -/
structure Lands (sink : MariadbSink) (prepared : Prepared) (batches : List Batch) (truncate : Bool)
    (executed : List Statement) : Prop where
  /-- After the target is cleared, where that is asked for, the statements carry the rows, once and in order. -/
  covers : ∃ readers runs statements, sink.applyReaders batches = .ok readers ∧
    (sink.apply prepared readers).Covers runs statements ∧ executed = clearing truncate ++ statements ∧
      (sink.writeMode ≠ .applyChanges → ∀ run ∈ runs, run.kind = .upsert) ∧
        sink.Planned batches (runs.flatMap Run.rows)
  /-- Under `apply_changes` they do what the changes do one by one, in the order of arrival. -/
  applied : sink.writeMode = .applyChanges → ∃ changes, sink.changes batches = .ok changes ∧
    ∀ table, executed.foldl sink.execute table = changes.foldl sink.applyChange (if truncate then [] else table)
  within : ∀ statement ∈ executed, sink.Within prepared statement

theorem steps_map_snd (runs : List Run) : (steps runs).map Prod.snd = runs.flatMap Run.rows := by
  rw [steps, List.map_flatMap]
  simp [Function.comp_def]

theorem arrived_map_snd (batches : List Batch) : (arrived batches.zipIdx).map Prod.snd = arrival batches := by
  rw [arrived, arrival, List.map_flatMap]
  simp [Function.comp_def]

theorem mem_arrived {row : Arrived} (h : row ∈ arrived batches.zipIdx) :
    batches[row.2.1]? = some row.1 ∧ row.2 ∈ arrival batches := by
  refine ⟨?_, arrived_map_snd batches ▸ List.mem_map_of_mem h⟩
  obtain ⟨⟨batch, b⟩, hbatch, hrow⟩ := List.mem_flatMap.mp h
  obtain ⟨r, -, rfl⟩ := List.mem_map.mp hrow
  exact List.mem_zipIdx_iff_getElem?.mp hbatch

theorem asU32_of_mem_arrival (hfits : Addressable batches) {p : Position} (hp : p ∈ arrival batches) :
    (asU32 p.1, asU32 p.2) = p := by
  obtain ⟨batch, hbatch, hr⟩ := mem_arrival.mp hp
  obtain ⟨hb, rfl⟩ := List.getElem?_eq_some_iff.mp hbatch
  rw [asU32, asU32, Nat.mod_eq_of_lt (hb.trans_le hfits.1),
    Nat.mod_eq_of_lt (hr.trans_le (hfits.2 _ (List.getElem_mem hb)))]

theorem asks_snd (hfits : Addressable batches) {row : Arrived} {step : RunKind × Position}
    (hrow : row ∈ arrived batches.zipIdx) (h : Asks row step) : step.2 = row.2 := by
  obtain ⟨ops, -, -, hp⟩ := h
  rw [hp, asU32_of_mem_arrival hfits (mem_arrived hrow).2]

/-- The runs of `split_changes` are the rows, each with what its `__op` asks for. -/
theorem splitChanges_asks (hfits : Addressable batches) {runs : List Run} (h : sink.splitChanges batches = .ok runs) :
    List.Forall₂ (fun row step => row ∈ arrived batches.zipIdx ∧ Asks row step ∧ step.2 = row.2)
      (arrived batches.zipIdx) (steps runs) := by
  have hall := (List.forall₂_and_left _ _).mpr ⟨fun row hrow => hrow, splitChanges_steps h⟩
  exact hall.imp fun row step ⟨hrow, hasks⟩ => ⟨hrow, hasks, asks_snd hfits hrow hasks⟩

theorem planned_of_splitChanges (hfits : Addressable batches) {runs : List Run}
    (h : sink.splitChanges batches = .ok runs) : runs.flatMap Run.rows = arrival batches := by
  have hsame : List.Forall₂ (· = ·) ((steps runs).map Prod.snd) ((arrived batches.zipIdx).map Prod.snd) := by
    rw [List.forall₂_map_left_iff, List.forall₂_map_right_iff]
    exact (splitChanges_asks hfits h).flip.imp fun step row h => h.2.2
  rw [List.forall₂_eq_eq_eq, steps_map_snd, arrived_map_snd] at hsame
  exact hsame

/-- The one run of a mode that only inserts. -/
theorem planRuns_of_ne (hmode : sink.writeMode ≠ .applyChanges) :
    sink.planRuns batches = (do
      let rows ← sink.planRows batches
      return [⟨.upsert, rows⟩]) := by
  rw [planRuns]
  cases hwrite : sink.writeMode with
  | applyChanges => exact absurd hwrite hmode
  | _ => rfl

theorem kind_of_planRuns {runs : List Run} (h : sink.planRuns batches = .ok runs)
    (hmode : sink.writeMode ≠ .applyChanges) : ∀ run ∈ runs, run.kind = .upsert := by
  rw [planRuns_of_ne hmode] at h
  obtain ⟨rows, -, h⟩ := bind_eq_ok_iff.mp h
  cases h
  intro run hrun
  rw [List.mem_singleton.mp hrun]

theorem planned_of_planRuns (hvalid : sink.Valid) (hfits : Addressable batches)
    (hreaders : sink.applyReaders batches = .ok readers) {runs : List Run} (h : sink.planRuns batches = .ok runs) :
    sink.Planned batches (runs.flatMap Run.rows) := by
  have hinserts : ∀ rows : List Position, ([⟨.upsert, rows⟩] : List Run).flatMap Run.rows = rows := by simp
  by_cases hmode : sink.writeMode = .applyChanges
  · rw [planRuns, hmode] at h
    rw [Planned, hmode]
    exact planned_of_splitChanges hfits h
  · rw [planRuns_of_ne hmode] at h
    obtain ⟨rows, hrows, h⟩ := bind_eq_ok_iff.mp h
    cases h
    rw [hinserts]
    rw [planRows, everything_eq_arrival hfits] at hrows
    cases horder : sink.dedupeOrderColumn with
    | none =>
      rw [horder] at hrows
      cases hrows
      cases hwrite : sink.writeMode <;> simp [Planned, hwrite, horder]
    | some order =>
      rw [horder] at hrows
      obtain ⟨f, hf, rfl⟩ := hvalid.order order horder
      have hkind : OfKind batches f.name f.ty.orderKind := by
        intro batch hbatch array harray row
        obtain ⟨b, hb⟩ := List.mem_iff_getElem?.mp hbatch
        obtain ⟨written, key, -, hwritten, -⟩ := applyReaders_spec hreaders hb
        obtain ⟨array', harray', hisA⟩ := resolveColumns_isA hwritten hf
        cases harray.symm.trans harray'
        exact orderValue_of hisA row
      have hkept := dedupe_survives hkind hrows
      cases hwrite : sink.writeMode with
      | applyChanges => exact absurd hwrite hmode
      | _ => simpa [Planned, hwrite, horder] using hkept

theorem applied_of_covers (hvalid : sink.Valid) (hfits : Addressable batches)
    (hreaders : sink.applyReaders batches = .ok readers) {prepared : Prepared} {runs : List Run}
    {statements : List Statement} (hruns : sink.splitChanges batches = .ok runs)
    (hcovers : (sink.apply prepared readers).Covers runs statements) :
    ∃ changes, sink.changes batches = .ok changes ∧
      ∀ table, statements.foldl sink.execute table = changes.foldl sink.applyChange table := by
  have hasks := splitChanges_asks hfits hruns
  have hfill : ∀ step ∈ steps runs, ∀ row, (sink.apply prepared readers).fill step.1 step.2 = .ok row →
      row.length = sink.columns step.1 := by
    intro step hstep row hrow
    obtain ⟨j, hj⟩ := List.mem_iff_getElem?.mp hstep
    obtain ⟨arrived, -, hmem, -, hsnd⟩ := getElem?_of_forall₂ hasks.flip hj
    rw [hsnd] at hrow
    exact (fill_spec hvalid hreaders (mem_arrived hmem).1 hrow).1
  obtain ⟨changes, hchanges, hexecute⟩ := Apply.covers_execute hcovers hfill
  refine ⟨changes, ?_, hexecute⟩
  have hrows : (batches.flatMap fun batch => (List.range batch.numRows).map fun row => (batch, row)) =
      (arrived batches.zipIdx).map fun row => (row.1, row.2.2) := by
    have hbatches : batches = batches.zipIdx.map Prod.fst := by simp
    conv_lhs => rw [hbatches]
    rw [List.flatMap_map, arrived, List.map_flatMap]
    simp [Function.comp_def]
  rw [MariadbSink.changes, hrows]
  refine mapM_eq_ok_of_forall₂ (List.forall₂_map_left_iff.mpr ?_)
  refine forall₂_trans hasks hchanges fun row step change hrow hstep => ?_
  obtain ⟨hmem, ⟨ops, hops, hkind, -⟩, hsnd⟩ := hrow
  obtain ⟨values, hvalues, heq⟩ := hstep
  rw [hsnd] at hvalues
  rw [heq]
  exact (fill_spec hvalid hreaders (mem_arrived hmem).1 hvalues).2 ops hops hkind

/-- **A flush lands**, where positions fit and the target has no more columns than a table may have. -/
theorem write_lands {table : String × String} {cfg : MariadbSinkConfig} {catalog : Catalog} {prepared : Prepared}
    {truncate : Bool} {answers : List (Option MysqlError)} {executed : List Statement}
    (hnew : MariadbSink.new table cfg = .ok sink) (hresolve : sink.resolve catalog = .ok prepared)
    (hcolumns : sink.written.length ≤ 4096) (hfits : Addressable batches)
    (h : sink.write prepared batches truncate answers = .ok executed) :
    sink.Lands prepared batches truncate executed := by
  have hvalid := new_valid hnew
  obtain ⟨hinsert, hdelete⟩ := resolve_eq_ok hresolve
  obtain ⟨runs, readers, statements, hruns, hreaders, hcovers, rfl⟩ :=
    write_eq_ok (hinsert ▸ rowsPerInsert_pos _ _) (hdelete ▸ keysPerDelete_pos _ _) h
  have hwritten : sink.written.length ≤ placeholderLimit := hcolumns.trans (by decide)
  refine ⟨⟨readers, runs, statements, hreaders, hcovers, rfl, kind_of_planRuns hruns,
    planned_of_planRuns hvalid hfits hreaders hruns⟩,
    fun hmode => ?_, fun statement hmem => ?_⟩
  · rw [planRuns, hmode] at hruns
    obtain ⟨changes, hchanges, hexecute⟩ := applied_of_covers hvalid hfits hreaders hruns hcovers
    refine ⟨changes, hchanges, fun table => ?_⟩
    rw [List.foldl_append, hexecute]
    cases truncate <;> rfl
  · rcases List.mem_append.mp hmem with hclear | hmem
    · cases truncate with
      | false => exact absurd hclear List.not_mem_nil
      | true =>
        rw [List.mem_singleton.mp hclear]
        exact ⟨Nat.zero_le _, nofun, nofun⟩
    · exact within_of_covers hinsert hdelete hwritten (hvalid.keyFits.trans hwritten) hcovers statement hmem

end MariadbSink

/-! ## A row beyond the positions -/

section
variable {limits : Limits} {fill : Position → Except Failure (List Value)} {sql : Nat → Sql} {rows : List Position}
  {statements : List Statement}

/-- What a row gives to the statements. -/
theorem Cut.subset_params (h : Cut limits fill sql rows statements) {p : Position} (hp : p ∈ rows) :
    ∃ row, fill p = .ok row ∧ ∃ statement ∈ statements, row ⊆ statement.params := by
  induction h with
  | nil => exact absurd hp List.not_mem_nil
  | @cons slice rows values statements _ hread _ _ ih =>
    rcases List.mem_append.mp hp with hp | hp
    · obtain ⟨row, hrow, hfill⟩ := (mem_of_mapM_eq_ok hread).1 p hp
      exact ⟨row, hfill, _, List.mem_cons_self, fun v hv => List.mem_flatten_of_mem hrow hv⟩
    · obtain ⟨row, hfill, statement, hmem, hsubset⟩ := ih hp
      exact ⟨row, hfill, statement, List.mem_cons_of_mem _ hmem, hsubset⟩

/-- Every parameter of a statement is a row's. -/
theorem Cut.exists_fill (h : Cut limits fill sql rows statements) {statement : Statement}
    (hmem : statement ∈ statements) {v : Value} (hv : v ∈ statement.params) :
    ∃ p ∈ rows, ∃ row, fill p = .ok row ∧ v ∈ row := by
  induction h with
  | nil => exact absurd hmem List.not_mem_nil
  | @cons slice rows values statements _ hread _ _ ih =>
    rcases List.mem_cons.mp hmem with rfl | hmem
    · obtain ⟨row, hrow, hv⟩ := List.mem_flatten.mp hv
      obtain ⟨p, hp, hfill⟩ := (mem_of_mapM_eq_ok hread).2 row hrow
      exact ⟨p, List.mem_append_left _ hp, row, hfill, hv⟩
    · obtain ⟨p, hp, hfill⟩ := ih hmem
      exact ⟨p, List.mem_append_right _ hp, hfill⟩

theorem Apply.Covers.cut_of_run {ctx : Apply} {runs : List Run} (h : ctx.Covers runs statements) {run : Run}
    (hrun : run ∈ runs) :
    ∃ some, Cut (ctx.limits run.kind) (ctx.fill run.kind) run.kind.sql run.rows some ∧ some ⊆ statements := by
  induction h with
  | nil => exact absurd hrun List.not_mem_nil
  | @cons first runs statements others hcut _ ih =>
    rcases List.mem_cons.mp hrun with rfl | hrun
    · exact ⟨statements, hcut, List.subset_append_left _ _⟩
    · obtain ⟨some, hcut, hsubset⟩ := ih hrun
      exact ⟨some, hcut, List.Subset.trans hsubset (List.subset_append_right _ _)⟩

theorem Apply.Covers.cut_of_statement {ctx : Apply} {runs : List Run} (h : ctx.Covers runs statements)
    {statement : Statement} (hmem : statement ∈ statements) :
    ∃ run ∈ runs, ∃ some, Cut (ctx.limits run.kind) (ctx.fill run.kind) run.kind.sql run.rows some ∧
      statement ∈ some := by
  induction h with
  | nil => exact absurd hmem List.not_mem_nil
  | @cons first runs statements others hcut _ ih =>
    rcases List.mem_append.mp hmem with hmem | hmem
    · exact ⟨first, List.mem_cons_self, statements, hcut, hmem⟩
    · obtain ⟨run, hrun, hcut⟩ := ih hmem
      exact ⟨run, List.mem_cons_of_mem _ hrun, hcut⟩

theorem takeRows_total {chunk : Chunk} {bytes : Nat} (hfill : ∀ p ∈ rows, ∃ row, fill p = .ok row) :
    ∃ chunk' left, takeRows limits fill rows chunk bytes = .ok (chunk', left) ∧ left.rows ⊆ rows := by
  induction rows generalizing chunk bytes with
  | nil => exact ⟨chunk, _, rfl, List.Subset.refl _⟩
  | cons p rows ih =>
    obtain ⟨⟨row, hrow⟩, hrows⟩ := List.forall_mem_cons.mp hfill
    rw [takeRows]
    split_ifs with hmax
    · rw [hrow, ok_bind]
      split_ifs with hover
      · exact ⟨_, _, rfl, List.subset_cons_self p rows⟩
      · obtain ⟨chunk', left, htake, hsubset⟩ := ih hrows
        exact ⟨chunk', left, htake, List.subset_cons_of_subset p hsubset⟩
    · exact ⟨_, _, rfl, List.Subset.refl _⟩

variable (limits) in
theorem nextChunk_total {chunker : Chunker} (hfill : ∀ p ∈ chunker.rows, ∃ row, fill p = .ok row) :
    ∃ chunk left, chunker.nextChunk limits fill = .ok (chunk, left) ∧ left.rows ⊆ chunker.rows := by
  rw [Chunker.nextChunk]
  split
  · exact takeRows_total hfill
  · exact takeRows_total hfill

/-- A server that answers nothing else succeeds. -/
theorem runStatement_total {tx : Transaction} (htx : tx.answers = []) (slot : Option Sql) (full : Bool) (stmt : Sql)
    (params : List Value) :
    ∃ tx' slot', tx.runStatement slot full stmt params = .ok (tx', slot') ∧ tx'.answers = [] := by
  have hcommand : tx.command = .ok tx := by
    rw [Transaction.command, htx]
  have hexec : ∀ stmt params, tx.exec stmt params = .ok { tx with executed := tx.executed ++ [⟨stmt, params⟩] } := by
    intro stmt params
    rw [Transaction.exec, hcommand]
    rfl
  unfold Transaction.runStatement
  cases full with
  | false =>
    rw [if_neg Bool.false_ne_true, hcommand, ok_bind, hexec]
    exact ⟨_, _, rfl, htx⟩
  | true =>
    rw [if_pos rfl]
    cases slot with
    | none =>
      dsimp only
      rw [hcommand, ok_bind, hexec]
      exact ⟨_, _, rfl, htx⟩
    | some held =>
      dsimp only
      rw [hexec]
      exact ⟨_, _, rfl, htx⟩

theorem runChunks_total {context : String} {chunker : Chunker} {tx : Transaction} {slot : Option Sql}
    (hfill : ∀ p ∈ chunker.rows, ∃ row, fill p = .ok row) (htx : tx.answers = []) :
    ∃ tx' slot', runChunks limits fill sql context chunker tx slot = .ok (tx', slot') ∧ tx'.answers = [] := by
  induction chunker, tx, slot using runChunks.induct limits fill with
  | case1 chunker tx slot e hnext =>
    obtain ⟨chunk, left, hnext', -⟩ := nextChunk_total limits hfill
    cases hnext.symm.trans hnext'
  | case2 chunker tx slot chunk left hnext hrows =>
    rw [runChunks]
    split
    · rename_i hnext'
      cases hnext.symm.trans hnext'
    · rename_i hnext'
      cases hnext.symm.trans hnext'
      rw [dif_pos hrows]
      exact ⟨tx, slot, rfl, htx⟩
  | case3 chunker tx slot chunk left hnext hrows ih =>
    obtain ⟨chunk', left', hnext', hsubset⟩ := nextChunk_total limits hfill
    cases hnext.symm.trans hnext'
    rw [runChunks]
    split
    · rename_i hnext''
      cases hnext.symm.trans hnext''
    · rename_i hnext''
      cases hnext.symm.trans hnext''
      rw [dif_neg hrows]
      obtain ⟨tx₁, slot₁, hstatement, htx₁⟩ :=
        runStatement_total htx slot (chunk.rows = limits.maxRows) (sql chunk.rows) chunk.params
      rw [mapError_eq_ok_iff.mpr hstatement, ok_bind]
      exact ih tx₁ slot₁ (fun p hp => hfill p (hsubset hp)) htx₁

end

/-- A flush that only inserts succeeds where every value can be sent and the server refuses nothing. -/
theorem MariadbSink.write_total {sink : MariadbSink} {prepared : Prepared} {batches : List Batch}
    {readers : List (List ColumnReader × List ColumnReader)} (hmode : sink.writeMode ≠ .applyChanges)
    (hdedupe : sink.dedupeOrderColumn = none) (hreaders : sink.applyReaders batches = .ok readers)
    (hfill : ∀ p ∈ everything batches, ∃ row, (sink.apply prepared readers).fillInsert p = .ok row) :
    ∃ executed, sink.write prepared batches false [] = .ok executed := by
  have hruns : sink.planRuns batches = .ok [⟨.upsert, everything batches⟩] := by
    rw [planRuns_of_ne hmode, planRows, hdedupe]
    rfl
  have hchunks : ∃ tx slot, runChunks (sink.apply prepared readers).insertLimits
      (sink.apply prepared readers).fillInsert .insert s!"INSERT into '{sink.shown}' failed"
      ⟨everything batches, none⟩ ⟨[], []⟩ none = .ok (tx, slot) ∧
        tx.answers = [] := runChunks_total hfill rfl
  obtain ⟨tx, slot, hchunks, htx⟩ := hchunks
  have hrun : sink.run prepared batches [⟨.upsert, everything batches⟩] false ⟨[], []⟩ = .ok tx := by
    rw [run, clearTarget, if_neg Bool.false_ne_true, ok_bind, hreaders, ok_bind, Apply.runAll]
    exact bind_eq_ok_iff.mpr ⟨(tx, slot), hchunks, rfl⟩
  have hcommit : tx.command = .ok tx := by
    rw [Transaction.command, htx]
  refine ⟨tx.executed, ?_⟩
  rw [write, hruns, ok_bind]
  exact bind_eq_ok_iff.mpr ⟨⟨[], []⟩, rfl, bind_eq_ok_iff.mpr ⟨tx, hrun,
    bind_eq_ok_iff.mpr ⟨tx, mapError_eq_ok_iff.mpr hcommit, rfl⟩⟩⟩

end Saci.Mariadb.Sink

namespace Saci.Mariadb.Sink.Sample

/-- A sink that appends one column. -/
def cfg : MariadbSinkConfig := ⟨[⟨"flag", .boolean, none, none⟩], .append, [], [], none, 1000⟩

def sink : MariadbSink := ⟨("shop", "flags"), cfg.fields, cfg.fields, .append, [], ["flag"], none, 1000⟩

def catalog : Catalog := ⟨.mariadb, .ok [], .ok [], .ok none⟩

/-- So many rows, and a last one that differs. -/
def flags (n : Nat) : List (Option Bool) := List.replicate n (some false) ++ [some true]

def batch (n : Nat) : Batch := ⟨[("flag", .boolean (flags n))], n + 1⟩

def reader (n : Nat) : ColumnReader := ⟨what, "flag", .boolean (flags n)⟩

theorem new_sink : MariadbSink.new ("shop", "flags") cfg = .ok sink := rfl

theorem applyReaders_batch (n : Nat) : sink.applyReaders [batch n] = .ok [([reader n], [])] := rfl

theorem rowValues_reader {n r : Nat} {flag : Bool} (h : (flags n)[r]? = some (some flag)) :
    rowValues [reader n] r = .ok [.int (if flag then 1 else 0)] := by
  have hvalue : (reader n).value r = .ok (.int (if flag then 1 else 0)) := by
    rw [reader, ColumnReader.value]
    dsimp only
    rw [ColumnReader.read, List.getD_eq_getElem?_getD, h]
    rfl
  rw [rowValues, List.mapM_cons, hvalue]
  rfl

theorem fillInsert_batch {prepared : Prepared} (hguards : prepared.fractionGuards = []) {n r : Nat} {flag : Bool}
    (h : (flags n)[r]? = some (some flag)) :
    (sink.apply prepared [([reader n], [])]).fillInsert (0, r) = .ok [.int (if flag then 1 else 0)] := by
  have hvalues : rowValues ((sink.apply prepared [([reader n], [])]).readers.getD 0 []) r =
      .ok [.int (if flag then 1 else 0)] := rowValues_reader h
  have hguard : guardFractions (sink.apply prepared [([reader n], [])]).prepared sink.written
      [.int (if flag then 1 else 0)] r = .ok () := by
    rw [guardFractions]
    exact hguards ▸ rfl
  exact bind_eq_ok_iff.mpr ⟨_, MariadbSink.encoding_eq_ok_iff.mpr hvalues, bind_eq_ok_iff.mpr ⟨(), hguard, rfl⟩⟩

theorem flags_of_lt {n r : Nat} (h : r < n) : (flags n)[r]? = some (some false) := by
  rw [flags, List.getElem?_append_left (by simpa using h), List.getElem?_replicate_of_lt h]

theorem flags_last (n : Nat) : (flags n)[n]? = some (some true) := by
  rw [flags, List.getElem?_append_right (by simp)]
  simp

theorem everything_batch (n : Nat) :
    everything [batch n] = (List.range (n + 1)).map fun r => (0, asU32 r) := by
  simp [everything, batch, asU32]

section
variable {n : Nat}

/-- Where positions end below the last row, the first is carried in its place. -/
theorem not_lands_of_lt (hn : ∀ r, asU32 r < n) {prepared : Prepared} {executed : List Statement}
    (hresolve : sink.resolve catalog = .ok prepared) (hguards : prepared.fractionGuards = [])
    (hwrite : sink.write prepared [batch n] false [] = .ok executed) :
    ¬sink.Lands prepared [batch n] false executed := by
  intro hlands
  obtain ⟨hinsert, hdelete⟩ := MariadbSink.resolve_eq_ok hresolve
  obtain ⟨runs, readers, statements, hruns, hreaders, hcovers, rfl⟩ :=
    MariadbSink.write_eq_ok (hinsert ▸ rowsPerInsert_pos _ _) (hdelete ▸ keysPerDelete_pos _ _) hwrite
  obtain ⟨readers', runs', statements', hreaders', hcovers', hsame, hkind, hplanned⟩ := hlands.covers
  cases (show executed = statements' from hsame)
  cases (applyReaders_batch n).symm.trans hreaders
  cases (applyReaders_batch n).symm.trans hreaders'
  have hrows : runs'.flatMap Run.rows = arrival [batch n] := hplanned
  -- the last row is planned, so a statement carries its value
  have hlast : (0, n) ∈ arrival [batch n] := mem_arrival.mpr ⟨batch n, rfl, Nat.lt_succ_self n⟩
  rw [← hrows] at hlast
  obtain ⟨run', hrun', hlast⟩ := List.mem_flatMap.mp hlast
  obtain ⟨some', hcut', hsubset⟩ := hcovers'.cut_of_run hrun'
  obtain ⟨row, hrow, statement, hmem, hparams⟩ := hcut'.subset_params hlast
  rw [hkind nofun run' hrun'] at hrow
  cases (fillInsert_batch hguards (flags_last n)).symm.trans hrow
  -- but every row that was read has the other value
  obtain ⟨run, hrun, some, hcut, hmem⟩ := hcovers.cut_of_statement (hsubset hmem)
  have hplan : sink.planRuns [batch n] = .ok [⟨.upsert, everything [batch n]⟩] := rfl
  cases hplan.symm.trans hruns
  rw [List.mem_singleton.mp hrun] at hcut
  obtain ⟨p, hp, row, hrow, hv⟩ := hcut.exists_fill hmem (hparams List.mem_cons_self)
  have hread : p ∈ everything [batch n] := hp
  rw [everything_batch] at hread
  obtain ⟨r, -, rfl⟩ := List.mem_map.mp hread
  cases (fillInsert_batch hguards (flags_of_lt (hn r))).symm.trans hrow
  exact absurd hv (by decide)

theorem write_batch_total (hn : ∀ r, asU32 r ≤ n) {prepared : Prepared} (hguards : prepared.fractionGuards = []) :
    ∃ executed, sink.write prepared [batch n] false [] = .ok executed := by
  refine MariadbSink.write_total nofun rfl (applyReaders_batch n) fun p hp => ?_
  rw [everything_batch] at hp
  obtain ⟨r, -, rfl⟩ := List.mem_map.mp hp
  rcases (hn r).lt_or_eq with hlt | heq
  · exact ⟨_, fillInsert_batch hguards (flags_of_lt hlt)⟩
  · rw [heq]
    exact ⟨_, fillInsert_batch hguards (flags_last n)⟩

end

/-- A batch of one row more than there are positions does not land. -/
theorem last_row_lost : ∃ prepared executed, sink.resolve catalog = .ok prepared ∧
    sink.write prepared [batch (2 ^ 32)] false [] = .ok executed ∧
      ¬sink.Lands prepared [batch (2 ^ 32)] false executed := by
  have hn : ∀ r, asU32 r < 2 ^ 32 := fun r => Nat.mod_lt r (by decide)
  generalize 2 ^ 32 = n at hn
  obtain ⟨prepared, hresolve, hguards⟩ :
      ∃ prepared, sink.resolve catalog = .ok prepared ∧ prepared.fractionGuards = [] := ⟨_, rfl, rfl⟩
  obtain ⟨executed, hwrite⟩ := write_batch_total (fun r => (hn r).le) hguards
  exact ⟨prepared, executed, hresolve, hwrite, not_lands_of_lt hn hresolve hguards hwrite⟩

theorem write_lands_batch : ∃ prepared executed, sink.resolve catalog = .ok prepared ∧
    sink.write prepared [batch 2] false [] = .ok executed ∧ sink.Lands prepared [batch 2] false executed := by
  obtain ⟨prepared, hresolve, hguards⟩ :
      ∃ prepared, sink.resolve catalog = .ok prepared ∧ prepared.fractionGuards = [] := ⟨_, rfl, rfl⟩
  obtain ⟨executed, hwrite⟩ : ∃ executed, sink.write prepared [batch 2] false [] = .ok executed := by
    refine MariadbSink.write_total nofun rfl (applyReaders_batch _) fun p hp => ?_
    rw [everything_batch] at hp
    obtain ⟨r, hr, rfl⟩ := List.mem_map.mp hp
    rcases Nat.lt_succ_iff_lt_or_eq.mp (List.mem_range.mp hr) with hlt | rfl
    · exact ⟨_, fillInsert_batch hguards (flags_of_lt (by rw [asU32]; omega))⟩
    · exact ⟨_, fillInsert_batch hguards (flags_last 2)⟩
  have hfits : Addressable [batch 2] := ⟨by decide, fun batch hbatch => by
    rw [List.mem_singleton.mp hbatch]
    decide⟩
  exact ⟨prepared, executed, hresolve, hwrite,
    MariadbSink.write_lands new_sink hresolve (by decide) hfits hwrite⟩

end Saci.Mariadb.Sink.Sample
