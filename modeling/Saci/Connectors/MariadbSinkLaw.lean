import Saci.Connectors.MariadbSink

/-!
# The statements of a flush

However a run is cut, by rows, by placeholders or by bytes, its statements carry each of its rows once and in
order (`Cut`). A chunk keeps within the budget by construction, and the row that did not fit opens the next
one; a full chunk runs through the handle of an earlier one, which was prepared for the same statement.
-/

namespace Saci.Mariadb.Sink

/-! ## Chunks -/

/-- What a statement of so many rows is estimated at. -/
def Limits.estimate (limits : Limits) (rows : Nat) (params : List Value) : Nat :=
  limits.base + rows * limits.perRow + rowBytes params

/-- A statement of so many rows fits. -/
structure Limits.Fits (limits : Limits) (rows : Nat) (params : List Value) : Prop where
  within : rows ≤ limits.maxRows
  budget : rows ≤ 1 ∨ limits.estimate rows params ≤ limits.budget

/-- Statements that carry these rows, each once and in order. -/
inductive Cut (limits : Limits) (fill : Position → Except Failure (List Value)) (sql : Nat → Sql) :
    List Position → List Statement → Prop
  | nil : Cut limits fill sql [] []
  | cons {slice rows : List Position} {values : List (List Value)} {statements : List Statement}
    (filled : slice ≠ []) (read : slice.mapM fill = .ok values) (fits : limits.Fits slice.length values.flatten)
    (rest : Cut limits fill sql rows statements) :
    Cut limits fill sql (slice ++ rows) (⟨sql slice.length, values.flatten⟩ :: statements)

@[simp] theorem rowBytes_nil : rowBytes [] = 0 := rfl

@[simp] theorem rowBytes_append (a b : List Value) : rowBytes (a ++ b) = rowBytes a + rowBytes b := by
  simp [rowBytes]

section
variable {limits : Limits} {fill : Position → Except Failure (List Value)} {sql : Nat → Sql}
  {rows pending : List Position} {chunk chunk' : Chunk} {bytes : Nat} {chunker left : Chunker}
  {statements : List Statement} {context : String} {tx tx' : Transaction} {slot slot' : Option Sql}

/-- The rows that a chunker still has to put out. -/
inductive Chunker.Pending (fill : Position → Except Failure (List Value)) : Chunker → List Position → Prop
  | whole (rows : List Position) : Pending fill ⟨rows, none⟩ rows
  | carrying {position : Position} {values : List Value} (read : fill position = .ok values) (rows : List Position) :
    Pending fill ⟨rows, some values⟩ (position :: rows)

/-- What the loop of `next_chunk` adds to a chunk. -/
structure Taken (limits : Limits) (fill : Position → Except Failure (List Value)) (chunk chunk' : Chunk)
    (taken : List Position) : Prop where
  read : ∃ values, taken.mapM fill = .ok values ∧ chunk'.params = chunk.params ++ values.flatten
  rows : chunk'.rows = chunk.rows + taken.length
  fits : limits.Fits chunk'.rows chunk'.params

theorem takeRows_eq_ok (h : takeRows limits fill rows chunk bytes = .ok (chunk', left))
    (hfits : limits.Fits chunk.rows chunk.params) (hbytes : bytes = limits.estimate chunk.rows chunk.params) :
    ∃ taken rest, rows = taken ++ rest ∧ Taken limits fill chunk chunk' taken ∧ left.Pending fill rest ∧
      (chunk'.rows = 0 → 0 < limits.maxRows → rest = []) := by
  induction rows generalizing chunk bytes with
  | nil =>
    cases h
    exact ⟨[], [], rfl, ⟨⟨[], rfl, by simp⟩, rfl, hfits⟩, .whole [], fun _ _ => rfl⟩
  | cons position rows ih =>
    rw [takeRows] at h
    split_ifs at h with hmax
    · obtain ⟨values, hvalues, h⟩ := bind_eq_ok_iff.mp h
      split_ifs at h with hover
      · cases h
        exact ⟨[], position :: rows, rfl, ⟨⟨[], rfl, by simp⟩, rfl, hfits⟩, .carrying hvalues rows,
          fun hzero => absurd hzero hover.1.ne'⟩
      · have hestimate : bytes + (limits.perRow + rowBytes values) =
            limits.estimate (chunk.rows + 1) (chunk.params ++ values) := by
          rw [hbytes, Limits.estimate, Limits.estimate, rowBytes_append, Nat.add_mul]
          omega
        have hnext : limits.Fits (chunk.rows + 1) (chunk.params ++ values) := by
          refine ⟨hmax, ?_⟩
          rw [← hestimate]
          omega
        obtain ⟨taken, rest, rfl, ⟨⟨read, hread, hparams⟩, hrows, hfits'⟩, hleft, hend⟩ := ih h hnext hestimate
        refine ⟨position :: taken, rest, rfl, ⟨⟨values :: read, ?_, ?_⟩, ?_, hfits'⟩, hleft, hend⟩
        · rw [List.mapM_cons, hvalues, hread]
          rfl
        · rw [hparams, List.flatten_cons, List.append_assoc]
        · rw [hrows, List.length_cons]
          dsimp only
          omega
    · cases h
      refine ⟨[], position :: rows, rfl, ⟨⟨[], rfl, by simp⟩, rfl, hfits⟩, .whole _, fun hzero hpos => ?_⟩
      exact absurd (hzero ▸ hpos) hmax

/-- A chunk is the next rows, and none only where no rows are left. -/
theorem nextChunk_eq_ok (hpending : chunker.Pending fill pending) (hmax : 0 < limits.maxRows)
    (h : chunker.nextChunk limits fill = .ok (chunk, left)) :
    ∃ slice rest values, pending = slice ++ rest ∧ slice.mapM fill = .ok values ∧
      chunk = ⟨values.flatten, slice.length⟩ ∧ limits.Fits slice.length values.flatten ∧
      left.Pending fill rest ∧ (slice = [] → rest = []) := by
  cases hpending with
  | whole =>
    have hstart : limits.Fits 0 [] := ⟨Nat.zero_le _, .inl (Nat.zero_le 1)⟩
    obtain ⟨taken, rest, rfl, ⟨⟨values, hread, hparams⟩, hrows, hfits⟩, hleft, hend⟩ :=
      takeRows_eq_ok h hstart (by simp [Limits.estimate])
    obtain ⟨params, rows⟩ := chunk
    simp only [List.nil_append, Nat.zero_add] at hparams hrows
    subst hparams hrows
    exact ⟨taken, rest, values, rfl, hread, rfl, hfits, hleft, fun hnil => hend (by simp [hnil]) hmax⟩
  | @carrying position carried hcarried rows =>
    have hstart : limits.Fits 1 carried := ⟨hmax, .inl le_rfl⟩
    obtain ⟨taken, rest, rfl, ⟨⟨values, hread, hparams⟩, hrows, hfits⟩, hleft, -⟩ :=
      takeRows_eq_ok h hstart (by simp [Limits.estimate, Nat.add_assoc])
    obtain ⟨params, rows⟩ := chunk
    simp only at hparams hrows
    rw [Nat.add_comm] at hrows
    subst hparams hrows
    refine ⟨position :: taken, rest, carried :: values, rfl, ?_, rfl, hfits, hleft, nofun⟩
    rw [List.mapM_cons, hcarried, hread]
    rfl

/-! ## Statements -/

theorem command_executed (h : tx.command = .ok tx') : tx'.executed = tx.executed := by
  rw [Transaction.command] at h
  split at h <;> cases h <;> rfl

theorem exec_executed {stmt : Sql} {params : List Value} (h : tx.exec stmt params = .ok tx') :
    tx'.executed = tx.executed ++ [⟨stmt, params⟩] := by
  obtain ⟨tx₁, hcommand, h⟩ := bind_eq_ok_iff.mp h
  cases h
  rw [command_executed hcommand]

/-- A handle was prepared for the full statement. -/
def Handles.Of (full : Sql) (slot : Option Sql) : Prop := ∀ stmt ∈ slot, stmt = full

theorem Handles.of_none (full : Sql) : Handles.Of full none := nofun

theorem runStatement_executed {full : Sql} {isFull : Bool} {stmt : Sql} {params : List Value}
    (h : tx.runStatement slot isFull stmt params = .ok (tx', slot')) (hslot : Handles.Of full slot)
    (hfull : isFull = true → stmt = full) :
    tx'.executed = tx.executed ++ [⟨stmt, params⟩] ∧ Handles.Of full slot' := by
  unfold Transaction.runStatement at h
  split_ifs at h with hisFull
  · have hstmt := hfull hisFull
    split at h
    · rename_i held
      obtain ⟨tx₁, hexec, h⟩ := bind_eq_ok_iff.mp h
      cases h
      rw [hstmt, ← hslot held rfl]
      exact ⟨exec_executed hexec, fun other hother => (hslot held rfl) ▸ (Option.some.inj hother).symm⟩
    · obtain ⟨tx₁, hcommand, h⟩ := bind_eq_ok_iff.mp h
      obtain ⟨tx₂, hexec, h⟩ := bind_eq_ok_iff.mp h
      cases h
      rw [exec_executed hexec, command_executed hcommand]
      exact ⟨rfl, fun other hother => (Option.some.inj hother) ▸ hstmt⟩
  · obtain ⟨tx₁, hcommand, h⟩ := bind_eq_ok_iff.mp h
    obtain ⟨tx₂, hexec, h⟩ := bind_eq_ok_iff.mp h
    cases h
    rw [exec_executed hexec, command_executed hcommand]
    exact ⟨rfl, hslot⟩

theorem mapError_eq_ok_iff {α ε ε' : Type} {f : ε → ε'} {x : Except ε α} {a : α} :
    x.mapError f = .ok a ↔ x = .ok a := by
  cases x with
  | error e => exact ⟨nofun, nofun⟩
  | ok b => simp [Except.mapError]

/-- **A run is cut.** Its statements carry its rows once and in order. -/
theorem runChunks_cut (hmax : 0 < limits.maxRows) (hpending : chunker.Pending fill pending)
    (hslot : Handles.Of (sql limits.maxRows) slot)
    (h : runChunks limits fill sql context chunker tx slot = .ok (tx', slot')) :
    ∃ statements, tx'.executed = tx.executed ++ statements ∧ Cut limits fill sql pending statements ∧
      Handles.Of (sql limits.maxRows) slot' := by
  induction chunker, tx, slot using runChunks.induct limits fill generalizing pending with
  | case1 chunker tx slot e hnext =>
    rw [runChunks] at h
    split at h
    · exact nomatch h
    · rename_i hnext'
      exact nomatch hnext.symm.trans hnext'
  | case2 chunker tx slot chunk left hnext hrows =>
    rw [runChunks] at h
    split at h
    · exact nomatch h
    · rename_i hnext'
      cases hnext.symm.trans hnext'
      rw [dif_pos hrows] at h
      cases h
      obtain ⟨slice, rest, values, rfl, -, rfl, -, -, hend⟩ := nextChunk_eq_ok hpending hmax hnext
      have hslice : slice = [] := List.length_eq_zero_iff.mp hrows
      rw [hslice, hend hslice]
      exact ⟨[], (List.append_nil _).symm, .nil, hslot⟩
  | case3 chunker tx slot chunk left hnext hrows ih =>
    rw [runChunks] at h
    split at h
    · exact nomatch h
    · rename_i hnext'
      cases hnext.symm.trans hnext'
      rw [dif_neg hrows] at h
      obtain ⟨⟨tx₁, slot₁⟩, hstatement, hnextChunks⟩ := bind_eq_ok_iff.mp h
      rw [mapError_eq_ok_iff] at hstatement
      obtain ⟨slice, rest, values, rfl, hread, rfl, hfits, hleft, -⟩ := nextChunk_eq_ok hpending hmax hnext
      obtain ⟨hexecuted, hslot₁⟩ := runStatement_executed hstatement hslot
        fun hfull => congrArg sql (of_decide_eq_true hfull)
      obtain ⟨statements, hstatements, hcut, hslot'⟩ := ih tx₁ slot₁ hleft hslot₁ hnextChunks
      refine ⟨⟨sql slice.length, values.flatten⟩ :: statements, ?_, .cons ?_ hread hfits hcut, hslot'⟩
      · rw [hstatements, hexecuted, List.append_assoc]
        rfl
      · exact fun hnil => hrows (congrArg List.length hnil)

end

/-! ## Runs -/

/-- The statement of so many rows. -/
def RunKind.sql : RunKind → Nat → Sql
  | .upsert => .insert
  | .delete => .delete

namespace Apply

def limits (ctx : Apply) : RunKind → Limits
  | .upsert => ctx.insertLimits
  | .delete => ctx.deleteLimits

def fill (ctx : Apply) : RunKind → Position → Except Failure (List Value)
  | .upsert => ctx.fillInsert
  | .delete => ctx.fillDelete

/-- Statements that carry the rows of these runs. -/
inductive Covers (ctx : Apply) : List Run → List Statement → Prop
  | nil : Covers ctx [] []
  | cons {run : Run} {runs : List Run} {statements others : List Statement}
    (cut : Cut (ctx.limits run.kind) (ctx.fill run.kind) run.kind.sql run.rows statements)
    (rest : Covers ctx runs others) : Covers ctx (run :: runs) (statements ++ others)

variable {ctx : Apply} {runs : List Run} {tx tx' : Transaction} {handles : Handles}

theorem runAll_covers (hinsert : 0 < ctx.prepared.rowsPerInsert) (hdelete : 0 < ctx.prepared.keysPerDelete)
    (hinserts : Handles.Of (.insert ctx.insertLimits.maxRows) handles.insert)
    (hdeletes : Handles.Of (.delete ctx.deleteLimits.maxRows) handles.delete)
    (h : ctx.runAll runs tx handles = .ok tx') :
    ∃ statements, tx'.executed = tx.executed ++ statements ∧ ctx.Covers runs statements := by
  induction runs generalizing tx handles with
  | nil =>
    cases h
    exact ⟨[], (List.append_nil _).symm, .nil⟩
  | cons run runs ih =>
    obtain ⟨kind, rows⟩ := run
    cases kind with
    | upsert =>
      obtain ⟨⟨tx₁, insert⟩, hchunks, hrest⟩ := bind_eq_ok_iff.mp h
      obtain ⟨statements, hexecuted, hcut, hinserts'⟩ :=
        runChunks_cut hinsert (.whole rows) hinserts hchunks
      obtain ⟨others, hothers, hcovers⟩ := @ih tx₁ { handles with insert } hinserts' hdeletes hrest
      exact ⟨statements ++ others, by rw [hothers, hexecuted, List.append_assoc], .cons hcut hcovers⟩
    | delete =>
      obtain ⟨⟨tx₁, delete⟩, hchunks, hrest⟩ := bind_eq_ok_iff.mp h
      obtain ⟨statements, hexecuted, hcut, hdeletes'⟩ :=
        runChunks_cut hdelete (.whole rows) hdeletes hchunks
      obtain ⟨others, hothers, hcovers⟩ := @ih tx₁ { handles with delete } hinserts hdeletes' hrest
      exact ⟨statements ++ others, by rw [hothers, hexecuted, List.append_assoc], .cons hcut hcovers⟩

end Apply

namespace MariadbSink

/-- The statement that clears the target, where it is asked for. -/
def clearing (truncate : Bool) : List Statement := if truncate then [⟨.clear, []⟩] else []

/-- **The statements of a flush** clear the target where that is asked for, and then carry the planned rows,
each once and in order. -/
theorem write_eq_ok {sink : MariadbSink} {prepared : Prepared} {batches : List Batch} {truncate : Bool}
    {answers : List (Option MysqlError)} {executed : List Statement} (hinsert : 0 < prepared.rowsPerInsert)
    (hdelete : 0 < prepared.keysPerDelete) (h : sink.write prepared batches truncate answers = .ok executed) :
    ∃ runs readers statements, sink.planRuns batches = .ok runs ∧ sink.applyReaders batches = .ok readers ∧
      (sink.apply prepared readers).Covers runs statements ∧ executed = clearing truncate ++ statements := by
  obtain ⟨runs, hruns, h⟩ := bind_eq_ok_iff.mp h
  obtain ⟨tx, hbegin, h⟩ := bind_eq_ok_iff.mp h
  obtain ⟨tx', hrun, h⟩ := bind_eq_ok_iff.mp h
  obtain ⟨tx'', hcommit, h⟩ := bind_eq_ok_iff.mp h
  cases h
  have hbegun := command_executed (mapError_eq_ok_iff.mp hbegin)
  obtain ⟨tx₁, hclear, hrun⟩ := bind_eq_ok_iff.mp hrun
  obtain ⟨readers, hreaders, hrun⟩ := bind_eq_ok_iff.mp hrun
  have hcleared : tx₁.executed = clearing truncate := by
    cases truncate with
    | false =>
      cases hclear
      exact hbegun
    | true =>
      have hexecuted := exec_executed (mapError_eq_ok_iff.mp hclear)
      rw [hbegun] at hexecuted
      exact hexecuted
  obtain ⟨statements, hstatements, hcovers⟩ :=
    Apply.runAll_covers hinsert hdelete (Handles.of_none _) (Handles.of_none _) hrun
  refine ⟨runs, readers, statements, hruns, hreaders, hcovers, ?_⟩
  rw [command_executed (mapError_eq_ok_iff.mp hcommit), hstatements, hcleared]

end MariadbSink

/-! ## Limits -/

theorem rowsPerInsert_pos (chunkRows columns : Nat) : 0 < rowsPerInsert chunkRows columns :=
  lt_of_lt_of_le Nat.one_pos (le_max_right _ _)

theorem keysPerDelete_pos (rows columns : Nat) : 0 < keysPerDelete rows columns :=
  lt_of_lt_of_le Nat.one_pos (le_max_right _ _)

/-- So many rows keep within the placeholders, unless a single one does not. -/
theorem mul_le_placeholderLimit {limit columns rows : Nat} (hcolumns : columns ≤ placeholderLimit)
    (hrows : rows ≤ max (min limit (placeholderLimit / max columns 1)) 1) : rows * columns ≤ placeholderLimit := by
  rcases Nat.eq_zero_or_pos columns with rfl | hpos
  · exact Nat.zero_le _
  · rw [Nat.max_eq_left (show 1 ≤ columns from hpos)] at hrows
    have hone : 1 ≤ placeholderLimit / columns := (Nat.one_le_div_iff hpos).mpr hcolumns
    have hle : rows ≤ placeholderLimit / columns := hrows.trans (max_le (min_le_right _ _) hone)
    exact (Nat.le_div_iff_mul_le hpos).mp hle

namespace MariadbSink

theorem resolve_eq_ok {sink : MariadbSink} {catalog : Catalog} {prepared : Prepared}
    (h : sink.resolve catalog = .ok prepared) :
    prepared.rowsPerInsert = rowsPerInsert sink.chunkRows sink.written.length ∧
      prepared.keysPerDelete = keysPerDelete prepared.rowsPerInsert sink.conflictColumns.length := by
  obtain ⟨guards, -, h⟩ := bind_eq_ok_iff.mp h
  obtain ⟨-, -, h⟩ := bind_eq_ok_iff.mp h
  obtain ⟨packet, -, h⟩ := bind_eq_ok_iff.mp h
  cases h
  exact ⟨rfl, rfl⟩

/-- The placeholders of a statement. -/
def placeholders (sink : MariadbSink) : Sql → Nat
  | .clear => 0
  | .insert rows => rows * sink.written.length
  | .delete keys => keys * sink.conflictColumns.length

/-- A statement keeps within its limits: the placeholders, and the packet unless it holds a single row. -/
structure Within (sink : MariadbSink) (prepared : Prepared) (statement : Statement) : Prop where
  placeholders : sink.placeholders statement.sql ≤ placeholderLimit
  inserted : ∀ rows, statement.sql = .insert rows → rows = 1 ∨
    (sink.apply prepared []).insertLimits.estimate rows statement.params ≤ prepared.packetBudget
  deleted : ∀ keys, statement.sql = .delete keys → keys = 1 ∨
    (sink.apply prepared []).deleteLimits.estimate keys statement.params ≤ prepared.packetBudget

theorem within_of_cut {sink : MariadbSink} {prepared : Prepared}
    {readers : List (List ColumnReader × List ColumnReader)} {kind : RunKind} {rows : List Position}
    {statements : List Statement}
    (hinsert : prepared.rowsPerInsert = rowsPerInsert sink.chunkRows sink.written.length)
    (hdelete : prepared.keysPerDelete = keysPerDelete prepared.rowsPerInsert sink.conflictColumns.length)
    (hwritten : sink.written.length ≤ placeholderLimit) (hkey : sink.conflictColumns.length ≤ placeholderLimit)
    (h : Cut ((sink.apply prepared readers).limits kind) ((sink.apply prepared readers).fill kind) kind.sql rows
      statements) : ∀ statement ∈ statements, sink.Within prepared statement := by
  induction h with
  | nil => exact nofun
  | @cons slice rows values statements hfilled _ hfits _ ih =>
    refine List.forall_mem_cons.mpr ⟨?_, ih⟩
    have hone : slice.length ≤ 1 → slice.length = 1 := fun hle =>
      le_antisymm hle (List.length_pos_of_ne_nil hfilled)
    cases kind with
    | upsert =>
      have hrows : slice.length ≤ rowsPerInsert sink.chunkRows sink.written.length := hinsert ▸ hfits.within
      refine ⟨mul_le_placeholderLimit hwritten hrows, ?_, nofun⟩
      rintro _ ⟨⟩
      exact hfits.budget.imp_left hone
    | delete =>
      have hrows : slice.length ≤ keysPerDelete prepared.rowsPerInsert sink.conflictColumns.length :=
        hdelete ▸ hfits.within
      refine ⟨mul_le_placeholderLimit hkey hrows, nofun, ?_⟩
      rintro _ ⟨⟩
      exact hfits.budget.imp_left hone

theorem within_of_covers {sink : MariadbSink} {prepared : Prepared}
    {readers : List (List ColumnReader × List ColumnReader)} {runs : List Run} {statements : List Statement}
    (hinsert : prepared.rowsPerInsert = rowsPerInsert sink.chunkRows sink.written.length)
    (hdelete : prepared.keysPerDelete = keysPerDelete prepared.rowsPerInsert sink.conflictColumns.length)
    (hwritten : sink.written.length ≤ placeholderLimit) (hkey : sink.conflictColumns.length ≤ placeholderLimit)
    (h : (sink.apply prepared readers).Covers runs statements) :
    ∀ statement ∈ statements, sink.Within prepared statement := by
  induction h with
  | nil => exact nofun
  | cons hcut _ ih =>
    intro statement hmem
    rcases List.mem_append.mp hmem with hmem | hmem
    · exact within_of_cut hinsert hdelete hwritten hkey hcut statement hmem
    · exact ih statement hmem

end MariadbSink

end Saci.Mariadb.Sink
