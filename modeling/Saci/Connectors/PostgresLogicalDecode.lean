import Saci.Connectors.PostgresLogical

/-!
# What one peek decodes to

A peek carries whole transactions (`Renders`). Its batches hold the rows of the table's changes in
commit order, and each batch is tied to the newest transaction whose rows are all in it or before it.
-/

namespace Saci.Postgres.Logical

open Pgoutput

/-! ## What the server sends -/

/-- The messages of one transaction after its `Begin`: a change once its relation was declared, and in
between what is no change. -/
inductive Publishes : Decoder → List Change → List SlotRow → Decoder → Prop
  | done (d : Decoder) : Publishes d [] [] d
  | relation {d d' d'' : Decoder} {relId : Nat} {changes : List Change} {row : SlotRow}
      {rows : List SlotRow} (decoded : d.decode row.data = .ok (.relation relId, d'))
      (rest : Publishes d' changes rows d'') : Publishes d changes (row :: rows) d''
  | truncate {d d' d'' : Decoder} {relations : Nat} {changes : List Change} {row : SlotRow}
      {rows : List SlotRow} (decoded : d.decode row.data = .ok (.truncate relations, d'))
      (rest : Publishes d' changes rows d'') : Publishes d changes (row :: rows) d''
  | metadata {d d' d'' : Decoder} {changes : List Change} {row : SlotRow} {rows : List SlotRow}
      (decoded : d.decode row.data = .ok (.metadata, d'))
      (rest : Publishes d' changes rows d'') : Publishes d changes (row :: rows) d''
  | change {d d' d'' : Decoder} {relId : Nat} {operation : Operation} {tuple : List TupleValue}
      {relation : Relation} {changes : List Change} {row : SlotRow} {rows : List SlotRow}
      (decoded : d.decode row.data = .ok (.change relId operation tuple, d'))
      (declared : d'.relation relId = some relation) (rest : Publishes d' changes rows d'') :
      Publishes d (⟨relation.qualified, operation, tuple⟩ :: changes) (row :: rows) d''

/-- The rows of a peek carry whole transactions, one after the other. -/
inductive Renders : Decoder → List Transaction → List SlotRow → Prop
  | done (d : Decoder) : Renders d [] []
  | transaction {d d₁ d₂ d₃ : Decoder} {commitTs endLsn : Int} {t : Transaction}
      {ts : List Transaction} {first last : SlotRow} {body rows : List SlotRow}
      (begins : d.decode first.data = .ok (.begin commitTs, d₁))
      (publishes : Publishes d₁ t.changes body d₂)
      (commits : d₂.decode last.data = .ok (.commit endLsn, d₃))
      (ends : lsnOfCommit endLsn = t.endLsn) (rest : Renders d₃ ts rows) :
      Renders d (t :: ts) (first :: (body ++ last :: rows))

section
variable (values : Values) (cfg : Config)

/-- The changes of a transaction to the declared table. -/
def tableChanges (t : Transaction) : List Change := t.changes.filter fun change => change.table = cfg.table

/-- A row is what a change of the table reads as. -/
def Reads (change : Change) (row : Row) : Prop :=
  ∃ relation columns plan lsn xid commitTs,
    Relation.qualified relation = cfg.table ∧
    RelationPlan.build values cfg relation columns = .ok plan ∧
    plan.pushRow values cfg change.tuple change.operation lsn xid commitTs = .ok row

/-- The rows of batches with what is tied to each. -/
def rowsOf {α : Type} (batches : List (RecordBatch × α)) : List Row :=
  batches.flatMap fun batch => batch.1.rows

/-- How many of the table's changes had been read when each transaction committed. -/
def commitPoints (read : Nat) : List Transaction → List (Nat × Nat)
  | [] => []
  | t :: ts =>
    let read := read + (tableChanges cfg t).length
    (read, t.endLsn) :: commitPoints read ts

end

/-- Each batch has rows, and ends where the rows before it and its own add up to. -/
def EndsAt : Nat → List (RecordBatch × Nat) → Prop
  | _, [] => True
  | read, (batch, endRow) :: batches =>
    batch.rows ≠ [] ∧ endRow = read + batch.rows.length ∧ EndsAt endRow batches

section
variable {values : Values} {cfg : Config} {columns : List ColumnType} {batchRows : Nat}

theorem rowsOf_append {α : Type} {batches more : List (RecordBatch × α)} :
    rowsOf (batches ++ more) = rowsOf batches ++ rowsOf more := List.flatMap_append

theorem rowsOf_singleton {α : Type} (batch : RecordBatch) (a : α) : rowsOf [(batch, a)] = batch.rows :=
  List.append_nil _

theorem rowsOf_map {α β : Type} (f : α → β) (batches : List (RecordBatch × α)) :
    rowsOf (batches.map fun batch => (batch.1, f batch.2)) = rowsOf batches := by
  rw [rowsOf, List.flatMap_map]
  rfl

theorem endsAt_append {read : Nat} {batches more : List (RecordBatch × Nat)} :
    EndsAt read (batches ++ more) ↔ EndsAt read batches ∧ EndsAt (read + (rowsOf batches).length) more := by
  induction batches generalizing read with
  | nil => exact ⟨fun h => ⟨trivial, h⟩, And.right⟩
  | cons batch batches ih =>
    obtain ⟨batch, endRow⟩ := batch
    have hlength : (rowsOf ((batch, endRow) :: batches)).length =
        batch.rows.length + (rowsOf batches).length := by
      rw [rowsOf, List.flatMap_cons, List.length_append]
      rfl
    rw [List.cons_append, EndsAt, EndsAt, ih, hlength]
    constructor
    · rintro ⟨hne, rfl, hbatches, hmore⟩
      exact ⟨⟨hne, rfl, hbatches⟩, Nat.add_assoc .. ▸ hmore⟩
    · rintro ⟨⟨hne, rfl, hbatches⟩, hmore⟩
      exact ⟨hne, rfl, hbatches, Nat.add_assoc .. ▸ hmore⟩

theorem finishChunk_eq_ok {rows : List Row} {batch : RecordBatch}
    (h : finishChunk cfg rows = .ok batch) : batch.rows = rows := by
  rw [finishChunk] at h
  split at h
  · cases h
  · cases h
    rfl

/-! ## The locals of the loop -/

/-- The rows decoded so far: those of the finished batches, and of the open builders. -/
def Decoding.emitted (d : Decoding) : List Row := rowsOf d.produced ++ d.builders.getD []

/-- The locals of the loop after changes of the table and the ends of transactions. -/
structure Decoded (values : Values) (cfg : Config) (d : Decoding) (changes : List Change)
    (points : List (Nat × Nat)) : Prop where
  reads : List.Forall₂ (Reads values cfg) changes d.emitted
  count : d.rowsDecoded = changes.length
  inChunk : d.rowsInChunk = (d.builders.getD []).length
  planned : ∀ plan, d.plan = some plan →
    ∃ relation columns, Relation.qualified relation = cfg.table ∧
      RelationPlan.build values cfg relation columns = .ok plan
  ends : EndsAt 0 d.produced
  points : d.commitPoints = points

theorem decoded_start : Decoded values cfg .start [] [] :=
  ⟨.nil, rfl, rfl, nofun, trivial, rfl⟩

variable {d d' : Decoding} {changes : List Change} {points : List (Nat × Nat)}

theorem Decoded.length_emitted (h : Decoded values cfg d changes points) :
    d.emitted.length = d.rowsDecoded := by
  rw [h.count, h.reads.length_eq]

/-- A `Relation` message of the table: what is open becomes a batch. -/
theorem Decoded.takeRelation (h : Decoded values cfg d changes points) {relation : Relation}
    (hname : relation.qualified = cfg.table)
    (htake : takeRelation values cfg columns d relation = .ok d') :
    Decoded values cfg d' changes points := by
  rw [Logical.takeRelation, bind_eq_ok_iff] at htake
  obtain ⟨plan, hplan, htake⟩ := htake
  have hplanned : ∀ plan', some plan = some plan' → ∃ relation columns,
      Relation.qualified relation = cfg.table ∧
        RelationPlan.build values cfg relation columns = .ok plan' := by
    rintro _ ⟨⟩
    exact ⟨relation, columns, hname, hplan⟩
  have hemitted := h.length_emitted
  cases hbuilders : d.builders with
  | none =>
    rw [hbuilders] at htake
    cases htake
    exact ⟨hbuilders ▸ h.reads, h.count, hbuilders ▸ h.inChunk, hplanned, h.ends, h.points⟩
  | some rows =>
    have hinChunk := h.inChunk
    have hreads := h.reads
    rw [Decoding.emitted, hbuilders, Option.getD_some] at hreads hemitted
    rw [hbuilders, Option.getD_some] at hinChunk
    rw [hbuilders] at htake
    dsimp only at htake
    split_ifs at htake with hpos
    · rw [bind_eq_ok_iff] at htake
      obtain ⟨batch, hbatch, htake⟩ := htake
      cases htake
      have hrows := finishChunk_eq_ok hbatch
      refine ⟨?_, h.count, rfl, hplanned, ?_, h.points⟩
      · rw [Decoding.emitted, rowsOf_append, rowsOf_singleton, hrows]
        exact (List.append_nil _).symm ▸ hreads
      · rw [List.length_append] at hemitted
        refine endsAt_append.mpr ⟨h.ends, ?_, ?_, trivial⟩
        · rw [hrows]
          exact List.ne_nil_of_length_pos (hinChunk ▸ hpos)
        · rw [hrows, Nat.zero_add, hemitted]
    · cases htake
      have hnil : rows = [] := List.eq_nil_of_length_eq_zero (by omega)
      subst hnil
      exact ⟨hreads, h.count, Nat.eq_zero_of_not_pos hpos, hplanned, h.ends, h.points⟩

/-- The rows of the builders that a change goes to. -/
theorem getD_openBuilders {plan : RelationPlan} {rows : List Row}
    (h : openBuilders values cfg plan d = .ok rows) : d.builders.getD [] = rows := by
  rw [openBuilders] at h
  split at h
  next hbuilders =>
    cases h
    rw [hbuilders, Option.getD_some]
  next hbuilders =>
    rw [bind_eq_ok_iff] at h
    obtain ⟨_, -, h⟩ := h
    cases h
    rw [hbuilders, Option.getD_none]

/-- A change of the table: its row is read, and a full chunk becomes a batch. -/
theorem Decoded.takeChange (h : Decoded values cfg d changes points) {table : String} {lsn : Nat}
    {xid : Option Int} {operation : Operation} {tuple : List TupleValue}
    (htake : takeChange values cfg batchRows d lsn xid operation tuple = .ok d') :
    Decoded values cfg d' (changes ++ [⟨table, operation, tuple⟩]) points := by
  rw [Logical.takeChange, bind_eq_ok_iff] at htake
  obtain ⟨plan, hplan, htake⟩ := htake
  rw [bind_eq_ok_iff] at htake
  obtain ⟨rows, hrows, htake⟩ := htake
  rw [bind_eq_ok_iff] at htake
  obtain ⟨row, hrow, htake⟩ := htake
  have hplan : d.plan = some plan := by
    rw [currentPlan] at hplan
    split at hplan
    next hsome =>
      cases hplan
      exact hsome
    next => cases hplan
  have hopen := getD_openBuilders hrows
  obtain ⟨relation, relationColumns, hname, hbuild⟩ := h.planned plan hplan
  have hread : Reads values cfg ⟨table, operation, tuple⟩ row :=
    ⟨relation, relationColumns, plan, lsn, xid, d.commitTs, hname, hbuild, hrow⟩
  have hemitted := h.length_emitted
  have hreads := h.reads
  have hinChunk := h.inChunk
  rw [Decoding.emitted, hopen] at hreads hemitted
  rw [hopen] at hinChunk
  have hreads := List.rel_append hreads (.cons hread .nil)
  have hcount : d.rowsDecoded + 1 = (changes ++ [Change.mk table operation tuple]).length := by
    rw [List.length_append, h.count, List.length_singleton]
  split_ifs at htake with hfull
  · rw [bind_eq_ok_iff] at htake
    obtain ⟨batch, hbatch, htake⟩ := htake
    cases htake
    have hbatch := finishChunk_eq_ok hbatch
    refine ⟨?_, hcount, rfl, h.planned, ?_, h.points⟩
    · rw [Decoding.emitted, rowsOf_append, rowsOf_singleton, hbatch, Option.getD_none, List.append_nil,
        ← List.append_assoc]
      exact hreads
    · refine endsAt_append.mpr ⟨h.ends, ?_, ?_, trivial⟩
      · rw [hbatch]
        exact List.append_ne_nil_of_right_ne_nil _ (List.cons_ne_nil _ _)
      · rw [hbatch, List.length_append, List.length_singleton]
        rw [List.length_append] at hemitted
        omega
  · cases htake
    refine ⟨?_, hcount, ?_, h.planned, h.ends, h.points⟩
    · rw [Decoding.emitted, Option.getD_some, ← List.append_assoc]
      exact hreads
    · rw [Option.getD_some, List.length_append, hinChunk]
      rfl

/-! ## The loop -/

theorem decodeRow_eq_ok {row : SlotRow} (h : decodeRow values cfg columns batchRows d row = .ok d') :
    ∃ lsn xid message decoder, d.decoder.decode row.data = .ok (message, decoder) ∧
      takeMessage values cfg columns batchRows { d with decoder } lsn xid message = .ok d' := by
  rw [decodeRow, bind_eq_ok_iff] at h
  obtain ⟨⟨lsn, xid⟩, -, h⟩ := h
  dsimp only at h
  rw [bind_eq_ok_iff] at h
  obtain ⟨⟨message, decoder⟩, hdecode, h⟩ := h
  exact ⟨lsn, xid, message, decoder, hdecode, h⟩

theorem Decoded.setDecoder (h : Decoded values cfg d changes points) (decoder : Decoder) :
    Decoded values cfg { d with decoder } changes points :=
  ⟨h.reads, h.count, h.inChunk, h.planned, h.ends, h.points⟩

theorem decoder_takeRelation {relation : Relation}
    (h : takeRelation values cfg columns d relation = .ok d') : d'.decoder = d.decoder := by
  rw [takeRelation, bind_eq_ok_iff] at h
  obtain ⟨plan, -, h⟩ := h
  split at h
  · split_ifs at h
    · rw [bind_eq_ok_iff] at h
      obtain ⟨batch, -, h⟩ := h
      cases h
      rfl
    · cases h
      rfl
  · cases h
    rfl

theorem decoder_takeChange {lsn : Nat} {xid : Option Int} {operation : Operation}
    {tuple : List TupleValue} (h : takeChange values cfg batchRows d lsn xid operation tuple = .ok d') :
    d'.decoder = d.decoder := by
  rw [takeChange, bind_eq_ok_iff] at h
  obtain ⟨plan, -, h⟩ := h
  rw [bind_eq_ok_iff] at h
  obtain ⟨rows, -, h⟩ := h
  rw [bind_eq_ok_iff] at h
  obtain ⟨row, -, h⟩ := h
  split_ifs at h
  · rw [bind_eq_ok_iff] at h
    obtain ⟨batch, -, h⟩ := h
    cases h
    rfl
  · cases h
    rfl

/-- The messages of one transaction after its `Begin`. -/
theorem Decoded.publishes {before after : Decoder} {published : List Change} {rows : List SlotRow}
    (hpublishes : Publishes before published rows after) (h : Decoded values cfg d changes points)
    (hdecoder : d.decoder = before)
    (hfold : rows.foldlM (decodeRow values cfg columns batchRows) d = .ok d') :
    Decoded values cfg d' (changes ++ published.filter fun change => change.table = cfg.table) points ∧
      d'.decoder = after := by
  induction hpublishes generalizing d changes with
  | done before =>
    cases hfold
    exact ⟨(List.append_nil changes).symm ▸ h, hdecoder⟩
  | relation decoded rest ih =>
    rw [List.foldlM_cons, bind_eq_ok_iff] at hfold
    obtain ⟨d₁, hrow, hfold⟩ := hfold
    obtain ⟨lsn, xid, message, decoder, hdecode, htake⟩ := decodeRow_eq_ok hrow
    rw [hdecoder, decoded] at hdecode
    cases hdecode
    rw [takeMessage] at htake
    split at htake
    · cases htake
    · split_ifs at htake with hname
      · exact ih ((h.setDecoder _).takeRelation hname htake) (decoder_takeRelation htake) hfold
      · cases htake
        exact ih (h.setDecoder _) rfl hfold
  | truncate decoded rest ih =>
    rw [List.foldlM_cons, bind_eq_ok_iff] at hfold
    obtain ⟨d₁, hrow, hfold⟩ := hfold
    obtain ⟨lsn, xid, message, decoder, hdecode, htake⟩ := decodeRow_eq_ok hrow
    rw [hdecoder, decoded] at hdecode
    cases hdecode
    cases htake
    exact ih (h.setDecoder _) rfl hfold
  | metadata decoded rest ih =>
    rw [List.foldlM_cons, bind_eq_ok_iff] at hfold
    obtain ⟨d₁, hrow, hfold⟩ := hfold
    obtain ⟨lsn, xid, message, decoder, hdecode, htake⟩ := decodeRow_eq_ok hrow
    rw [hdecoder, decoded] at hdecode
    cases hdecode
    cases htake
    exact ih (h.setDecoder _) rfl hfold
  | change decoded declared rest ih =>
    rw [List.foldlM_cons, bind_eq_ok_iff] at hfold
    obtain ⟨d₁, hrow, hfold⟩ := hfold
    obtain ⟨lsn, xid, message, decoder, hdecode, htake⟩ := decodeRow_eq_ok hrow
    rw [hdecoder, decoded] at hdecode
    cases hdecode
    rw [takeMessage, declared] at htake
    dsimp only at htake
    split_ifs at htake with hname
    · rw [List.filter_cons, if_pos (decide_eq_true hname), ← List.singleton_append, ← List.append_assoc]
      exact ih ((h.setDecoder _).takeChange htake) (decoder_takeChange htake) hfold
    · rw [List.filter_cons, if_neg (mt of_decide_eq_true hname)]
      cases htake
      exact ih (h.setDecoder _) rfl hfold

/-- The rows of whole transactions. -/
theorem Decoded.renders {before : Decoder} {ts : List Transaction} {rows : List SlotRow}
    (hrenders : Renders before ts rows) (h : Decoded values cfg d changes points)
    (hdecoder : d.decoder = before)
    (hfold : rows.foldlM (decodeRow values cfg columns batchRows) d = .ok d') :
    Decoded values cfg d' (changes ++ ts.flatMap (tableChanges cfg))
      (points ++ commitPoints cfg changes.length ts) := by
  induction hrenders generalizing d changes points with
  | done before =>
    cases hfold
    rwa [List.flatMap_nil, List.append_nil, commitPoints, List.append_nil]
  | @transaction _ d₀ _ decoder commitTs endLsn t ts first last body rows begins publishes commits ends
      rest ih =>
    rw [List.foldlM_cons, bind_eq_ok_iff] at hfold
    obtain ⟨d₁, hfirst, hfold⟩ := hfold
    rw [List.foldlM_append, bind_eq_ok_iff] at hfold
    obtain ⟨d₂, hbody, hfold⟩ := hfold
    rw [List.foldlM_cons, bind_eq_ok_iff] at hfold
    obtain ⟨d₃, hlast, hfold⟩ := hfold
    obtain ⟨lsn, xid, message, _, hdecode, htake⟩ := decodeRow_eq_ok hfirst
    rw [hdecoder, begins] at hdecode
    cases hdecode
    cases htake
    have h₁ : Decoded values cfg { d with decoder := d₀, commitTs := some commitTs } changes points :=
      ⟨h.reads, h.count, h.inChunk, h.planned, h.ends, h.points⟩
    obtain ⟨h₂, hdecoder₂⟩ := h₁.publishes publishes rfl hbody
    obtain ⟨lsn, xid, message, _, hdecode, htake⟩ := decodeRow_eq_ok hlast
    rw [hdecoder₂, commits] at hdecode
    cases hdecode
    cases htake
    have hcount : d₂.rowsDecoded = changes.length + (tableChanges cfg t).length := by
      rw [h₂.count, List.length_append]
      rfl
    have h₃ : Decoded values cfg
        { d₂ with
          decoder
          commitPoints := d₂.commitPoints ++ [(d₂.rowsDecoded, lsnOfCommit endLsn)] }
        (changes ++ tableChanges cfg t)
        (points ++ [(changes.length + (tableChanges cfg t).length, t.endLsn)]) :=
      ⟨h₂.reads, h₂.count, h₂.inChunk, h₂.planned, h₂.ends, by
        show d₂.commitPoints ++ _ = _
        rw [h₂.points, hcount, ends]⟩
    have hrest := ih h₃ rfl hfold
    rw [List.length_append, List.append_assoc, List.append_assoc] at hrest
    exact hrest

/-! ## The queue -/

/-- The longest run of transactions from the first on whose table changes are at most so many. -/
def wholeWithin (cfg : Config) (read : Nat) : List Transaction → List Transaction
  | [] => []
  | t :: ts =>
    if (tableChanges cfg t).length ≤ read then
      t :: wholeWithin cfg (read - (tableChanges cfg t).length) ts
    else []

theorem le_of_mem_commitPoints {ts : List Transaction} {read : Nat} {point : Nat × Nat}
    (h : point ∈ commitPoints cfg read ts) : read ≤ point.1 := by
  induction ts generalizing read with
  | nil => cases h
  | cons t ts ih =>
    rw [commitPoints] at h
    rcases List.mem_cons.mp h with rfl | h
    · exact Nat.le_add_right _ _
    · exact (Nat.le_add_right _ _).trans (ih h)

/-- A batch is tied to the newest transaction whose rows are all in it or before it. -/
theorem ackLsn_commitPoints (ts : List Transaction) (read n : Nat) :
    ackLsn (commitPoints cfg read ts) (read + n) =
      (wholeWithin cfg n ts).getLast?.map Transaction.endLsn := by
  induction ts generalizing read n with
  | nil => rfl
  | cons t ts ih =>
    rw [commitPoints, wholeWithin, ackLsn, List.reverse_cons, List.find?_append]
    split_ifs with hle
    · have hrest := ih (read + (tableChanges cfg t).length) (n - (tableChanges cfg t).length)
      rw [Nat.add_assoc, Nat.add_sub_cancel' hle, ackLsn] at hrest
      rw [List.getLast?_cons, List.find?_singleton, if_pos (decide_eq_true (by omega))]
      rw [Option.map_some, Option.map_or, hrest]
      cases (wholeWithin cfg (n - (tableChanges cfg t).length) ts).getLast? <;> rfl
    · rw [List.find?_singleton, if_neg (mt of_decide_eq_true (by omega)), Option.or_none]
      have hnone : (commitPoints cfg (read + (tableChanges cfg t).length) ts).reverse.find?
          (fun point => point.1 ≤ read + n) = none := by
        rw [List.find?_eq_none]
        intro point hpoint
        have hread := le_of_mem_commitPoints (List.mem_reverse.mp hpoint)
        exact mt of_decide_eq_true (by omega)
      rw [hnone]
      rfl

theorem allProduced_eq_ok (h : Decoded values cfg d changes points) {produced : List (RecordBatch × Nat)}
    (hproduced : allProduced cfg d = .ok produced) : rowsOf produced = d.emitted ∧ EndsAt 0 produced := by
  have hemitted := h.length_emitted
  have hinChunk := h.inChunk
  rw [allProduced] at hproduced
  rw [Decoding.emitted] at hemitted ⊢
  split at hproduced
  next rows hbuilders =>
    rw [hbuilders, Option.getD_some] at hemitted hinChunk ⊢
    split_ifs at hproduced with hpos
    · rw [bind_eq_ok_iff] at hproduced
      obtain ⟨batch, hbatch, hproduced⟩ := hproduced
      cases hproduced
      have hrows := finishChunk_eq_ok hbatch
      refine ⟨by rw [rowsOf_append, rowsOf_singleton, hrows], endsAt_append.mpr ⟨h.ends, ?_, ?_, trivial⟩⟩
      · rw [hrows]
        exact List.ne_nil_of_length_pos (hinChunk ▸ hpos)
      · rw [List.length_append] at hemitted
        rw [hrows, Nat.zero_add, hemitted]
    · cases hproduced
      have hnil : rows = [] := List.eq_nil_of_length_eq_zero (by omega)
      rw [hnil, List.append_nil]
      exact ⟨rfl, h.ends⟩
  next hbuilders =>
    cases hproduced
    rw [hbuilders, Option.getD_none, List.append_nil]
    exact ⟨rfl, h.ends⟩

/-- The queue after rows that were handed out: each batch has rows, and is tied to the newest
transaction of the peek that it completes. -/
def Acks (cfg : Config) (ts : List Transaction) : Nat → List (RecordBatch × Option Nat) → Prop
  | _, [] => True
  | read, (batch, ack) :: queue =>
    batch.rows ≠ [] ∧
      ack = (wholeWithin cfg (read + batch.rows.length) ts).getLast?.map Transaction.endLsn ∧
      Acks cfg ts (read + batch.rows.length) queue

theorem acks_of_endsAt {ts : List Transaction} {read : Nat} {produced : List (RecordBatch × Nat)}
    (h : EndsAt read produced) :
    Acks cfg ts read
      (produced.map fun (batch, endRow) => (batch, ackLsn (commitPoints cfg 0 ts) endRow)) := by
  induction produced generalizing read with
  | nil => trivial
  | cons batch produced ih =>
    obtain ⟨batch, endRow⟩ := batch
    obtain ⟨hne, rfl, hrest⟩ := h
    refine ⟨hne, ?_, ih hrest⟩
    rw [← ackLsn_commitPoints, Nat.zero_add]

/-- **What one peek decodes to**: the table's changes in commit order, each batch tied to the newest
transaction it completes. -/
theorem decodeRows_eq_ok {ts : List Transaction} {rows : List SlotRow} (hrenders : Renders .empty ts rows)
    {queue : List (RecordBatch × Option Nat)}
    (h : decodeRows values cfg columns batchRows rows = .ok queue) :
    List.Forall₂ (Reads values cfg) (ts.flatMap (tableChanges cfg)) (rowsOf queue) ∧
      Acks cfg ts 0 queue := by
  rw [decodeRows, bind_eq_ok_iff] at h
  obtain ⟨d, hfold, h⟩ := h
  rw [bind_eq_ok_iff] at h
  obtain ⟨produced, hproduced, h⟩ := h
  cases h
  have hdecoded := Decoded.renders hrenders decoded_start rfl hfold
  obtain ⟨hrows, hends⟩ := allProduced_eq_ok hdecoded hproduced
  refine ⟨?_, ?_⟩
  · rw [rowsOf_map (ackLsn d.commitPoints), hrows]
    exact hdecoded.reads
  · rw [hdecoded.points]
    exact acks_of_endsAt hends

end
end Saci.Postgres.Logical
