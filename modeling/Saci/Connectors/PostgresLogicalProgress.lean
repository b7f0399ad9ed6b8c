import Saci.Connectors.PostgresLogicalSlot

/-!
# When the slot moves on

A cycle that peeked whole transactions leaves an acknowledgement past the slot's position exactly when
the table has a row in the peek and the batches the cap lets through reach the end of the first
transaction. Otherwise the next cycle peeks the same again.
-/

namespace Saci.Postgres.Logical

open Pgoutput

/-! ## How a peek is cut -/

section
variable (cfg : Config)

/-- What cuts a peek into batches: the changes of the table (`true`), and its `Relation` messages. -/
def marks (decoder : Decoder) : List SlotRow → List Bool
  | [] => []
  | row :: rows =>
    match decoder.decode row.data with
    | .error _ => []
    | .ok (.relation relId, decoder) =>
      if (decoder.relation relId).any fun relation => relation.qualified = cfg.table then
        false :: marks decoder rows
      else marks decoder rows
    | .ok (.change relId _ _, decoder) =>
      if (decoder.relation relId).any fun relation => relation.qualified = cfg.table then
        true :: marks decoder rows
      else marks decoder rows
    | .ok (_, decoder) => marks decoder rows

/-- The sizes of the batches, where so many rows are open. -/
def chunkSizes (batchRows : Nat) : Nat → List Bool → List Nat
  | inChunk, [] => if 0 < inChunk then [inChunk] else []
  | inChunk, true :: marks =>
    if batchRows ≤ inChunk + 1 then (inChunk + 1) :: chunkSizes batchRows 0 marks
    else chunkSizes batchRows (inChunk + 1) marks
  | inChunk, false :: marks =>
    if 0 < inChunk then inChunk :: chunkSizes batchRows 0 marks else chunkSizes batchRows 0 marks

/-- The batches that `max_batches_per_cycle` lets through. -/
def letThrough {α : Type} (batches : List α) : List α :=
  if cfg.maxBatchesPerCycle = 0 then batches else batches.take cfg.maxBatchesPerCycle

/-- The rows of the table that a peek gives before the cap ends the cycle. -/
def rowsLetThrough (batchRows : Nat) (rows : List SlotRow) : Nat :=
  (letThrough cfg (chunkSizes batchRows 0 (marks cfg .empty rows))).sum

/-- The peek has a row of the table, and the cap lets the first transaction through. -/
def ReachesCommit (batchRows : Nat) (rows : List SlotRow) (ts : List Transaction) : Prop :=
  0 < rowsLetThrough cfg batchRows rows ∧
    ∀ t, ts.head? = some t → (tableChanges cfg t).length ≤ rowsLetThrough cfg batchRows rows

end

section
variable {values : Values} {cfg : Config} {columns : List ColumnType} {batchRows : Nat}

/-- The sizes of batches. -/
def sizes {α : Type} (batches : List (RecordBatch × α)) : List Nat :=
  batches.map fun batch => batch.1.rows.length

theorem sizes_append {α : Type} {batches more : List (RecordBatch × α)} :
    sizes (batches ++ more) = sizes batches ++ sizes more := List.map_append

variable {d d' : Decoding}

theorem sizes_takeRelation {relation : Relation}
    (h : takeRelation values cfg columns d relation = .ok d')
    (hopen : d.rowsInChunk = (d.builders.getD []).length) :
    d'.rowsInChunk = 0 ∧ d'.builders.getD [] = [] ∧
      sizes d'.produced = sizes d.produced ++ if 0 < d.rowsInChunk then [d.rowsInChunk] else [] := by
  rw [takeRelation, bind_eq_ok_iff] at h
  obtain ⟨plan, -, h⟩ := h
  cases hbuilders : d.builders with
  | none =>
    rw [hbuilders] at h hopen
    cases h
    have hzero : d.rowsInChunk = 0 := hopen
    rw [if_neg (by omega), List.append_nil]
    exact ⟨hzero, rfl, rfl⟩
  | some rows =>
    rw [hbuilders] at h hopen
    dsimp only at h
    split_ifs at h with hpos
    · rw [bind_eq_ok_iff] at h
      obtain ⟨batch, hbatch, h⟩ := h
      cases h
      rw [if_pos hpos, sizes_append, hopen, ← finishChunk_eq_ok hbatch]
      exact ⟨rfl, rfl, rfl⟩
    · cases h
      rw [if_neg hpos, List.append_nil]
      exact ⟨Nat.eq_zero_of_not_pos hpos, rfl, rfl⟩

theorem sizes_takeChange {lsn : Nat} {xid : Option Int} {operation : Operation}
    {tuple : List TupleValue} (h : takeChange values cfg batchRows d lsn xid operation tuple = .ok d')
    (hopen : d.rowsInChunk = (d.builders.getD []).length) :
    d'.rowsInChunk = (d'.builders.getD []).length ∧
      (batchRows ≤ d.rowsInChunk + 1 ∧ d'.rowsInChunk = 0 ∧
          sizes d'.produced = sizes d.produced ++ [d.rowsInChunk + 1] ∨
        ¬batchRows ≤ d.rowsInChunk + 1 ∧ d'.rowsInChunk = d.rowsInChunk + 1 ∧
          sizes d'.produced = sizes d.produced) := by
  rw [takeChange, bind_eq_ok_iff] at h
  obtain ⟨plan, -, h⟩ := h
  rw [bind_eq_ok_iff] at h
  obtain ⟨rows, hrows, h⟩ := h
  rw [bind_eq_ok_iff] at h
  obtain ⟨row, -, h⟩ := h
  rw [getD_openBuilders hrows] at hopen
  split_ifs at h with hfull
  · rw [bind_eq_ok_iff] at h
    obtain ⟨batch, hbatch, h⟩ := h
    cases h
    refine ⟨rfl, .inl ⟨hfull, rfl, ?_⟩⟩
    have hsize : batch.rows.length = d.rowsInChunk + 1 := by
      rw [finishChunk_eq_ok hbatch, List.length_append, hopen]
      rfl
    rw [sizes_append, ← hsize]
    rfl
  · cases h
    refine ⟨?_, .inr ⟨hfull, rfl, rfl⟩⟩
    rw [Option.getD_some, List.length_append, hopen]
    rfl

/-- The batches a peek is cut into. -/
theorem sizes_foldlM {rows : List SlotRow} {produced : List (RecordBatch × Nat)}
    (hopen : d.rowsInChunk = (d.builders.getD []).length)
    (hfold : rows.foldlM (decodeRow values cfg columns batchRows) d = .ok d')
    (hproduced : allProduced cfg d' = .ok produced) :
    sizes produced =
      sizes d.produced ++ chunkSizes batchRows d.rowsInChunk (marks cfg d.decoder rows) := by
  induction rows generalizing d with
  | nil =>
    cases hfold
    rw [allProduced] at hproduced
    rw [marks, chunkSizes]
    split at hproduced
    next open' hbuilders =>
      rw [hbuilders, Option.getD_some] at hopen
      split_ifs at hproduced with hpos
      · rw [bind_eq_ok_iff] at hproduced
        obtain ⟨batch, hbatch, hproduced⟩ := hproduced
        cases hproduced
        rw [if_pos hpos, sizes_append, hopen, ← finishChunk_eq_ok hbatch]
        rfl
      · cases hproduced
        rw [if_neg hpos, List.append_nil]
    next hbuilders =>
      cases hproduced
      rw [hbuilders, Option.getD_none, List.length_nil] at hopen
      rw [if_neg (by omega), List.append_nil]
  | cons row rows ih =>
    rw [List.foldlM_cons, bind_eq_ok_iff] at hfold
    obtain ⟨d₁, hrow, hfold⟩ := hfold
    obtain ⟨lsn, xid, message, decoder, hdecode, htake⟩ := decodeRow_eq_ok hrow
    rw [marks, hdecode]
    cases message with
    | begin ts =>
      cases htake
      refine ih ?_ hfold
      exact hopen
    | commit endLsn =>
      cases htake
      refine ih ?_ hfold
      exact hopen
    | truncate relations =>
      cases htake
      refine ih ?_ hfold
      exact hopen
    | metadata =>
      cases htake
      refine ih ?_ hfold
      exact hopen
    | relation relId =>
      rw [takeMessage] at htake
      split at htake
      next => cases htake
      next relation hdeclared =>
        dsimp only at hdeclared ⊢
        rw [hdeclared, Option.any_some]
        split_ifs at htake with hname
        · obtain ⟨hclosed, hnone, hsizes⟩ := sizes_takeRelation htake hopen
          have hrest := ih (hclosed.trans (by rw [hnone]; rfl)) hfold
          rw [decoder_takeRelation htake, hclosed, hsizes, List.append_assoc] at hrest
          rw [if_pos (decide_eq_true hname), chunkSizes, hrest]
          dsimp only
          split_ifs <;> rfl
        · cases htake
          rw [if_neg (mt of_decide_eq_true hname)]
          refine ih ?_ hfold
          exact hopen
    | change relId operation tuple =>
      rw [takeMessage] at htake
      split at htake
      next => cases htake
      next relation hdeclared =>
        dsimp only at hdeclared ⊢
        rw [hdeclared, Option.any_some]
        split_ifs at htake with hname
        · obtain ⟨hopen', hcut⟩ := sizes_takeChange htake hopen
          have hrest := ih hopen' hfold
          rw [decoder_takeChange htake] at hrest
          rw [if_pos (decide_eq_true hname), chunkSizes, hrest]
          rcases hcut with ⟨hfull, hclosed, hsizes⟩ | ⟨hroom, hmore, hsizes⟩
          · rw [if_pos hfull, hclosed, hsizes, List.append_assoc]
            rfl
          · rw [if_neg hroom, hmore, hsizes]
        · cases htake
          rw [if_neg (mt of_decide_eq_true hname)]
          refine ih ?_ hfold
          exact hopen

/-- What `decode_rows` puts on the queue is cut as its messages say. -/
theorem sizes_decodeRows {rows : List SlotRow} {queue : List (RecordBatch × Option Nat)}
    (h : decodeRows values cfg columns batchRows rows = .ok queue) :
    sizes queue = chunkSizes batchRows 0 (marks cfg .empty rows) := by
  rw [decodeRows, bind_eq_ok_iff] at h
  obtain ⟨d, hfold, h⟩ := h
  rw [bind_eq_ok_iff] at h
  obtain ⟨produced, hproduced, h⟩ := h
  cases h
  have hsizes := sizes_foldlM rfl hfold hproduced
  rw [sizes, List.map_map]
  exact hsizes

theorem chunkSizes_pos {inChunk : Nat} {cuts : List Bool} {size : Nat}
    (h : size ∈ chunkSizes batchRows inChunk cuts) : 0 < size := by
  induction cuts generalizing inChunk with
  | nil =>
    rw [chunkSizes] at h
    split_ifs at h with hpos
    · exact List.mem_singleton.mp h ▸ hpos
    · cases h
  | cons cut cuts ih =>
    cases cut with
    | true =>
      rw [chunkSizes] at h
      split_ifs at h
      · rcases List.mem_cons.mp h with rfl | h
        · exact Nat.succ_pos _
        · exact ih h
      · exact ih h
    | false =>
      rw [chunkSizes] at h
      split_ifs at h with hpos
      · rcases List.mem_cons.mp h with rfl | h
        · exact hpos
        · exact ih h
      · exact ih h

end

/-! ## What a cycle leaves -/

section
variable (cfg : Config)

/-- The end of the newest transaction whose rows were all returned, once a batch was. -/
def ackOf (cycle : List Event) (ts : List Transaction) : Option Nat :=
  if batchesIn cycle = 0 then none
  else (wholeWithin cfg (returnedRows cycle).length ts).getLast?.map Transaction.endLsn

/-- The cycle leaves an acknowledgement past the slot's position: the end of the newest transaction
whose rows were all returned. -/
def LeavesAck (s : System) (cycle : List Event) (ts : List Transaction) : Prop :=
  ∃ t, (wholeWithin cfg (returnedRows cycle).length ts).getLast? = some t ∧
    s.reader.pendingLsn = some t.endLsn ∧ s.confirmed < t.endLsn

/-- A cycle that peeked whole transactions leaves an acknowledgement exactly when its peek reaches a
commit. -/
def Settles (s : System) (cycle : List Event) : Prop :=
  ∀ rows batchRows, .peeked rows batchRows ∈ cycle →
    ∃ ts, Renders .empty ts rows ∧
      (ts ≠ [] → (LeavesAck cfg s cycle ts ↔ ReachesCommit cfg batchRows rows ts))

/-- No call failed, and no connection was lost. -/
def Errorless (events : List Event) : Prop :=
  ∀ event ∈ events, event ≠ .reconnected ∧ ∀ e, event ≠ .failed e

/-- The cycle under way has peeked these transactions. -/
structure Moving (s : System) (current : List Event) (ts : List Transaction) : Prop where
  peeked : s.reader.peekedThisCycle = true
  rendered : ∀ rows batchRows, .peeked rows batchRows ∈ current → Renders .empty ts rows
  sorted : ts.Pairwise fun t u => t.endLsn < u.endLsn
  ahead : ∀ t ∈ ts, s.confirmed < t.endLsn
  acks : Acks cfg ts (returnedRows current).length s.reader.queue
  pending : s.reader.pendingLsn = ackOf cfg current ts
  sizes : ∀ rows batchRows, .peeked rows batchRows ∈ current →
    ∃ handed, chunkSizes batchRows 0 (marks cfg .empty rows) = handed ++ sizes s.reader.queue ∧
      handed.length = batchesIn current ∧ handed.sum = (returnedRows current).length
  within : 0 < cfg.maxBatchesPerCycle → batchesIn current ≤ cfg.maxBatchesPerCycle

/-- What the cycle under way has come to. -/
def Running (s : System) (current : List Event) : Prop :=
  s.reader.pendingLsn = none ∧ Quiet s current ∨ ∃ ts, Moving cfg s current ts

/-- What the cycle under way has come to, and what the last one left. -/
structure Progress (s : System) (events : List Event) : Prop where
  running : s.reader.cycleStart = false → Running cfg s (cycles events).2
  ended : s.reader.cycleStart = true → ∀ cycle, (cycles events).1.getLast? = some cycle →
    Settles cfg s cycle

end

section
variable {values : Values} {cfg : Config} {s : System} {events current : List Event}
  {ts : List Transaction}

theorem wholeWithin_mono {read read' : Nat} (h : read ≤ read') (ts : List Transaction) :
    wholeWithin cfg read ts <+: wholeWithin cfg read' ts := by
  induction ts generalizing read read' with
  | nil => exact List.prefix_rfl
  | cons t ts ih =>
    rw [wholeWithin, wholeWithin]
    split_ifs
    · exact (List.prefix_cons_inj t).mpr (ih (Nat.sub_le_sub_right h _))
    · omega
    · exact List.nil_prefix
    · exact List.prefix_rfl

/-- The last of more transactions ends no earlier. -/
theorem endLsn_getLast_le {few many : List Transaction} (hfew : few <+: many)
    (hsorted : many.Pairwise fun t u => t.endLsn < u.endLsn) {t u : Transaction}
    (ht : few.getLast? = some t) (hu : many.getLast? = some u) : t.endLsn ≤ u.endLsn := by
  obtain ⟨more, rfl⟩ := hfew
  rcases List.eq_nil_or_concat more with rfl | ⟨front, last, rfl⟩
  · rw [List.append_nil] at hu
    cases ht.symm.trans hu
    exact Nat.le_refl _
  · rw [List.concat_eq_append, ← List.append_assoc, List.getLast?_concat] at hu
    cases hu
    rw [List.concat_eq_append] at hsorted
    exact ((List.pairwise_append.mp hsorted).2.2 t (List.mem_of_getLast? ht) u
      (List.mem_append_right _ (List.mem_singleton_self _))).le

/-- What a cycle leaves when it ends. -/
theorem Moving.settles (h : Moving cfg s current ts)
    (hend : s.reader.queue = [] ∨
      0 < cfg.maxBatchesPerCycle ∧ cfg.maxBatchesPerCycle ≤ batchesIn current)
    {s' : System} (hpending : s'.reader.pendingLsn = s.reader.pendingLsn)
    (hconfirmed : s'.confirmed = s.confirmed) : Settles cfg s' current := by
  intro rows batchRows hmem
  refine ⟨ts, h.rendered rows batchRows hmem, fun hne => ?_⟩
  obtain ⟨handed, hsizes, hlength, hsum⟩ := h.sizes rows batchRows hmem
  have hthrough : rowsLetThrough cfg batchRows rows = (returnedRows current).length := by
    have hwithin := h.within
    rw [rowsLetThrough, letThrough, hsizes, ← hsum]
    rcases hend with hempty | ⟨hpos, hcap⟩
    · rw [hempty, Logical.sizes, List.map_nil, List.append_nil]
      split_ifs
      · rfl
      · rw [List.take_of_length_le (by omega)]
    · rw [if_neg (by omega), List.take_append_of_le_length (by omega), List.take_of_length_le (by omega)]
  rw [ReachesCommit, hthrough]
  obtain ⟨first, rest, rfl⟩ := List.exists_cons_of_ne_nil hne
  have hwhole : wholeWithin cfg (returnedRows current).length (first :: rest) ≠ [] ↔
      ∀ t, (first :: rest).head? = some t →
        (tableChanges cfg t).length ≤ (returnedRows current).length := by
    rw [wholeWithin, List.head?_cons]
    split_ifs with hle
    · exact iff_of_true (List.cons_ne_nil _ _) fun t ht => Option.some.inj ht ▸ hle
    · exact iff_of_false (fun hnil => hnil rfl) fun hall => hle (hall first rfl)
  have hsome : batchesIn current ≠ 0 ↔ 0 < (returnedRows current).length := by
    rw [← hlength, ← hsum]
    constructor
    · intro hlong
      obtain ⟨size, more, rfl⟩ := List.exists_cons_of_length_pos (Nat.pos_of_ne_zero hlong)
      have hpos := chunkSizes_pos (hsizes ▸ List.mem_append_left _ List.mem_cons_self)
      rw [List.sum_cons]
      omega
    · rintro hpos hzero
      rw [List.eq_nil_of_length_eq_zero hzero] at hpos
      cases hpos
  constructor
  · rintro ⟨t, ht, hleft, -⟩
    rw [hpending, h.pending, ackOf] at hleft
    split_ifs at hleft with hzero
    refine ⟨hsome.mp hzero, hwhole.mp fun hnil => ?_⟩
    rw [hnil] at ht
    cases ht
  · rintro ⟨hpos, hall⟩
    obtain ⟨t, ht⟩ := Option.isSome_iff_exists.mp (List.getLast?_isSome.mpr (hwhole.mpr hall))
    refine ⟨t, ht, ?_, ?_⟩
    · rw [hpending, h.pending, ackOf, if_neg (hsome.mpr hpos), ht]
      rfl
    · rw [hconfirmed]
      exact h.ahead t ((wholeWithin_initial _ _).subset (List.mem_of_getLast? ht))

/-- A batch is handed out. -/
theorem Moving.take (h : Moving cfg s current ts)
    (hcap : ¬(0 < cfg.maxBatchesPerCycle ∧ cfg.maxBatchesPerCycle ≤ batchesIn current))
    {reader : State} {batch : RecordBatch} (htake : takeQueued s.reader = some (reader, batch)) :
    Moving cfg { s with reader } (current ++ [.returned batch]) ts := by
  rw [takeQueued] at htake
  cases hqueue : s.reader.queue with
  | nil =>
    rw [hqueue] at htake
    cases htake
  | cons entry queue =>
    obtain ⟨batch', ack⟩ := entry
    rw [hqueue] at htake
    cases htake
    have hacks := h.acks
    rw [hqueue] at hacks
    obtain ⟨-, hack, hrest⟩ := hacks
    have hnow : (returnedRows (current ++ [.returned batch])).length =
        (returnedRows current).length + batch.rows.length := by
      rw [returnedRows_append, List.length_append]
      exact congrArg (fun rows : List Row => _ + rows.length) (List.append_nil _)
    have hcount : batchesIn (current ++ [.returned batch]) = batchesIn current + 1 := batchesIn_append
    have hold : ∀ rows batchRows, .peeked rows batchRows ∈ current ++ [.returned batch] →
        .peeked rows batchRows ∈ current := by
      intro rows batchRows hmem
      refine (List.mem_append.mp hmem).resolve_right fun hmem => ?_
      cases List.mem_singleton.mp hmem
    have hmono : wholeWithin cfg (returnedRows current).length ts <+:
        wholeWithin cfg ((returnedRows current).length + batch.rows.length) ts :=
      wholeWithin_mono (Nat.le_add_right _ _) ts
    refine ⟨h.peeked, fun rows batchRows hmem => h.rendered rows batchRows (hold _ _ hmem), h.sorted,
      h.ahead, hnow ▸ hrest, ?_, fun rows batchRows hmem => ?_, fun hpos => ?_⟩
    · rw [ackOf, if_neg (by omega), hnow, ← hack]
      dsimp only
      cases ack with
      | none =>
        have hnil := List.getLast?_eq_none_iff.mp (Option.map_eq_none_iff.mp hack.symm)
        rw [hnil] at hmono
        rw [h.pending, ackOf, List.prefix_nil.mp hmono]
        split_ifs <;> rfl
      | some lsn =>
        obtain ⟨last, hlast, rfl⟩ := Option.map_eq_some_iff.mp hack.symm
        refine congrArg some ?_
        cases hpending : s.reader.pendingLsn with
        | none => rfl
        | some earlier =>
          rw [h.pending, ackOf] at hpending
          split_ifs at hpending
          obtain ⟨t, ht, rfl⟩ := Option.map_eq_some_iff.mp hpending
          exact max_eq_left (endLsn_getLast_le hmono
            (h.sorted.sublist (wholeWithin_initial _ ts).sublist) ht hlast)
    · obtain ⟨handed, hsizes, hlength, hsum⟩ := h.sizes rows batchRows (hold _ _ hmem)
      refine ⟨handed ++ [batch.rows.length], ?_, ?_, ?_⟩
      · rw [hsizes, hqueue, List.append_assoc]
        rfl
      · rw [List.length_append, hlength, hcount]
        rfl
      · rw [List.sum_append, hsum, hnow]
        rfl
    · rw [hcount]
      omega

/-- A peek that decoded. -/
theorem Moving.peek {reader : State} (hquiet : Quiet s current)
    (hpending : s.reader.pendingLsn = none) {rows : List SlotRow} {columns : List ColumnType}
    {batchRows : Nat} {produced : List (RecordBatch × Option Nat)}
    (hdecode : decodeRows values cfg columns batchRows rows = .ok produced)
    (hsorted : s.log.Pairwise fun t u => t.endLsn < u.endLsn)
    (hnext : ts <+: s.log.filter fun t => s.confirmed < t.endLsn) (hrenders : Renders .empty ts rows)
    (hqueue : reader.queue = s.reader.queue ++ produced)
    (hsame : reader.pendingLsn = s.reader.pendingLsn) (hpeeked : reader.peekedThisCycle = true) :
    Moving cfg { s with reader } (current ++ [.peeked rows batchRows]) ts := by
  have hnow : returnedRows (current ++ [.peeked rows batchRows]) = [] := by
    rw [returnedRows_append, hquiet.rows]
    rfl
  have hcount : batchesIn (current ++ [.peeked rows batchRows]) = 0 := by
    rw [batchesIn_append, hquiet.batches]
    rfl
  have hproduced : reader.queue = produced := by rw [hqueue, hquiet.queue, List.nil_append]
  have honly : ∀ rows' batchRows', .peeked rows' batchRows' ∈ current ++ [.peeked rows batchRows] →
      rows' = rows ∧ batchRows' = batchRows := by
    intro rows' batchRows' hmem
    rcases List.mem_append.mp hmem with hmem | hmem
    · exact absurd hmem (hquiet.peeked rows' batchRows')
    · cases List.mem_singleton.mp hmem
      exact ⟨rfl, rfl⟩
  refine ⟨hpeeked, fun rows' batchRows' hmem => (honly _ _ hmem).1 ▸ hrenders,
    (hsorted.filter _).sublist hnext.sublist, fun t ht => ?_, ?_, ?_, fun rows' batchRows' hmem => ?_,
    fun _ => ?_⟩
  · exact of_decide_eq_true (List.mem_filter.mp (hnext.subset ht)).2
  · rw [hnow, hproduced]
    exact (decodeRows_eq_ok hrenders hdecode).2
  · rw [ackOf, if_pos hcount]
    exact hsame.trans hpending
  · obtain ⟨rfl, rfl⟩ := honly _ _ hmem
    refine ⟨[], ?_, hcount.symm, by rw [hnow]; rfl⟩
    rw [hproduced, sizes_decodeRows hdecode, List.nil_append]
  · rw [hcount]
    exact Nat.zero_le _

/-- The cycle ends. -/
theorem Running.finish (reader : State) (h : Running cfg s (cycles events).2)
    (hend : s.reader.queue = [] ∨
      0 < cfg.maxBatchesPerCycle ∧ cfg.maxBatchesPerCycle ≤ batchesIn (cycles events).2)
    (hpending : reader.pendingLsn = s.reader.pendingLsn) (hnext : reader.cycleStart = true) :
    Progress cfg { s with reader } (events ++ [.ended]) := by
  refine ⟨fun hstart => (nomatch hnext.symm.trans hstart), fun _ cycle hcycle => ?_⟩
  rw [cycles_concat] at hcycle
  have hlast : (cycles events).2 = cycle :=
    Option.some.inj (List.getLast?_concat.symm.trans hcycle)
  subst hlast
  obtain ⟨-, hquiet⟩ | ⟨ts, hmoving⟩ := h
  · exact fun rows batchRows hmem => absurd hmem (hquiet.peeked rows batchRows)
  · exact hmoving.settles hend hpending rfl

/-- A batch is handed out. -/
theorem Running.take (h : Running cfg s (cycles events).2) (hstart : s.reader.cycleStart = false)
    (hcap : ¬(0 < cfg.maxBatchesPerCycle ∧ cfg.maxBatchesPerCycle ≤ batchesIn (cycles events).2))
    {reader : State} {batch : RecordBatch} (htake : takeQueued s.reader = some (reader, batch)) :
    Progress cfg { s with reader } (events ++ [.returned batch]) := by
  have hstill : reader.cycleStart = false := by
    rw [takeQueued] at htake
    split at htake
    · cases htake
    · cases htake
      exact hstart
  refine ⟨fun _ => ?_, fun hended => by cases hstill.symm.trans hended⟩
  rw [cycles_concat]
  obtain ⟨-, hquiet⟩ | ⟨ts, hmoving⟩ := h
  · rw [takeQueued, hquiet.queue] at htake
    cases htake
  · exact .inr ⟨ts, hmoving.take hcap htake⟩

/-- A call from the start of its cycle to what it returns. -/
theorem Running.drain {a : Answers} {reader : State} {told : List Event}
    (htracks : Tracks values cfg s events) (hstart : s.reader.cycleStart = false)
    (h : Running cfg s (cycles events).2) (hdrain : drain values cfg s.reader a = (reader, told))
    (hdocumented : ∀ rows batchRows, .peeked rows batchRows ∈ told →
      ∃ ts, ts <+: s.log.filter (fun t => s.confirmed < t.endLsn) ∧ Renders .empty ts rows)
    (herrorless : Errorless told) : Progress cfg { s with reader } (events ++ told) := by
  have hcounted := htracks.counted hstart
  rw [Logical.drain] at hdrain
  split_ifs at hdrain with hcap hpeeked
  all_goals rw [hcounted] at hcap
  · cases hdrain
    exact h.finish _ (.inr hcap) rfl rfl
  · split at hdrain
    next reader' batch htake =>
      cases hdrain
      exact h.take hstart hcap htake
    next htake =>
      have hempty := takeQueued_eq_none htake
      cases hdrain
      exact h.finish _ (.inl hempty) rfl rfl
  · split at hdrain
    next reader' batch htake =>
      cases hdrain
      exact h.take hstart hcap htake
    next =>
      split at hdrain
      · cases hdrain
        exact absurd rfl ((herrorless _ List.mem_cons_self).2 _)
      next rows _ =>
        dsimp only at hdrain
        split at hdrain
        · cases hdrain
          exact absurd rfl ((herrorless _ List.mem_cons_self).2 _)
        next produced hdecode =>
          obtain ⟨hnone, hquiet⟩ : s.reader.pendingLsn = none ∧ Quiet s (cycles events).2 := by
            refine h.resolve_right ?_
            rintro ⟨ts, hmoving⟩
            exact hpeeked hmoving.peeked
          obtain ⟨ts, hnext, hrenders⟩ := hdocumented rows s.reader.batchRows (by
            split at hdrain <;> cases hdrain <;> exact List.mem_cons_self)
          have hpeek : Running cfg
              { s with
                reader := { s.reader with
                  peekedThisCycle := true
                  queue := s.reader.queue ++ produced } }
              (cycles (events ++ [.peeked rows s.reader.batchRows])).2 := by
            rw [cycles_concat]
            exact .inr ⟨ts, Moving.peek hquiet hnone hdecode htracks.sorted hnext hrenders rfl rfl rfl⟩
          have hcount : batchesIn (cycles (events ++ [.peeked rows s.reader.batchRows])).2 =
              batchesIn (cycles events).2 := by
            rw [cycles_concat]
            exact batchesIn_append
          split at hdrain
          next reader' batch htake =>
            cases hdrain
            have htaken := hpeek.take hstart (hcount.symm ▸ hcap) htake
            rwa [List.append_assoc] at htaken
          next htake =>
            cases hdrain
            have hempty := takeQueued_eq_none htake
            have hended := hpeek.finish
              { s.reader with
                peekedThisCycle := true
                queue := s.reader.queue ++ produced
                cycleStart := true }
              (.inl hempty) rfl rfl
            rwa [List.append_assoc] at hended

/-- Fields that do not count. -/
theorem Running.same {s' : System} (h : Running cfg s current)
    (hqueue : s'.reader.queue = s.reader.queue)
    (hpending : s'.reader.pendingLsn = s.reader.pendingLsn)
    (hpeeked : s'.reader.peekedThisCycle = s.reader.peekedThisCycle)
    (hconfirmed : s'.confirmed = s.confirmed) : Running cfg s' current := by
  refine h.imp (fun ⟨hnone, hquiet⟩ => ⟨hpending.trans hnone, hqueue.trans hquiet.queue, hquiet.rows,
    hquiet.batches, hquiet.peeked⟩) fun ⟨ts, h⟩ => ⟨ts, ?_⟩
  exact ⟨hpeeked.trans h.peeked, h.rendered, h.sorted, hconfirmed ▸ h.ahead, hqueue ▸ h.acks,
    hpending.trans h.pending, hqueue ▸ h.sizes, h.within⟩

/-- What a cycle left stays until the next call. -/
theorem Progress.same {s' : System} (h : Progress cfg s events)
    (hqueue : s'.reader.queue = s.reader.queue)
    (hpending : s'.reader.pendingLsn = s.reader.pendingLsn)
    (hpeeked : s'.reader.peekedThisCycle = s.reader.peekedThisCycle)
    (hstart : s'.reader.cycleStart = s.reader.cycleStart)
    (hconfirmed : s'.confirmed = s.confirmed) : Progress cfg s' events := by
  refine ⟨fun hrunning => (h.running (hstart ▸ hrunning)).same hqueue hpending hpeeked hconfirmed,
    fun hended cycle hcycle rows batchRows hmem => ?_⟩
  obtain ⟨ts, hrenders, hiff⟩ := h.ended (hstart ▸ hended) cycle hcycle rows batchRows hmem
  refine ⟨ts, hrenders, fun hne => ?_⟩
  rw [LeavesAck, hpending, hconfirmed]
  exact hiff hne

theorem Errorless.append {more : List Event} (h : Errorless (events ++ more)) :
    Errorless events ∧ Errorless more :=
  ⟨fun event hmem => h event (List.mem_append_left _ hmem),
    fun event hmem => h event (List.mem_append_right _ hmem)⟩

/-- A session that was not lost. -/
theorem ensureSession_errorless {reader reader' : State} {a : Answers} {told : List Event}
    {result : SaciResult Unit} (h : ensureSession cfg reader a = (reader', told, result))
    (herrorless : Errorless told) :
    told = [] ∧ reader'.queue = reader.queue ∧ reader'.pendingLsn = reader.pendingLsn ∧
      reader'.peekedThisCycle = reader.peekedThisCycle ∧ reader'.cycleStart = reader.cycleStart := by
  rw [ensureSession] at h
  split_ifs at h
  · cases h
    exact ⟨rfl, rfl, rfl, rfl, rfl⟩
  · cases h
    exact absurd rfl (herrorless _ List.mem_cons_self).1
  · obtain ⟨hqueue, hpending, hpeeked, hstart, -⟩ := newSession_frame cfg reader a
    cases h
    exact ⟨rfl, hqueue, hpending, hpeeked, hstart⟩

/-- What `advance` does when it succeeds. -/
theorem advance_eq_ok {reader reader' : State} {a : Answers} {moved : List Event}
    (h : advance cfg reader a = (reader', moved, .ok ())) :
    (reader.pendingLsn = none ∧ moved = [] ∨
        ∃ lsn, reader.pendingLsn = some lsn ∧ moved = [.advanced lsn true]) ∧
      reader' = { reader with pendingLsn := none } := by
  rw [advance] at h
  split at h
  next hnone =>
    cases h
    refine ⟨.inl ⟨hnone, rfl⟩, ?_⟩
    rw [← hnone]
  next lsn hsome =>
    split at h
    · cases h
    · split at h
      · cases h
      · cases h
        exact ⟨.inr ⟨lsn, hsome, rfl⟩, rfl⟩

/-- A call that does not fail. -/
theorem Progress.nextBatch (htracks : Tracks values cfg s events) (h : Progress cfg s events)
    (a : Answers) (hdocumented : Documented values cfg s (.call a))
    (herrorless : Errorless (nextBatch values cfg s.reader a).2) :
    Progress cfg
      { s with
        reader := (nextBatch values cfg s.reader a).1
        confirmed := moveSlot s.confirmed (nextBatch values cfg s.reader a).2 }
      (events ++ (nextBatch values cfg s.reader a).2) := by
  have hpeeks : ∀ rows batchRows,
      .peeked rows batchRows ∈ (Logical.nextBatch values cfg s.reader a).2 →
        ∃ ts, ts <+: s.log.filter (fun t =>
          moveSlot s.confirmed (Logical.nextBatch values cfg s.reader a).2 < t.endLsn) ∧
          Renders .empty ts rows := hdocumented _ _ rfl
  have hsession := htracks.ensureSession a
  obtain ⟨reader, told, result, hensure, ⟨e, hcall⟩ | ⟨hstart, hcall⟩ |
    ⟨hstart, reader', moved, result', hadvance, ⟨e, hcall⟩ | ⟨rfl, hcall⟩⟩⟩ :=
    nextBatch_cases values cfg s.reader a
  all_goals
    rw [hcall] at hpeeks herrorless ⊢
    rw [hensure] at hsession
    dsimp only at hpeeks hsession herrorless ⊢
  · exact absurd rfl ((herrorless.append.2 _ (List.mem_singleton_self _)).2 e)
  · obtain ⟨rfl, hqueue, hpending, hpeeked, hsame⟩ :=
      ensureSession_errorless hensure herrorless.append.1
    rw [List.nil_append] at hpeeks herrorless ⊢
    rw [List.append_nil] at hsession
    rw [moveSlot_drain] at hpeeks ⊢
    have hrunning : Running cfg { s with reader } (cycles events).2 :=
      (h.running (hsame.symm.trans hstart)).same hqueue hpending hpeeked rfl
    have hdrain := hrunning.drain hsession hstart rfl hpeeks herrorless
    exact hdrain
  · exact absurd rfl ((herrorless.append.2 _ (List.mem_singleton_self _)).2 e)
  · obtain ⟨rfl, -, -, -, hsame⟩ := ensureSession_errorless hensure herrorless.append.1.append.1
    rw [List.nil_append] at hpeeks herrorless ⊢
    rw [List.append_nil] at hsession
    obtain ⟨hbegun, hquiet⟩ := hsession.newCycle hstart hadvance
    rw [moveSlot_append, moveSlot_drain] at hpeeks ⊢
    have hnone : reader'.nextCycle.pendingLsn = none := by
      rw [(advance_eq_ok hadvance).2]
      rfl
    have hdrain := Running.drain hbegun rfl (.inl ⟨hnone, hquiet⟩) (a := a) rfl
      (fun rows batchRows hmem => hpeeks rows batchRows (List.mem_append_right _ hmem))
      herrorless.append.2
    rw [List.append_assoc] at hdrain
    exact hdrain

/-- The step lemma. -/
theorem Progress.step {input : Input} {s' : System} {more : List Event}
    (htracks : Tracks values cfg s events) (h : Progress cfg s events)
    (hdocumented : Documented values cfg s input)
    (hstep : step values cfg s input = .ok (s', more)) (herrorless : Errorless more) :
    Progress cfg s' (events ++ more) := by
  cases input with
  | commit t =>
    cases hstep
    rw [List.append_nil]
    exact h.same rfl rfl rfl rfl rfl
  | setBatchRows rows =>
    cases hstep
    rw [List.append_nil]
    exact h.same rfl rfl rfl rfl rfl
  | call a =>
    cases hstep
    exact h.nextBatch htracks a hdocumented herrorless

theorem progress_start (batchRows confirmed : Nat) : Progress cfg (.start batchRows confirmed) [] :=
  ⟨fun _ => .inl ⟨rfl, rfl, rfl, rfl, nofun⟩, nofun⟩

/-- A call that does not fail, after a cycle, moves the slot to what is pending. -/
theorem confirmed_next (hstart : s.reader.cycleStart = true) {a : Answers} {s' : System}
    {more : List Event} (hstep : step values cfg s (.call a) = .ok (s', more))
    (herrorless : Errorless more) :
    s'.confirmed = s.reader.pendingLsn.getD s.confirmed := by
  obtain ⟨reader, told, result, hensure, ⟨e, hcall⟩ | ⟨hrunning, hcall⟩ |
    ⟨-, reader', moved, result', hadvance, ⟨e, hcall⟩ | ⟨rfl, hcall⟩⟩⟩ :=
    nextBatch_cases values cfg s.reader a
  all_goals
    rw [Logical.step, hcall] at hstep
    cases hstep
  · exact absurd rfl ((herrorless.append.2 _ (List.mem_singleton_self _)).2 e)
  · obtain ⟨-, -, -, -, hsame⟩ := ensureSession_errorless hensure herrorless.append.1
    cases hrunning.symm.trans (hsame.trans hstart)
  · exact absurd rfl ((herrorless.append.2 _ (List.mem_singleton_self _)).2 e)
  · obtain ⟨rfl, -, hpending, -, -⟩ := ensureSession_errorless hensure herrorless.append.1.append.1
    dsimp only
    rw [List.nil_append, moveSlot_append, moveSlot_drain, ← hpending]
    obtain ⟨hnone, rfl⟩ | ⟨lsn, hsome, rfl⟩ := (advance_eq_ok hadvance).1
    · rw [hnone]
      rfl
    · rw [hsome]
      rfl

/-- **When the slot moves on.** In every run without errors, a cycle that ended after peeking whole
transactions leaves an acknowledgement past the slot's position, the end of the newest transaction
whose rows were all returned, exactly when its peek has a row of the table and the cap lets its first
transaction through; and the next call moves the slot to what was left. -/
theorem slot_progress_iff {batchRows confirmed : Nat} {inputs : List Input} {outs : List (List Event)}
    (h : run (step values cfg) (.start batchRows confirmed) inputs = .ok (s, outs))
    (hdocumented : EachStep (step values cfg) (Documented values cfg) (.start batchRows confirmed)
      inputs)
    (herrorless : Errorless outs.flatten) (hended : s.reader.cycleStart = true) {cycle : List Event}
    (hcycle : (cycles outs.flatten).1.getLast? = some cycle) :
    Settles cfg s cycle ∧ ∀ a s' more, step values cfg s (.call a) = .ok (s', more) →
      Errorless more → s'.confirmed = s.reader.pendingLsn.getD s.confirmed := by
  have hprogress : Tracks values cfg s outs.flatten ∧
      (Errorless outs.flatten → Progress cfg s outs.flatten) := by
    refine run_outputs_induction_of_eachStep
      (P := fun s outs => Tracks values cfg s outs.flatten ∧
        (Errorless outs.flatten → Progress cfg s outs.flatten))
      ⟨tracks_start batchRows confirmed, fun _ => progress_start batchRows confirmed⟩
      (fun s outs input s' more ⟨htracks, hprogress⟩ hC hstep => ?_) h hdocumented
    rw [List.flatten_concat]
    refine ⟨htracks.step hC hstep, fun herrorless => ?_⟩
    obtain ⟨hbefore, hmore⟩ := herrorless.append
    exact (hprogress hbefore).step htracks hC hstep hmore
  exact ⟨(hprogress.2 herrorless).ended hended cycle hcycle,
    fun a s' more hstep hmore => confirmed_next hended hstep hmore⟩

/-- A call whose events are known. -/
theorem documented_call {a : Answers} {s' : System} (told : List Event)
    (hstep : step values cfg s (.call a) = .ok (s', told))
    (h : ∀ rows batchRows, .peeked rows batchRows ∈ told →
      ∃ ts, ts <+: s'.log.filter (fun t => s'.confirmed < t.endLsn) ∧ Renders .empty ts rows) :
    Documented values cfg s (.call a) := by
  intro s'' told' hstep'
  cases hstep.symm.trans hstep'
  exact h

end

namespace Sample

/-- Column builders that keep what they are given. -/
def plain : Values where
  resolveWire _ _ := .ok ()
  newBuilder _ _ := .ok ()
  pushStr _ text := .ok (.text text)
  pushI64 _ n := .ok (.int n)
  pushText _ _ bytes := .ok (.bytes bytes)
  push _ _ bytes := .ok (.bytes bytes)

/-- A reader of the table `p.t`. -/
def reading : Config where
  slot := "slot"
  publication := "pub"
  table := "p.t"
  slotAutocreate := false
  maxBatchesPerCycle := 0
  fields := [⟨"id", .int32, false, none, none, none, none⟩]
  schema := ⟨[⟨"id", .int32, false⟩]⟩
  target := "host/db"

def row (data : Bytes) : SlotRow := ⟨some "0/10", none, data⟩

def begins : SlotRow := row (66 :: List.replicate 20 0)

def commits : SlotRow := row (67 :: List.replicate 16 0 ++ 16 :: List.replicate 8 0)

/-- The relation `p.t` or `p.u`, with one column. -/
def declares (name : UInt8) : SlotRow :=
  row [82, 0, 0, 0, name, 112, 0, name, 0, 100, 0, 1, 0, 105, 100, 0, 0, 0, 0, 23, 255, 255, 255, 255]

def inserts (name : UInt8) : SlotRow := row [73, 0, 0, 0, name, 78, 0, 1, 116, 0, 0, 0, 1, 49]

/-- What the server sends of a transaction that inserts into a table. -/
def peek (name : UInt8) : List SlotRow := [begins, declares name, inserts name, commits]

def transaction (table : String) : Transaction := ⟨16, [⟨table, .insert, [.text [49]]⟩]⟩

def call (rows : List SlotRow) : Input :=
  .call ⟨true, .ok (), .created, .ok [⟨"id", 23, 23, "int4", "int4", -1, none⟩], .ok "0/10", .ok rows⟩

/-- A transaction of the table is read, the cycle ends, and the next one moves the slot. -/
def published : List Input := [.commit (transaction "p.t"), call (peek 116), call [], call []]

/-- What the server sends carries the transaction. -/
theorem renders_peek (name : UInt8) {table : String} {relation : Relation} {d d' : Decoder}
    (begins : Decoder.empty.decode begins.data = .ok (.begin 0, .empty))
    (declared : Decoder.empty.decode (declares name).data = .ok (.relation name.toNat, d))
    (inserted : d.decode (inserts name).data = .ok (.change name.toNat .insert [.text [49]], d))
    (found : d.relation name.toNat = some relation) (hname : relation.qualified = table)
    (committed : d.decode commits.data = .ok (.commit 16, d')) :
    Renders .empty [transaction table] (peek name) := by
  subst hname
  have hbody : Publishes .empty (transaction relation.qualified).changes [declares name, inserts name] d :=
    .relation declared (.change inserted found (.done d))
  exact .transaction begins hbody committed rfl (.done d')

def decoder (name : UInt8) (table : String) : Decoder := ⟨[(name.toNat, ⟨"p", table, [⟨"id", 23⟩]⟩)]⟩

theorem renders_published : Renders .empty [transaction "p.t"] (peek 116) :=
  renders_peek 116 (d := decoder 116 "t") (by rfl) (by rfl) (by rfl) rfl (by decide) (by rfl)

theorem renders_foreign : Renders .empty [transaction "p.u"] (peek 117) :=
  renders_peek 117 (d := decoder 117 "u") (by rfl) (by rfl) (by rfl) rfl (by decide) (by rfl)

def columns : List ColumnType := [⟨"id", 23, 23, "int4", "int4", -1, none⟩]

/-- A reader between two calls. -/
def between (pending : Option Nat) (cycleStart : Bool) (batches : Nat) : State :=
  ⟨true, true, 10, columns, [], pending, true, cycleStart, batches⟩

/-- The reader between the two calls of the first cycle. -/
def returned : System := ⟨between (some 16) false 1, [transaction "p.t"], 5⟩

/-- The reader after the first cycle. -/
def ended : System := ⟨between (some 16) true 1, [transaction "p.t"], 5⟩

/-- The reader after a cycle that has nothing to read. -/
def moved : System := ⟨between none true 0, [transaction "p.t"], 16⟩

/-- What the first cycle returns. -/
def firstCycle : List (List Event) :=
  [[], [.peeked (peek 116) 10, .returned ⟨reading.schema, [[.bytes [49]]]⟩], [.ended]]

/-- What the second cycle returns, which moves the slot. -/
def secondCycle : List Event := [.advanced 16 true, .peeked [] 10, .ended]

theorem step_peek : step plain reading ⟨.new 10, [transaction "p.t"], 5⟩ (call (peek 116)) =
    .ok (returned, [.peeked (peek 116) 10, .returned ⟨reading.schema, [[.bytes [49]]]⟩]) := by
  rfl

theorem step_end : step plain reading returned (call []) = .ok (ended, [.ended]) := by rfl

theorem step_move : step plain reading ended (call []) = .ok (moved, secondCycle) := by rfl

theorem run_cycle :
    run (step plain reading) (.start 10 5) (published.take 3) = .ok (ended, firstCycle) := by
  rfl

theorem run_published : run (step plain reading) (.start 10 5) published =
    .ok (moved, firstCycle ++ [secondCycle]) := by
  rfl

theorem documented_published :
    EachStep (step plain reading) (Documented plain reading) (.start 10 5) published := by
  refine EachStep.cons ⟨by decide, nofun⟩ rfl ?_
  refine EachStep.cons (documented_call _ step_peek ?_) step_peek ?_
  · intro rows batchRows hmem
    cases hmem with
    | head => exact ⟨_, List.prefix_rfl, renders_published⟩
    | tail _ hmem => cases List.mem_singleton.mp hmem
  refine EachStep.cons (documented_call _ step_end ?_) step_end ?_
  · intro rows batchRows hmem
    cases List.mem_singleton.mp hmem
  refine EachStep.cons (documented_call _ step_move ?_) step_move trivial
  intro rows batchRows hmem
  cases hmem with
  | tail _ hmem =>
    cases hmem with
    | head => exact ⟨[], List.nil_prefix, .done _⟩
    | tail _ hmem => cases List.mem_singleton.mp hmem

/-- The slot moved past the transaction, whose row an earlier cycle returned. -/
theorem published_safe :
    SlotSafe plain reading moved.log (firstCycle ++ [secondCycle]).flatten :=
  (slot_safe run_published documented_published).1

theorem errorless_cycle : Errorless firstCycle.flatten := by
  intro event hmem
  cases hmem with
  | head => exact ⟨nofun, nofun⟩
  | tail _ hmem =>
    cases hmem with
    | head => exact ⟨nofun, nofun⟩
    | tail _ hmem =>
      cases List.mem_singleton.mp hmem
      exact ⟨nofun, nofun⟩

/-- The first cycle leaves the end of the transaction, and the next call moves the slot to it. -/
theorem published_progress :
    Settles reading ended [.peeked (peek 116) 10, .returned ⟨reading.schema, [[.bytes [49]]]⟩] ∧
      ∀ a s' more, step plain reading ended (.call a) = .ok (s', more) → Errorless more →
        s'.confirmed = 16 :=
  slot_progress_iff run_cycle (EachStep.of_append documented_published) errorless_cycle rfl (by rfl)

/-! ## A peek without a row of the table -/

/-- The reader after a cycle that peeked a transaction on another table. -/
def stuck : System := ⟨between none true 0, [transaction "p.u"], 5⟩

theorem step_foreign : step plain reading ⟨.new 10, [transaction "p.u"], 5⟩ (call (peek 117)) =
    .ok (stuck, [.peeked (peek 117) 10, .ended]) := by
  rfl

theorem step_stuck :
    step plain reading stuck (call (peek 117)) = .ok (stuck, [.peeked (peek 117) 10, .ended]) := by
  rfl

theorem documented_foreign : EachStep (step plain reading) (Documented plain reading) (.start 10 5)
    [.commit (transaction "p.u"), call (peek 117)] := by
  refine EachStep.cons ⟨by decide, nofun⟩ rfl ?_
  refine EachStep.cons (documented_call _ step_foreign ?_) step_foreign trivial
  intro rows batchRows hmem
  cases hmem with
  | head => exact ⟨_, List.prefix_rfl, renders_foreign⟩
  | tail _ hmem => cases List.mem_singleton.mp hmem

/-- A cycle that peeked a whole transaction, of another table, leaves no acknowledgement: the next
cycle peeks it again, and leaves the reader as it found it. -/
theorem foreign_transaction_stuck :
    ∃ outs, run (step plain reading) (.start 10 5) [.commit (transaction "p.u"), call (peek 117)] =
        .ok (stuck, outs) ∧
      EachStep (step plain reading) (Documented plain reading) (.start 10 5)
        [.commit (transaction "p.u"), call (peek 117)] ∧
      Errorless outs.flatten ∧ Renders .empty [transaction "p.u"] (peek 117) ∧
      (cycles outs.flatten).1 = [[.peeked (peek 117) 10]] ∧
      stuck.reader.pendingLsn = none ∧
      step plain reading stuck (call (peek 117)) = .ok (stuck, [.peeked (peek 117) 10, .ended]) := by
  refine ⟨[[], [.peeked (peek 117) 10, .ended]], rfl, documented_foreign, ?_, renders_foreign, (by rfl), rfl,
    step_stuck⟩
  intro event hmem
  cases hmem with
  | head => exact ⟨nofun, nofun⟩
  | tail _ hmem =>
    cases List.mem_singleton.mp hmem
    exact ⟨nofun, nofun⟩

end Sample
end Saci.Postgres.Logical
