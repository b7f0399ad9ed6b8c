import Saci.Connectors.PostgresCursor

/-!
# What the cursor reader passes over

Over every run on an append-only table: every row beyond the first position is returned before any
offset of the reader passes it, and `delete_acked` deletes only what was returned, exactly when no row is
committed behind an offset, `initial = "now"` is not resolved past rows that were not returned, and the
table holds no row to delete that the reader does not read.
-/

namespace Saci.Postgres.Cursor

section
variable {C T V : Type} [LinearOrder C] [LinearOrder T] (cfg : Config C T V)

/-! ## Offsets and rows -/

theorem beyond_some (offset : Offset C T) (row : TableRow C T V) :
    beyond cfg (some offset) row = !atOrBefore cfg offset row := by
  obtain ⟨cursor, tiebreak⟩ := offset
  have halone : decide (cursor < row.cursor) = !decide (row.cursor ≤ cursor) := by
    rw [← decide_not, decide_eq_decide, not_le]
  cases hcolumn : cfg.tiebreakColumn with
  | false => cases tiebreak <;> simpa [beyond, shape, atOrBefore, hcolumn] using halone
  | true =>
    cases tiebreak with
    | none => simpa [beyond, shape, atOrBefore, hcolumn] using halone
    | some tiebreak =>
      have hpair : cursor < row.cursor ∨ row.cursor = cursor ∧ tiebreak < row.tiebreak ↔
          ¬(row.cursor < cursor ∨ row.cursor = cursor ∧ row.tiebreak ≤ tiebreak) := by
        rcases lt_trichotomy row.cursor cursor with h | h | h
        · simp [h, h.ne, h.not_gt]
        · simp [h]
        · simp [h, h.ne', h.not_gt]
      simpa only [beyond, shape, atOrBefore, hcolumn, Option.isSome_some, and_self, if_true,
        ← decide_not, decide_eq_decide] using hpair

theorem atOrBefore_offsetOf (a b : TableRow C T V) :
    atOrBefore cfg (offsetOf cfg b) a = ordered cfg a b := by
  cases hcolumn : cfg.tiebreakColumn <;> simp [atOrBefore, offsetOf, ordered, hcolumn]

theorem ordered_total (a b : TableRow C T V) : ordered cfg a b = true ∨ ordered cfg b a = true := by
  cases hcolumn : cfg.tiebreakColumn with
  | false => simp [ordered, hcolumn, le_total]
  | true =>
    rcases lt_trichotomy a.cursor b.cursor with h | h | h
    · simp [ordered, hcolumn, h]
    · simp [ordered, hcolumn, h, le_total]
    · simp [ordered, hcolumn, h]

theorem ordered_trans (a b c : TableRow C T V) (hab : ordered cfg a b = true)
    (hbc : ordered cfg b c = true) : ordered cfg a c = true := by
  cases hcolumn : cfg.tiebreakColumn with
  | false =>
    simp only [ordered, hcolumn, Bool.false_eq_true, if_false, decide_eq_true_eq] at hab hbc ⊢
    exact hab.trans hbc
  | true =>
    simp only [ordered, hcolumn, if_true, decide_eq_true_eq] at hab hbc ⊢
    rcases hab with hab | ⟨hab, hab'⟩ <;> rcases hbc with hbc | ⟨hbc, hbc'⟩
    · exact .inl (hab.trans hbc)
    · exact .inl (hbc ▸ hab)
    · exact .inl (hab ▸ hbc)
    · exact .inr ⟨hab.trans hbc, hab'.trans hbc'⟩

instance : Std.Total fun a b : TableRow C T V => ordered cfg a b = true := ⟨ordered_total cfg⟩

instance : IsTrans (TableRow C T V) fun a b => ordered cfg a b = true := ⟨ordered_trans cfg⟩

instance : Std.Total fun a b : TableRow C T V => ordered cfg b a = true :=
  ⟨fun a b => ordered_total cfg b a⟩

instance : IsTrans (TableRow C T V) fun a b => ordered cfg b a = true :=
  ⟨fun a b c hab hbc => ordered_trans cfg c b a hbc hab⟩

theorem offsetOf_eq_of_ordered {a b : TableRow C T V} (hab : ordered cfg a b = true)
    (hba : ordered cfg b a = true) : offsetOf cfg a = offsetOf cfg b := by
  cases hcolumn : cfg.tiebreakColumn with
  | false =>
    simp only [ordered, hcolumn, Bool.false_eq_true, if_false, decide_eq_true_eq] at hab hba
    simp only [offsetOf, hcolumn, Bool.false_eq_true, if_false, le_antisymm hab hba]
  | true =>
    simp only [ordered, hcolumn, if_true, decide_eq_true_eq] at hab hba
    rcases hab with hab | ⟨hab, hab'⟩
    · rcases hba with hba | ⟨hba, -⟩
      · exact absurd hba hab.not_gt
      · exact absurd hba hab.ne'
    · rcases hba with hba | ⟨-, hba'⟩
      · exact absurd hab hba.ne'
      · simp only [offsetOf, hab, le_antisymm hab' hba']

/-! ## What a read returns -/

theorem mem_rowsAfter {offset : Option (Offset C T)} {table : List (TableRow C T V)}
    {row : TableRow C T V} :
    row ∈ rowsAfter cfg offset table ↔
      row ∈ table ∧ beyond cfg offset row = true ∧ reads cfg row = true := by
  rw [rowsAfter, List.mem_insertionSort, List.mem_filter, Bool.and_eq_true]

theorem mem_of_mem_select {offset : Option (Offset C T)} {limit : Nat}
    {table : List (TableRow C T V)} {row : TableRow C T V}
    (h : row ∈ select cfg offset limit table) : row ∈ table :=
  ((mem_rowsAfter cfg).mp (List.mem_of_mem_take h)).1

/-- A read leaves out no row up to its last one. -/
theorem mem_select {offset : Option (Offset C T)} {limit : Nat} {table : List (TableRow C T V)}
    (hunique : (table.map (offsetOf cfg)).Nodup) {row last : TableRow C T V} (hrow : row ∈ table)
    (hbeyond : beyond cfg offset row = true) (hreads : reads cfg row = true)
    (hlast : last ∈ select cfg offset limit table)
    (hle : atOrBefore cfg (offsetOf cfg last) row = true) : row ∈ select cfg offset limit table := by
  have hmem : row ∈ rowsAfter cfg offset table := (mem_rowsAfter cfg).mpr ⟨hrow, hbeyond, hreads⟩
  rw [← List.take_append_drop limit (rowsAfter cfg offset table), List.mem_append] at hmem
  refine hmem.resolve_right fun hdrop => ?_
  have hpairwise : (rowsAfter cfg offset table).Pairwise fun a b => ordered cfg a b = true :=
    List.pairwise_insertionSort _ _
  rw [← List.take_append_drop limit (rowsAfter cfg offset table), List.pairwise_append] at hpairwise
  rw [atOrBefore_offsetOf] at hle
  have heq := offsetOf_eq_of_ordered cfg hle (hpairwise.2.2 last hlast row hdrop)
  have hnodup : ((rowsAfter cfg offset table).map (offsetOf cfg)).Nodup := by
    refine ((List.perm_insertionSort _ _).map (offsetOf cfg)).nodup_iff.mpr ?_
    exact hunique.sublist (List.filter_sublist.map (offsetOf cfg))
  rw [← List.take_append_drop limit (rowsAfter cfg offset table), List.map_append,
    List.nodup_append] at hnodup
  exact hnodup.2.2 _ (List.mem_map_of_mem hlast) _ (List.mem_map_of_mem hdrop) heq.symm

/-- The maximum is at or past every row that the reader reads. -/
theorem atOrBefore_maximum {table : List (TableRow C T V)} {offset : Offset C T}
    (h : maximum cfg table = some offset) {row : TableRow C T V} (hrow : row ∈ table)
    (hreads : reads cfg row = true) : atOrBefore cfg offset row = true := by
  obtain ⟨last, hlast, rfl⟩ := Option.map_eq_some_iff.mp h
  rw [atOrBefore_offsetOf]
  have hmem : row ∈ (table.filter (reads cfg)).insertionSort fun a b => ordered cfg b a = true :=
    (List.mem_insertionSort _).mpr (List.mem_filter.mpr ⟨hrow, hreads⟩)
  have hpairwise : ((table.filter (reads cfg)).insertionSort fun a b => ordered cfg b a = true).Pairwise
      fun a b => ordered cfg b a = true :=
    List.pairwise_insertionSort _ _
  obtain ⟨rest, hrest⟩ := List.head?_eq_some_iff.mp hlast
  rw [hrest] at hmem hpairwise
  rcases List.mem_cons.mp hmem with rfl | hmem
  · exact (ordered_total cfg row row).elim id id
  · exact List.rel_of_pairwise_cons hpairwise hmem

theorem maximum_eq_none {table : List (TableRow C T V)} (h : maximum cfg table = none)
    {row : TableRow C T V} (hrow : row ∈ table) : reads cfg row = false := by
  have hnil := List.head?_eq_none_iff.mp (Option.map_eq_none_iff.mp h)
  refine Bool.eq_false_iff.mpr fun hreads => ?_
  have hmem : row ∈ (table.filter (reads cfg)).insertionSort fun a b => ordered cfg b a = true :=
    (List.mem_insertionSort _).mpr (List.mem_filter.mpr ⟨hrow, hreads⟩)
  rw [hnil] at hmem
  exact List.not_mem_nil hmem

/-! ## What the reader owes -/

/-- Where the reader reads on, what it may persist, and what is stored. -/
def System.positions (s : System C T V) : List (Offset C T) :=
  s.reader.offset.toList ++ s.reader.committed.toList ++ s.stored.toList

/-- An offset of the reader is at or past the row. -/
def Passed (s : System C T V) (row : TableRow C T V) : Prop :=
  ∃ offset ∈ s.positions, atOrBefore cfg offset row = true

/-- The reader reads the row, which lies beyond the first position. -/
def Owed (s : System C T V) (row : TableRow C T V) : Prop :=
  reads cfg row = true ∧ ∀ offset, s.first = some (some offset) → atOrBefore cfg offset row = false

/-- A row is returned before an offset passes it, and before it is deleted. -/
structure Lossless (s : System C T V) : Prop where
  returned : ∀ row ∈ s.log, Owed cfg s row → Passed cfg s row → row ∈ s.returned
  deleted : ∀ row ∈ s.deleted, row ∈ s.returned

/-- The rows that commit have cursors (with their tiebreaks) that no other row ever had. -/
def Fresh (s : System C T V) : Input C T V → Prop
  | .insert rows =>
    (rows.map (offsetOf cfg)).Nodup ∧
      ∀ row ∈ rows, ∀ other ∈ s.log, offsetOf cfg row ≠ offsetOf cfg other
  | _ => True

/-- Of the rows that a deletion reaches, those not returned are among the rows that are owed. -/
def PrunesOwed (s : System C T V) : Prop :=
  ∀ offset, s.reader.committed = some offset → ∀ row ∈ s.table, atOrBefore cfg offset row = true →
    row ∉ s.returned → Owed cfg s row

/-- No row that is owed commits behind an offset; `initial = "now"` is resolved again only when all rows
that are owed were returned; and a deletion reaches only rows that were owed. -/
def Timely (s : System C T V) : Input C T V → Prop
  | .insert rows => ∀ row ∈ rows, Owed cfg s row → ¬Passed cfg s row
  | .answer =>
    (s.reader.phase = .resolving → s.first ≠ none → ∀ row ∈ s.table, Owed cfg s row → row ∈ s.returned) ∧
      (s.reader.phase = .deleting → PrunesOwed cfg s)
  | .fail _ executed => executed = true → s.reader.phase = .deleting → PrunesOwed cfg s
  | .drop executed => executed = true → s.reader.phase = .deleting → PrunesOwed cfg s
  | _ => True

/-- What holds in every state. -/
structure Consistent (s : System C T V) : Prop where
  log : ∀ row, row ∈ s.log ↔ row ∈ s.table ∨ row ∈ s.deleted
  unique : (s.table.map (offsetOf cfg)).Nodup
  returned : ∀ row ∈ s.returned, row ∈ s.log
  first : ∀ cursor first, cfg.initial = .literal cursor → s.first = some first →
    first = some ⟨cursor, none⟩
  resolving : s.reader.phase = .resolving → ∀ cursor, cfg.initial ≠ .literal cursor

end

section
variable {C T V : Type} {cfg : Config C T V} {s : System C T V}

theorem mem_positions {offset : Offset C T} :
    offset ∈ s.positions ↔
      s.reader.offset = some offset ∨ s.reader.committed = some offset ∨ s.stored = some offset := by
  simp only [System.positions, List.mem_append, Option.mem_toList, or_assoc]

theorem Consistent.reader (h : Consistent cfg s) {reader : Reader C T}
    (hphase : reader.phase ≠ .resolving) : Consistent cfg { s with reader } :=
  ⟨h.log, h.unique, h.returned, h.first, fun hresolving => absurd hresolving hphase⟩

/-! ## The steps of a call -/

/-- A step that leaves the offsets alone and tells at most that the cycle ended. -/
structure Quiet (reader : Reader C T) (result : Reader C T × List (Event C T V)) : Prop where
  offset : result.1.offset = reader.offset
  committed : result.1.committed = reader.committed
  phase : result.1.phase ≠ .resolving
  events : result.2 = [] ∨ result.2 = [.ended]

theorem quiet_finish (reader : Reader C T) : Quiet (V := V) reader reader.finish :=
  ⟨rfl, rfl, nofun, .inr rfl⟩

theorem quiet_checkCap (reader : Reader C T) : Quiet reader (reader.checkCap cfg) := by
  unfold Reader.checkCap
  split_ifs
  · exact quiet_finish reader
  · exact ⟨rfl, rfl, nofun, .inl rfl⟩

theorem quiet_beginCycle (reader : Reader C T) : Quiet reader (reader.beginCycle cfg) :=
  have h : Quiet _ (Reader.checkCap cfg _) :=
    quiet_checkCap { reader with cycleStart := false, batchesThisCycle := 0 }
  ⟨h.offset, h.committed, h.phase, h.events⟩

theorem quiet_resume (reader : Reader C T) : Quiet reader (reader.resume cfg) := by
  unfold Reader.resume
  split_ifs
  · split
    · exact quiet_beginCycle reader
    · exact ⟨rfl, rfl, nofun, .inl rfl⟩
  · exact quiet_checkCap reader

theorem quiet_call (reader : Reader C T) : Quiet reader (reader.call cfg) := by
  unfold Reader.call
  split
  · exact quiet_resume reader
  · exact ⟨rfl, rfl, nofun, .inl rfl⟩
  · exact ⟨rfl, rfl, nofun, .inl rfl⟩

theorem after_of_events {result : Reader C T × List (Event C T V)}
    (h : result.2 = [] ∨ result.2 = [.ended]) : (s.after result).1 = { s with reader := result.1 } := by
  unfold System.after
  rcases h with h | h
  · rw [h]
    rfl
  · rw [h]
    rfl

theorem Consistent.quiet (h : Consistent cfg s) {result : Reader C T × List (Event C T V)}
    {reader : Reader C T} (hquiet : Quiet reader result) : Consistent cfg (s.after result).1 := by
  rw [after_of_events hquiet.events]
  exact h.reader hquiet.phase

/-- The reader takes an offset that `initial` resolves to. -/
theorem after_resolved {reader : Reader C T} {p : Option (Offset C T)}
    {result : Reader C T × List (Event C T V)} (hquiet : Quiet reader result) :
    (s.after (result.1, .resolved p :: result.2)).1 =
      { s with reader := result.1, first := s.first.or (some p) } := by
  unfold System.after
  rcases hquiet.events with h | h
  · rw [h]
    rfl
  · rw [h]
    rfl

theorem Consistent.resolved (h : Consistent cfg s) {reader : Reader C T} {p : Option (Offset C T)}
    (hphase : reader.phase ≠ .resolving)
    (hliteral : ∀ cursor, cfg.initial = .literal cursor → p = some ⟨cursor, none⟩) :
    Consistent cfg { s with reader, first := s.first.or (some p) } := by
  refine ⟨h.log, h.unique, h.returned, fun cursor first hinitial hfirst => ?_,
    fun hresolving => absurd hresolving hphase⟩
  cases hs : s.first with
  | none =>
    rw [hs] at hfirst
    exact (Option.some.inj hfirst).symm.trans (hliteral cursor hinitial)
  | some old =>
    rw [hs] at hfirst
    exact h.first cursor first hinitial (hs.trans hfirst)

end

section
variable {C T V : Type} [LinearOrder C] [LinearOrder T] {cfg : Config C T V} {s : System C T V}

/-! ## What a statement does -/

/-- The reader changes, and its offsets are among those there were. -/
theorem Lossless.reader (h : Lossless cfg s) {reader : Reader C T}
    (hoffset : ∀ p, reader.offset = some p → p ∈ s.positions)
    (hcommitted : ∀ p, reader.committed = some p → p ∈ s.positions) :
    Lossless cfg { s with reader } := by
  refine ⟨fun row hrow howed ⟨p, hp, hle⟩ => h.returned row hrow howed ⟨p, ?_, hle⟩, h.deleted⟩
  rcases mem_positions.mp hp with hp | hp | hp
  · exact hoffset p hp
  · exact hcommitted p hp
  · exact mem_positions.mpr (.inr (.inr hp))

theorem Lossless.sameOffsets (h : Lossless cfg s) {reader : Reader C T}
    (hoffset : reader.offset = s.reader.offset) (hcommitted : reader.committed = s.reader.committed) :
    Lossless cfg { s with reader } :=
  h.reader (fun _ hp => mem_positions.mpr (.inl (hoffset ▸ hp)))
    fun _ hp => mem_positions.mpr (.inr (.inl (hcommitted ▸ hp)))

theorem sameOffsets_iff {reader : Reader C T} (hoffset : reader.offset = s.reader.offset)
    (hcommitted : reader.committed = s.reader.committed) :
    Lossless cfg { s with reader } ↔ Lossless cfg s :=
  ⟨fun h => h.sameOffsets hoffset.symm hcommitted.symm, fun h => h.sameOffsets hoffset hcommitted⟩

theorem Lossless.quiet (h : Lossless cfg s) {result : Reader C T × List (Event C T V)}
    (hquiet : Quiet s.reader result) : Lossless cfg (s.after result).1 := by
  rw [after_of_events hquiet.events]
  exact h.sameOffsets hquiet.offset hquiet.committed

/-- The rows of the table that are committed and not deleted yet. -/
theorem Consistent.execute (h : Consistent cfg s) : Consistent cfg (execute cfg s) := by
  unfold Cursor.execute
  split
  · exact ⟨h.log, h.unique, h.returned, h.first, h.resolving⟩
  · rename_i offset hphase _
    refine ⟨fun row => (h.log row).trans ?_, ?_, h.returned, h.first, h.resolving⟩
    · simp only [List.mem_filter, List.mem_append, Bool.not_eq_true']
      by_cases hle : atOrBefore cfg offset row = true
      · simp only [hle, Bool.true_eq_false, and_false, false_or, and_true, or_comm]
      · simp only [hle, Bool.false_eq_true, and_false, or_false, and_true]
    · exact h.unique.sublist (List.filter_sublist.map (offsetOf cfg))
  · exact h

/-- A statement loses nothing exactly when it is no deletion, or deletes only what is owed. -/
theorem execute_iff (h : Lossless cfg s) (hconsistent : Consistent cfg s) :
    Lossless cfg (execute cfg s) ↔ (s.reader.phase = .deleting → PrunesOwed cfg s) := by
  unfold Cursor.execute
  split
  · rename_i offset hphase hcommitted
    refine iff_of_true ⟨fun row hrow howed ⟨p, hp, hle⟩ => ?_, h.deleted⟩ (by simp [hphase])
    refine h.returned row hrow howed ⟨p, mem_positions.mpr ?_, hle⟩
    rcases mem_positions.mp hp with hp | hp | hp
    · exact .inl hp
    · exact .inr (.inl hp)
    · exact .inr (.inl (hcommitted.trans hp))
  · rename_i offset hphase hcommitted
    constructor
    · intro hlossless _ p hp row hrow hle hnot
      obtain rfl := Option.some.inj (hcommitted.symm.trans hp)
      refine absurd (hlossless.deleted row ?_) hnot
      exact List.mem_append_right _ (List.mem_filter.mpr ⟨hrow, hle⟩)
    · intro hprunes
      refine ⟨h.returned, fun row hrow => ?_⟩
      rcases List.mem_append.mp hrow with hrow | hrow
      · exact h.deleted row hrow
      · obtain ⟨hrow, hle⟩ := List.mem_filter.mp hrow
        by_contra hnot
        have howed := hprunes hphase offset hcommitted row hrow hle hnot
        refine hnot (h.returned row ((hconsistent.log row).mpr (.inl hrow)) howed ?_)
        exact ⟨offset, mem_positions.mpr (.inr (.inl hcommitted)), hle⟩
  · rename_i hstoring hdeleting
    refine iff_of_true h fun hphase p hp => ?_
    exact absurd hp fun hp => hdeleting p hphase hp

/-! ## The position a session starts from -/

/-- A position is lossless to start from exactly when it passes no row that is owed. -/
theorem resolved_iff (h : Lossless cfg s) {reader : Reader C T} {p : Option (Offset C T)}
    (hoffset : reader.offset = p) (hcommitted : reader.committed = p) :
    Lossless cfg { s with reader, first := s.first.or (some p) } ↔
      (s.first ≠ none → ∀ offset, p = some offset → ∀ row ∈ s.log, Owed cfg s row →
        atOrBefore cfg offset row = true → row ∈ s.returned) := by
  cases hfirst : s.first with
  | none =>
    refine iff_of_true ⟨fun row hrow howed ⟨q, hq, hle⟩ => ?_, h.deleted⟩ (absurd rfl)
    refine h.returned row hrow ⟨howed.1, by simp [hfirst]⟩ ⟨q, mem_positions.mpr ?_, hle⟩
    have hnot : p ≠ some q := by
      rintro rfl
      rw [howed.2 q rfl] at hle
      cases hle
    rcases mem_positions.mp hq with hq | hq | hq
    · exact absurd (hoffset.symm.trans hq) hnot
    · exact absurd (hcommitted.symm.trans hq) hnot
    · exact .inr (.inr hq)
  | some first =>
    have howes : ∀ row, Owed cfg { s with reader, first := (some first).or (some p) } row ↔
        Owed cfg s row := fun row => by rw [Owed, Owed, hfirst]; rfl
    constructor
    · intro hlossless _ offset hp row hrow howed hle
      exact hlossless.returned row hrow ((howes row).mpr howed)
        ⟨offset, mem_positions.mpr (.inl (hoffset.trans hp)), hle⟩
    · intro hall
      refine ⟨fun row hrow howed ⟨q, hq, hle⟩ => ?_, h.deleted⟩
      have howed := (howes row).mp howed
      rcases mem_positions.mp hq with hq | hq | hq
      · exact hall nofun q (hoffset.symm.trans hq) row hrow howed hle
      · exact hall nofun q (hcommitted.symm.trans hq) row hrow howed hle
      · exact h.returned row hrow howed ⟨q, mem_positions.mpr (.inr (.inr hq)), hle⟩

/-! ## What a read does -/

/-- Every row that is owed is returned by the time that the offset passes it. -/
theorem Lossless.emit (h : Lossless cfg s) (hconsistent : Consistent cfg s) {reader : Reader C T}
    {limit : Nat} {last : TableRow C T V}
    (hlast : last ∈ select cfg s.reader.offset limit s.table)
    (hoffset : reader.offset = some (offsetOf cfg last))
    (hcommitted : reader.committed = some (offsetOf cfg last)) :
    Lossless cfg { s with
      reader
      returned := s.returned ++ select cfg s.reader.offset limit s.table } := by
  refine ⟨fun row hrow howed ⟨p, hp, hle⟩ => ?_, fun row hrow =>
    List.mem_append_left _ (h.deleted row hrow)⟩
  rw [List.mem_append, or_iff_not_imp_left]
  intro hnot
  have htable : row ∈ s.table :=
    ((hconsistent.log row).mp hrow).resolve_right fun hdeleted => hnot (h.deleted row hdeleted)
  have hbehind : ∀ q ∈ s.positions, atOrBefore cfg q row = false := fun q hq =>
    Bool.eq_false_iff.mpr fun hle => hnot (h.returned row hrow howed ⟨q, hq, hle⟩)
  have hp : p = offsetOf cfg last := by
    rcases mem_positions.mp hp with hp | hp | hp
    · exact Option.some.inj (hp.symm.trans hoffset)
    · exact Option.some.inj (hp.symm.trans hcommitted)
    · rw [hbehind p (mem_positions.mpr (.inr (.inr hp)))] at hle
      cases hle
  refine mem_select cfg hconsistent.unique htable ?_ howed.1 hlast (hp ▸ hle)
  cases hreader : s.reader.offset with
  | none => rfl
  | some q => rw [beyond_some, hbehind q (mem_positions.mpr (.inl hreader)), Bool.not_false]

theorem Consistent.emit (h : Consistent cfg s) {reader : Reader C T} {offset : Option (Offset C T)}
    {limit : Nat} (hphase : reader.phase ≠ .resolving) :
    Consistent cfg { s with reader, returned := s.returned ++ select cfg offset limit s.table } := by
  refine ⟨h.log, h.unique, fun row hrow => ?_, h.first, fun hresolving => absurd hresolving hphase⟩
  rcases List.mem_append.mp hrow with hrow | hrow
  · exact h.returned row hrow
  · exact (h.log row).mpr (.inl (mem_of_mem_select cfg hrow))

/-! ## One step -/

/-- What an answer must meet for its call to lose nothing. -/
def ResolvesOwed (cfg : Config C T V) (s : System C T V) : Prop :=
  s.reader.phase = .resolving → s.first ≠ none → ∀ row ∈ s.table, Owed cfg s row → row ∈ s.returned

theorem proceed_quiet (h : Lossless cfg s) (hconsistent : Consistent cfg s)
    (hphase : s.reader.phase ≠ .resolving) {result : Reader C T × List (Event C T V)}
    (hquiet : Quiet s.reader result) :
    Consistent cfg (s.after result).1 ∧ (Lossless cfg (s.after result).1 ↔ ResolvesOwed cfg s) :=
  ⟨hconsistent.quiet hquiet,
    iff_of_true (h.quiet hquiet) fun hresolving => absurd hresolving hphase⟩

/-- A session that starts from a position of `initial`. -/
theorem resolved_step (h : Lossless cfg s) (hconsistent : Consistent cfg s) {p : Option (Offset C T)}
    (hliteral : ∀ cursor, cfg.initial = .literal cursor → p = some ⟨cursor, none⟩) :
    let result := s.reader.loadedAt cfg p
    Consistent cfg (s.after (result.1, .resolved p :: result.2)).1 ∧
      (Lossless cfg (s.after (result.1, .resolved p :: result.2)).1 ↔
        (s.first ≠ none → ∀ offset, p = some offset → ∀ row ∈ s.log, Owed cfg s row →
          atOrBefore cfg offset row = true → row ∈ s.returned)) := by
  have hquiet : Quiet _ (s.reader.loadedAt cfg p) := quiet_resume _
  dsimp only
  rw [after_resolved hquiet]
  exact ⟨hconsistent.resolved hquiet.phase hliteral, resolved_iff h hquiet.offset hquiet.committed⟩

/-- A literal position passes no row that is owed. -/
theorem resolveInitial_step (h : Lossless cfg s) (hconsistent : Consistent cfg s) :
    Consistent cfg (s.after (s.reader.resolveInitial cfg)).1 ∧
      Lossless cfg (s.after (s.reader.resolveInitial cfg)).1 := by
  unfold Reader.resolveInitial
  cases hinitial : cfg.initial with
  | beginning =>
    obtain ⟨hstep, hiff⟩ := resolved_step h hconsistent (p := none)
      fun cursor hliteral => by rw [hinitial] at hliteral; cases hliteral
    exact ⟨hstep, hiff.mpr fun _ _ hp => nomatch hp⟩
  | literal cursor =>
    obtain ⟨hstep, hiff⟩ := resolved_step h hconsistent (p := some ⟨cursor, none⟩)
      fun cursor' hliteral => by rw [hinitial] at hliteral; cases hliteral; rfl
    refine ⟨hstep, hiff.mpr fun hfirst offset hp row _ howed hle => ?_⟩
    obtain ⟨first, hfirst⟩ := Option.ne_none_iff_exists'.mp hfirst
    cases hp
    rw [howed.2 _ (hfirst.trans (congrArg some (hconsistent.first cursor first hinitial hfirst)))] at hle
    cases hle
  | now =>
    refine ⟨⟨hconsistent.log, hconsistent.unique, hconsistent.returned, hconsistent.first,
      fun _ cursor hliteral => ?_⟩, h.reader (fun _ hp => nomatch hp) fun p hp => ?_⟩
    · rw [hinitial] at hliteral
      cases hliteral
    · exact mem_positions.mpr (.inr (.inl hp))

/-- `initial = "now"` passes every row that the table holds. -/
theorem maximum_step (h : Lossless cfg s) (hconsistent : Consistent cfg s)
    (hphase : s.reader.phase = .resolving) :
    let result := s.reader.loadedAt cfg (maximum cfg s.table)
    Consistent cfg (s.after (result.1, .resolved (maximum cfg s.table) :: result.2)).1 ∧
      (Lossless cfg (s.after (result.1, .resolved (maximum cfg s.table) :: result.2)).1 ↔
        ResolvesOwed cfg s) := by
  obtain ⟨hstep, hiff⟩ := resolved_step h hconsistent (p := maximum cfg s.table)
    fun cursor hliteral => absurd hliteral (hconsistent.resolving hphase cursor)
  refine ⟨hstep, hiff.trans ⟨fun hall _ hfirst row hrow howed => ?_,
    fun hall hfirst offset _ row hrow howed _ => ?_⟩⟩
  · cases hmaximum : maximum cfg s.table with
    | none => exact absurd howed.1 (Bool.eq_false_iff.mp (maximum_eq_none cfg hmaximum hrow))
    | some offset =>
      exact hall hfirst offset hmaximum row ((hconsistent.log row).mpr (.inl hrow)) howed
        (atOrBefore_maximum cfg hmaximum hrow howed.1)
  · rcases (hconsistent.log row).mp hrow with hrow | hrow
    · exact hall hphase hfirst row hrow howed
    · exact h.deleted row hrow

theorem emit_step (h : Lossless cfg s) (hconsistent : Consistent cfg s) {last : TableRow C T V}
    (hlast : (select cfg s.reader.offset s.reader.batchRows s.table).getLast? = some last) :
    let rows := select cfg s.reader.offset s.reader.batchRows s.table
    Consistent cfg (s.after (s.reader.emit cfg rows last)).1 ∧
      Lossless cfg (s.after (s.reader.emit cfg rows last)).1 := by
  unfold Reader.emit
  dsimp only
  split
  · exact ⟨hconsistent.reader nofun, h.sameOffsets rfl rfl⟩
  · exact ⟨hconsistent.emit nofun, h.emit hconsistent (List.mem_of_getLast? hlast) rfl rfl⟩

theorem proceed_iff (h : Lossless cfg s) (hconsistent : Consistent cfg s) :
    Consistent cfg (s.after (s.reader.proceed cfg s.stored s.table)).1 ∧
      (Lossless cfg (s.after (s.reader.proceed cfg s.stored s.table)).1 ↔ ResolvesOwed cfg s) := by
  unfold Reader.proceed
  cases hphase : s.reader.phase with
  | idle =>
    exact proceed_quiet h hconsistent (by rw [hphase]; nofun)
      ⟨rfl, rfl, by rw [hphase]; nofun, .inl rfl⟩
  | connecting =>
    exact proceed_quiet h hconsistent (by rw [hphase]; nofun) ⟨rfl, rfl, nofun, .inl rfl⟩
  | creating =>
    refine proceed_quiet h hconsistent (by rw [hphase]; nofun) ?_
    dsimp only
    split_ifs
    · exact quiet_resume _
    · exact ⟨rfl, rfl, nofun, .inl rfl⟩
  | loading =>
    have hnot : ResolvesOwed cfg s := fun hresolving => by rw [hphase] at hresolving; cases hresolving
    cases hstored : s.stored with
    | none =>
      obtain ⟨hstep, hlossless⟩ := resolveInitial_step h hconsistent
      exact ⟨hstep, iff_of_true hlossless hnot⟩
    | some offset =>
      have hquiet : Quiet _ (s.reader.loadedAt cfg (some offset)) := quiet_resume _
      have hmem : offset ∈ s.positions := mem_positions.mpr (.inr (.inr hstored))
      refine ⟨hconsistent.quiet hquiet, iff_of_true ?_ hnot⟩
      dsimp only
      rw [after_of_events hquiet.events]
      refine h.reader (fun p hp => ?_) fun p hp => ?_
      · cases hquiet.offset.symm.trans hp
        exact hmem
      · cases hquiet.committed.symm.trans hp
        exact hmem
  | resolving => exact maximum_step h hconsistent hphase
  | storing =>
    refine proceed_quiet h hconsistent (by rw [hphase]; nofun) ?_
    dsimp only
    split_ifs
    · exact ⟨rfl, rfl, nofun, .inl rfl⟩
    · exact quiet_beginCycle _
  | deleting => exact proceed_quiet h hconsistent (by rw [hphase]; nofun) (quiet_beginCycle _)
  | querying =>
    have hnot : ResolvesOwed cfg s := fun hresolving => by rw [hphase] at hresolving; cases hresolving
    dsimp only
    split
    · rename_i last hlast
      obtain ⟨hstep, hlossless⟩ := emit_step h hconsistent hlast
      exact ⟨hstep, iff_of_true hlossless hnot⟩
    · refine proceed_quiet h hconsistent (by rw [hphase]; nofun) ?_
      split_ifs
      · exact ⟨rfl, rfl, nofun, .inl rfl⟩
      · exact quiet_finish s.reader
  | waiting =>
    exact proceed_quiet h hconsistent (by rw [hphase]; nofun) ⟨rfl, rfl, nofun, .inl rfl⟩

@[simp] theorem execute_reader : (execute cfg s).reader = s.reader := by
  unfold execute
  split <;> rfl

/-- A call that ends, whether or not its statement took effect. -/
theorem interrupt_iff (h : Lossless cfg s) (hconsistent : Consistent cfg s) (executed : Bool)
    {reader : Reader C T} (hoffset : reader.offset = s.reader.offset)
    (hcommitted : reader.committed = s.reader.committed) (hphase : reader.phase ≠ .resolving) :
    Consistent cfg { (if executed then execute cfg s else s) with reader } ∧
      (Lossless cfg { (if executed then execute cfg s else s) with reader } ↔
        (executed = true → s.reader.phase = .deleting → PrunesOwed cfg s)) := by
  cases executed with
  | false => exact ⟨hconsistent.reader hphase, iff_of_true (h.sameOffsets hoffset hcommitted) nofun⟩
  | true =>
    refine ⟨hconsistent.execute.reader hphase, ?_⟩
    rw [if_pos rfl, sameOffsets_iff (by rw [execute_reader, hoffset]) (by rw [execute_reader, hcommitted]),
      execute_iff h hconsistent]
    exact ⟨fun hprunes _ => hprunes, fun hprunes => hprunes rfl⟩

theorem answer_iff (h : Lossless cfg s) (hconsistent : Consistent cfg s) :
    let t := execute cfg s
    Consistent cfg (t.after (t.reader.proceed cfg t.stored t.table)).1 ∧
      (Lossless cfg (t.after (t.reader.proceed cfg t.stored t.table)).1 ↔ Timely cfg s .answer) := by
  have hexecute := execute_iff h hconsistent
  by_cases hphase : s.reader.phase = .deleting
  · have hproceed : (execute cfg s).reader.proceed cfg (execute cfg s).stored (execute cfg s).table =
        s.reader.beginCycle cfg := by
      rw [execute_reader]
      unfold Reader.proceed
      rw [hphase]
    have hquiet : Quiet s.reader (s.reader.beginCycle cfg) := quiet_beginCycle s.reader
    dsimp only
    rw [hproceed]
    refine ⟨hconsistent.execute.quiet hquiet, ?_⟩
    rw [after_of_events hquiet.events, sameOffsets_iff (by rw [execute_reader, hquiet.offset])
      (by rw [execute_reader, hquiet.committed]), hexecute]
    refine ⟨fun hprunes => ⟨fun hresolving => ?_, hprunes⟩, fun htimely => htimely.2⟩
    rw [hphase] at hresolving
    cases hresolving
  · have hlossless := hexecute.mpr fun hdeleting => absurd hdeleting hphase
    obtain ⟨hstep, hiff⟩ := proceed_iff hlossless hconsistent.execute
    refine ⟨hstep, hiff.trans ?_⟩
    have hsame : s.reader.phase = .resolving → execute cfg s = s := fun hresolving => by
      rw [execute, hresolving]
    constructor
    · refine fun hresolves => ⟨fun hresolving => ?_, fun hdeleting => absurd hdeleting hphase⟩
      rw [ResolvesOwed, hsame hresolving] at hresolves
      exact hresolves hresolving
    · intro htimely hresolving
      rw [execute_reader] at hresolving
      rw [hsame hresolving]
      exact htimely.1 hresolving

/-- A transaction loses nothing exactly when it commits no row that is owed behind an offset. -/
theorem insert_iff (h : Lossless cfg s) (hconsistent : Consistent cfg s) {rows : List (TableRow C T V)}
    (hfresh : Fresh cfg s (.insert rows)) :
    Consistent cfg { s with table := s.table ++ rows, log := s.log ++ rows } ∧
      (Lossless cfg { s with table := s.table ++ rows, log := s.log ++ rows } ↔
        Timely cfg s (.insert rows)) := by
  refine ⟨⟨fun row => ?_, ?_, fun row hrow => List.mem_append_left _ (hconsistent.returned row hrow),
    hconsistent.first, hconsistent.resolving⟩, fun hlossless row hrow howed hpassed => ?_, fun htimely =>
    ⟨fun row hrow howed hpassed => ?_, h.deleted⟩⟩
  · rw [List.mem_append, List.mem_append, hconsistent.log, or_right_comm]
  · rw [List.map_append, List.nodup_append]
    refine ⟨hconsistent.unique, hfresh.1, fun offset hold offset' hnew => ?_⟩
    obtain ⟨other, hother, rfl⟩ := List.mem_map.mp hold
    obtain ⟨row, hrow, rfl⟩ := List.mem_map.mp hnew
    exact (hfresh.2 row hrow other ((hconsistent.log other).mpr (.inl hother))).symm
  · have hreturned := hlossless.returned row (List.mem_append_right _ hrow) howed hpassed
    exact hfresh.2 row hrow row (hconsistent.returned row hreturned) rfl
  · rcases List.mem_append.mp hrow with hrow | hrow
    · exact h.returned row hrow howed hpassed
    · exact absurd hpassed (htimely row hrow howed)

theorem step_iff (h : Lossless cfg s) (hconsistent : Consistent cfg s) {i : Input C T V}
    (hfresh : Fresh cfg s i) :
    ∃ s' events, step cfg s i = .ok (s', events) ∧ Consistent cfg s' ∧ (Lossless cfg s' ↔ Timely cfg s i) := by
  cases i with
  | insert rows => exact ⟨_, _, rfl, insert_iff h hconsistent hfresh⟩
  | setBatchRows rows =>
    exact ⟨_, _, rfl, ⟨hconsistent.log, hconsistent.unique, hconsistent.returned, hconsistent.first,
      hconsistent.resolving⟩, iff_of_true (h.sameOffsets rfl rfl) trivial⟩
  | call =>
    by_cases hidle : s.reader.phase = .idle
    · exact ⟨_, _, if_pos hidle, hconsistent.quiet (quiet_call s.reader),
        iff_of_true (h.quiet (quiet_call s.reader)) trivial⟩
    · exact ⟨s, [], if_neg hidle, hconsistent, iff_of_true h trivial⟩
  | answer => exact ⟨_, _, rfl, answer_iff h hconsistent⟩
  | timeout =>
    by_cases hwaiting : s.reader.phase = .waiting
    · exact ⟨_, _, if_pos hwaiting, hconsistent.quiet (quiet_finish s.reader),
        iff_of_true (h.quiet (quiet_finish s.reader)) trivial⟩
    · exact ⟨s, [], if_neg hwaiting, hconsistent, iff_of_true h trivial⟩
  | fail detail executed =>
    by_cases hidle : s.reader.phase = .idle
    · refine ⟨s, [], if_pos hidle, hconsistent, iff_of_true h fun _ hdeleting => ?_⟩
      rw [hidle] at hdeleting
      cases hdeleting
    · refine ⟨_, _, if_neg hidle, interrupt_iff h hconsistent executed ?_ ?_ nofun⟩
      · cases executed <;> simp
      · cases executed <;> simp
  | refuse error =>
    by_cases hidle : s.reader.phase = .idle
    · exact ⟨s, [], if_pos hidle, hconsistent, iff_of_true h trivial⟩
    · exact ⟨_, _, if_neg hidle, hconsistent.reader nofun, iff_of_true (h.sameOffsets rfl rfl) trivial⟩
  | drop executed =>
    refine ⟨_, _, rfl, interrupt_iff h hconsistent executed ?_ ?_ nofun⟩
    · cases executed <;> simp
    · cases executed <;> simp
  | lose =>
    exact ⟨_, _, rfl, ⟨hconsistent.log, hconsistent.unique, hconsistent.returned, hconsistent.first,
      hconsistent.resolving⟩, iff_of_true (h.sameOffsets rfl rfl) trivial⟩
  | restart =>
    exact ⟨_, _, rfl, hconsistent.reader nofun,
      iff_of_true (h.reader (fun _ hp => nomatch hp) fun _ hp => nomatch hp) trivial⟩

end

/-! ## Whole runs -/

section
variable {C T V : Type} [LinearOrder C] [LinearOrder T] {cfg : Config C T V}

/-- **The outbox is lossless** in every state of a run exactly when its writers and its sessions keep
clear of the offset. -/
theorem lossless_iff {table : List (TableRow C T V)} {inputs : List (Input C T V)}
    (hunique : (table.map (offsetOf cfg)).Nodup)
    (hfresh : EachStep (step cfg) (Fresh cfg) (.start cfg table) inputs) :
    (∀ front, front <+: inputs → ∀ s outs, run (step cfg) (.start cfg table) front = .ok (s, outs) →
        Lossless cfg s) ↔
      EachStep (step cfg) (Timely cfg) (.start cfg table) inputs := by
  refine eachStep_iff_invariant_of_eachStep (J := Consistent cfg)
    (fun s i h hconsistent hfresh => step_iff h hconsistent hfresh) ⟨fun row _ _ hpassed => ?_, nofun⟩ ?_
    hfresh
  · obtain ⟨offset, hmem, -⟩ := hpassed
    rcases mem_positions.mp hmem with hmem | hmem | hmem <;> cases hmem
  · refine ⟨fun row => ?_, hunique, nofun, nofun, nofun⟩
    simp [System.start]

end
namespace Sample

/-- An outbox ordered by a sequence, whose rows are deleted once acknowledged. -/
def outbox : Config Nat Nat Nat where
  table := "outbox"
  offsetTable := "saci_source_offsets"
  tiebreakColumn := true
  whereClause := none
  initial := .beginning
  retention := .deleteAcked
  batchRows := 10
  maxBatchesPerCycle := 0
  notify := none
  build rows := .ok ⟨⟨[]⟩, rows.map fun row => [.int row.value]⟩

def row (n : Nat) : TableRow Nat Nat Nat := ⟨n, 0, n⟩

/-- A call of a reader that has no connection, and the answers up to its read. -/
def firstRead : List (Input Nat Nat Nat) := [.call, .answer, .answer, .answer, .answer]

/-- The second call ends the cycle, and the third persists the offset, deletes and reads. -/
def nextCycle : List (Input Nat Nat Nat) := [.call, .answer, .call, .answer, .answer, .answer]

/-- The transactions commit in the order in which they drew their cursors. -/
def inOrder : List (Input Nat Nat Nat) :=
  .insert [row 1] :: firstRead ++ .insert [row 2] :: nextCycle ++ nextCycle

/-- The transaction that drew 1 commits when the row of the one that drew 2 was read. -/
def outOfOrder : List (Input Nat Nat Nat) := .insert [row 2] :: firstRead ++ .insert [row 1] :: nextCycle

instance (s : System Nat Nat Nat) : (i : Input Nat Nat Nat) → Decidable (Fresh outbox s i)
  | .insert _ => by unfold Fresh; infer_instance
  | .setBatchRows _ | .call | .answer | .timeout | .fail _ _ | .refuse _ | .drop _ | .lose | .restart =>
    .isTrue trivial

theorem lossless_inOrder :
    (∀ front, front <+: inOrder → ∀ s outs, run (step outbox) (.start outbox []) front = .ok (s, outs) →
        Lossless outbox s) ↔
      EachStep (step outbox) (Timely outbox) (.start outbox []) inOrder :=
  lossless_iff List.nodup_nil (by decide)

/-- The row that committed late is deleted, and was never returned. -/
theorem lossless_fails_outOfOrder :
    ∃ s outs, run (step outbox) (.start outbox []) outOfOrder = .ok (s, outs) ∧
      s.log = [row 2, row 1] ∧ s.returned = [row 2] ∧ s.deleted = [row 2, row 1] ∧ s.table = [] ∧
      ¬Lossless outbox s := by
  refine ⟨_, _, rfl, rfl, rfl, rfl, rfl, fun h => ?_⟩
  have hreturned := h.deleted (row 1) (List.mem_cons_of_mem _ List.mem_cons_self)
  cases List.mem_singleton.mp hreturned

end Sample
end Saci.Postgres.Cursor
