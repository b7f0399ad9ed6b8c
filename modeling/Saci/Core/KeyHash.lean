import Mathlib
import Saci.Library.Joined
import Saci.Core.WindowSessions
import Saci.Core.SchemaFingerprint

/-!
# What a key hash tells apart

`compute_key_hash` (`saci-core/src/windows/hash.rs`) hashes the texts of the key columns of a row, each
behind a mark and two of them apart by a zero byte. A text may hold that byte too, so the bytes tell the
keys apart only where one column at most has such texts, and where the cast tells apart the values of
each column (`keysApart_iff`).
-/

namespace Saci

open Joined

/-- Whether a cell can stand in a column of that type. -/
def Cell.isOf : DataType → Cell → Bool
  | _, .null => true
  | .utf8, .text _ => true
  | .binary, .bytes _ => true
  | .boolean, .bool _ => true
  | .float32, .float _ => true
  | .float64, .float _ => true
  | ty, .int _ => !decide (ty ∈ [.utf8, .binary, .boolean, .float32, .float64])
  | _, _ => false

/-- A cell that a cast to text prints. -/
structure WindowArrow.Admits (arrow : WindowArrow) (ty : DataType) (cell : Cell) : Prop where
  isOf : cell.isOf ty = true
  castable : ∃ texts, arrow.castUtf8 ⟨ty, [cell]⟩ = .ok texts

/-- The documented casts to text: a null is a null, a string is itself, bytes are a null where they are
not UTF-8, and no number, date or time has a zero byte in its text. -/
structure WindowArrow.Prints (arrow : WindowArrow) (text : DataType → Cell → Option String) : Prop
    extends arrow.Casts text where
  each : ∀ {ty cells texts}, arrow.castUtf8 ⟨ty, cells⟩ = .ok texts →
    ∀ cell ∈ cells, ∃ texts, arrow.castUtf8 ⟨ty, [cell]⟩ = .ok texts
  strings : ∀ {ty cell}, cell.isOf ty = true → cell = .null ∨ ty = .utf8 ∨ ty = .binary →
    ∃ texts, arrow.castUtf8 ⟨ty, [cell]⟩ = .ok texts
  null : ∀ ty, text ty .null = none
  utf8 : ∀ s, text .utf8 (.text s) = some s
  binary : ∀ bytes : Bytes, text .binary (.bytes bytes) = String.fromUTF8? ⟨bytes.toArray⟩
  plain : ∀ {ty cell s}, ty ≠ .utf8 → ty ≠ .binary → text ty cell = some s → (0 : UInt8) ∉ s.toUTF8.toList

/-- The cast prints the values of a type as different texts, and only a null as a null. -/
def WindowArrow.TellsApart (arrow : WindowArrow) (text : DataType → Cell → Option String) (ty : DataType) :
    Prop :=
  ∀ cell cell', arrow.Admits ty cell → arrow.Admits ty cell' → text ty cell = text ty cell' → cell = cell'

/-! ## The bytes of a row -/

/-- The bytes that `compute_key_hash` hashes, row by row. -/
def hashedBytes (arrow : WindowArrow) (cols : List ArrayRef) : SaciResult (List Bytes) := do
  let texts ← cols.mapM fun col =>
    (arrow.castUtf8 col).mapError fun e => SaciError.generic s!"failed to cast key column to Utf8: {e}"
  return (List.range ((cols.head?.map fun col => col.cells.length).getD 0)).map fun i =>
    keyBytes (texts.map fun text => (text[i]?).join)

theorem computeKeyHash_eq (arrow : WindowArrow) (cols : List ArrayRef) :
    computeKeyHash arrow cols = (hashedBytes arrow cols).map (List.map fnv1a) := by
  rw [computeKeyHash, hashedBytes]
  generalize (cols.mapM fun col => (arrow.castUtf8 col).mapError fun e =>
    SaciError.generic s!"failed to cast key column to Utf8: {e}") = read
  generalize fnv1a = hash
  cases read with
  | error e => rfl
  | ok texts => exact congrArg Except.ok List.map_map.symm

/-- One value, behind its mark. -/
def keyField : Option String → Bytes
  | none => [1]
  | some s => 2 :: s.toUTF8.toList

theorem keyBytes_eq (values : List (Option String)) : keyBytes values = join 0 (values.map keyField) := by
  refine congrArg (fun fields : List Bytes => (fields.intersperse [0]).flatten) ?_
  refine List.map_congr_left fun value _ => ?_
  cases value <;> rfl

theorem keyField_injective : Function.Injective keyField := by
  intro value value' h
  cases value with
  | none =>
    cases value' with
    | none => rfl
    | some s' => cases (List.cons.inj h).1
  | some s =>
    cases value' with
    | none => cases (List.cons.inj h).1
    | some s' =>
      have hbytes := (List.cons.inj h).2
      rw [toList_toUTF8, toList_toUTF8, Array.toList_inj] at hbytes
      exact congrArg some (String.toByteArray_inj.mp (ByteArray.ext hbytes))

/-- The fields of a row of cells. -/
def keyFields (text : DataType → Cell → Option String) (types : List DataType) (row : List Cell) :
    List Bytes :=
  List.zipWith (fun ty cell => keyField (text ty cell)) types row

/-! ## Rows of key columns -/

/-- Key columns of so many rows. -/
structure IsKey (types : List DataType) (rows : Nat) (cols : List ArrayRef) : Prop where
  types : cols.map ArrayRef.dataType = types
  rows : ∀ col ∈ cols, col.cells.length = rows
  cells : ∀ col ∈ cols, ∀ cell ∈ col.cells, cell.isOf col.dataType = true

/-- The key tuple of a row. -/
def keyRow (cols : List ArrayRef) (i : Nat) : List Cell := cols.map fun col => col.cells.getD i .null

/-- Rows over columns of these types are hashed from the same bytes only if their keys are the same. -/
def KeysApart (arrow : WindowArrow) (types : List DataType) : Prop :=
  ∀ {rows rows' cols cols' bytes bytes'}, IsKey types rows cols → IsKey types rows' cols' →
    hashedBytes arrow cols = .ok bytes → hashedBytes arrow cols' = .ok bytes' →
    ∀ {i j key}, bytes[i]? = some key → bytes'[j]? = some key → keyRow cols i = keyRow cols' j

section
variable {arrow : WindowArrow} {text : DataType → Cell → Option String} {types : List DataType}
  {cols : List ArrayRef} {rows i : Nat} {bytes : List Bytes} {key : Bytes} {row : List Cell}

/-- A row is hashed from the fields of its key. -/
theorem hashedBytes_row (hcast : arrow.Casts text) (hkey : IsKey types rows cols)
    (h : hashedBytes arrow cols = .ok bytes) (hi : bytes[i]? = some key) :
    i < rows ∧ key = join 0 (keyFields text types (keyRow cols i)) := by
  obtain ⟨texts, htexts, h⟩ := bind_eq_ok_iff.mp h
  cases h
  have htexts := WindowedSystem.castTexts_eq hcast (forall₂_of_mapM_eq_ok htexts)
  rw [List.getElem?_map, Option.map_eq_some_iff] at hi
  obtain ⟨_, hrange, rfl⟩ := hi
  obtain ⟨hlt, heq⟩ := List.getElem?_eq_some_iff.mp hrange
  rw [List.length_range] at hlt
  rw [List.getElem_range] at heq
  subst heq
  have hrows : i < rows := by
    cases cols with
    | nil => exact absurd hlt (Nat.not_lt_zero i)
    | cons col cols => exact hkey.rows col List.mem_cons_self ▸ hlt
  refine ⟨hrows, ?_⟩
  rw [keyBytes_eq, htexts, keyFields, keyRow, ← hkey.types, List.zipWith_map, List.zipWith_self,
    List.map_map, List.map_map]
  refine congrArg _ (List.map_congr_left fun col hcol => ?_)
  have hcell : i < col.cells.length := hkey.rows col hcol ▸ hrows
  simp [hcell]

/-- The cells of a row that was hashed were cast. -/
theorem admits_keyRow (hprints : arrow.Prints text) (hkey : IsKey types rows cols)
    (h : hashedBytes arrow cols = .ok bytes) (hi : i < rows) :
    List.Forall₂ arrow.Admits types (keyRow cols i) := by
  obtain ⟨texts, htexts, -⟩ := bind_eq_ok_iff.mp h
  have hall := forall₂_of_mapM_eq_ok htexts
  obtain ⟨rfl, hrows, hcells⟩ := hkey
  clear htexts h
  induction hall with
  | nil => exact .nil
  | @cons col colTexts cols texts hcol _ ih =>
    have hlt : i < col.cells.length := hrows col List.mem_cons_self ▸ hi
    have hmem : col.cells.getD i .null ∈ col.cells := by
      rw [List.getD_eq_getElem?_getD, List.getElem?_eq_getElem hlt]
      exact List.getElem_mem hlt
    refine .cons ⟨hcells col List.mem_cons_self _ hmem, ?_⟩
      (ih (fun c hc => hrows c (List.mem_cons_of_mem _ hc)) fun c hc => hcells c (List.mem_cons_of_mem _ hc))
    cases hcast : arrow.castUtf8 col with
    | error e =>
      rw [hcast] at hcol
      cases hcol
    | ok colTexts => exact hprints.each hcast _ hmem

/-! ## Rows of cells -/

/-- Rows of cells are joined to the same bytes only if they are the same. -/
def RowsApart (arrow : WindowArrow) (text : DataType → Cell → Option String) (types : List DataType) : Prop :=
  ∀ row row', List.Forall₂ arrow.Admits types row → List.Forall₂ arrow.Admits types row' →
    join 0 (keyFields text types row) = join 0 (keyFields text types row') → row = row'

/-- Key columns of the one row. -/
def oneRow (types : List DataType) (row : List Cell) : List ArrayRef :=
  List.zipWith (fun ty cell => ⟨ty, [cell]⟩) types row

theorem isKey_oneRow (h : List.Forall₂ arrow.Admits types row) : IsKey types 1 (oneRow types row) := by
  induction h with
  | nil => exact ⟨rfl, fun _ hmem => absurd hmem List.not_mem_nil, fun _ hmem => absurd hmem List.not_mem_nil⟩
  | @cons ty cell types row hcell _ ih =>
    refine ⟨congrArg _ ih.types, ?_, ?_⟩
    · exact List.forall_mem_cons.mpr ⟨rfl, ih.rows⟩
    · exact List.forall_mem_cons.mpr ⟨List.forall_mem_singleton.mpr hcell.isOf, ih.cells⟩

theorem keyRow_oneRow (h : List.Forall₂ arrow.Admits types row) : keyRow (oneRow types row) 0 = row := by
  induction h with
  | nil => rfl
  | @cons ty cell types row _ _ ih => exact congrArg (cell :: ·) ih

theorem hashedBytes_oneRow (hcast : arrow.Casts text) (h : List.Forall₂ arrow.Admits types row)
    (hne : types ≠ []) :
    hashedBytes arrow (oneRow types row) = .ok [join 0 (keyFields text types row)] := by
  have hread : (oneRow types row).mapM (fun col => (arrow.castUtf8 col).mapError fun e =>
      SaciError.generic s!"failed to cast key column to Utf8: {e}") =
        .ok (List.zipWith (fun ty cell => [text ty cell]) types row) := by
    clear hne
    induction h with
    | nil => rfl
    | @cons ty cell types row hcell _ ih =>
      obtain ⟨texts, hcastable⟩ := hcell.castable
      obtain rfl := hcast.texts hcastable
      rw [oneRow, List.zipWith_cons_cons, List.mapM_cons, hcastable]
      rw [oneRow] at ih
      rw [ih]
      rfl
  rw [hashedBytes, hread]
  cases h with
  | nil => exact absurd rfl hne
  | @cons ty cell types row _ hrest =>
    refine congrArg (fun key : Bytes => (Except.ok [key] : SaciResult (List Bytes))) ?_
    dsimp only
    rw [keyBytes_eq, keyFields, List.map_map, List.map_zipWith]
    rfl

/-- Rows of columns are told apart where rows of cells are. -/
theorem keysApart_iff_rowsApart (hprints : arrow.Prints text) :
    KeysApart arrow types ↔ RowsApart arrow text types := by
  constructor
  · intro h row row' hrow hrow' hjoin
    by_cases hne : types = []
    · subst hne
      cases hrow
      cases hrow'
      rfl
    · have hbytes := hashedBytes_oneRow hprints.toCasts hrow hne
      have hbytes' := hashedBytes_oneRow hprints.toCasts hrow' hne
      rw [← keyRow_oneRow hrow, ← keyRow_oneRow hrow']
      exact h (isKey_oneRow hrow) (isKey_oneRow hrow') hbytes hbytes' rfl (congrArg some hjoin.symm)
  · intro h rows rows' cols cols' bytes bytes' hkey hkey' hbytes hbytes' i j key hi hj
    obtain ⟨hlt, hjoin⟩ := hashedBytes_row hprints.toCasts hkey hbytes hi
    obtain ⟨hlt', hjoin'⟩ := hashedBytes_row hprints.toCasts hkey' hbytes' hj
    exact h _ _ (admits_keyRow hprints hkey hbytes hlt) (admits_keyRow hprints hkey' hbytes' hlt')
      (hjoin.symm.trans hjoin')

/-! ## Columns that are told apart -/

/-- Rows with the same fields are the same, where the cast tells the values of each column apart. -/
theorem row_injective (h : ∀ ty ∈ types, arrow.TellsApart text ty) {row' : List Cell}
    (hrow : List.Forall₂ arrow.Admits types row) (hrow' : List.Forall₂ arrow.Admits types row')
    (hfields : keyFields text types row = keyFields text types row') : row = row' := by
  induction hrow generalizing row' with
  | nil =>
    cases hrow'
    rfl
  | @cons ty cell types row hcell _ ih =>
    cases hrow' with
    | @cons _ cell' _ row' hcell' hrow' =>
      obtain ⟨hhead, htail⟩ := List.cons.inj hfields
      obtain ⟨hty, htypes⟩ := List.forall_mem_cons.mp h
      rw [hty cell cell' hcell hcell' (keyField_injective hhead), ih htypes hrow' htail]

/-- What is in a list once is in one place. -/
theorem eq_idxOf_of_count_le_one {a : DataType} (hcount : types.count a ≤ 1) (h : types[i]? = some a) :
    i = types.idxOf a := by
  induction types generalizing i with
  | nil => cases h
  | cons b types ih =>
    by_cases heq : b = a
    · subst heq
      rw [List.count_cons_self] at hcount
      have hnot : b ∉ types := List.count_eq_zero.mp (by omega)
      cases i with
      | zero => exact List.idxOf_cons_self.symm
      | succ i =>
        rw [List.getElem?_cons_succ] at h
        exact absurd (List.mem_of_getElem? h) hnot
    · rw [List.count_cons_of_ne heq] at hcount
      cases i with
      | zero => exact absurd (Option.some.inj h) heq
      | succ i => rw [List.idxOf_cons_ne _ heq, ← ih hcount h]

/-- No field has a zero byte but that of the one column of strings. -/
theorem onlyAt_keyFields (hprints : arrow.Prints text) (hcount : types.count .utf8 ≤ 1)
    (hbinary : .binary ∉ types) : OnlyAt 0 (types.idxOf .utf8) (keyFields text types row) := by
  intro i field hi hfield
  rw [keyFields, List.getElem?_zipWith] at hfield
  cases hty : types[i]? with
  | none =>
    rw [hty] at hfield
    cases hfield
  | some ty =>
    cases hcell : row[i]? with
    | none =>
      rw [hty, hcell] at hfield
      cases hfield
    | some cell =>
      rw [hty, hcell] at hfield
      cases hfield
      have hmem := List.mem_of_getElem? hty
      have hutf8 : ty ≠ .utf8 := by
        rintro rfl
        exact hi (eq_idxOf_of_count_le_one hcount hty)
      have hnot : ty ≠ .binary := fun heq => hbinary (heq ▸ hmem)
      cases htext : text ty cell with
      | none => decide
      | some s =>
        rw [keyField, List.mem_cons]
        rintro (hmark | hzero)
        · cases hmark
        · exact hprints.plain hutf8 hnot htext hzero

theorem tellsApart_utf8 (hprints : arrow.Prints text) : arrow.TellsApart text .utf8 := by
  have hcases : ∀ {cell}, arrow.Admits .utf8 cell → cell = .null ∨ ∃ s, cell = .text s := by
    intro cell hcell
    cases cell with
    | null => exact .inl rfl
    | text s => exact .inr ⟨s, rfl⟩
    | bool _ | float _ | bytes _ => exact absurd hcell.isOf Bool.false_ne_true
    | int _ => exact absurd hcell.isOf (by simp [Cell.isOf])
  intro cell cell' hcell hcell' h
  rcases hcases hcell with rfl | ⟨s, rfl⟩ <;> rcases hcases hcell' with rfl | ⟨s', rfl⟩
  · rfl
  · rw [hprints.null, hprints.utf8] at h
    cases h
  · rw [hprints.null, hprints.utf8] at h
    cases h
  · rw [hprints.utf8, hprints.utf8] at h
    rw [Option.some.inj h]

theorem rowsApart_of (hprints : arrow.Prints text) (hcount : types.count .utf8 ≤ 1)
    (hbinary : .binary ∉ types) (hplain : ∀ ty ∈ types, ty ≠ .utf8 → arrow.TellsApart text ty) :
    RowsApart arrow text types := by
  intro row row' hrow hrow' hjoin
  have hlen : (keyFields text types row).length = (keyFields text types row').length := by
    rw [keyFields, keyFields, List.length_zipWith, List.length_zipWith, ← hrow.length_eq, ← hrow'.length_eq]
  refine row_injective (fun ty hty => ?_) hrow hrow'
    (join_injective hlen (onlyAt_keyFields hprints hcount hbinary)
      (onlyAt_keyFields hprints hcount hbinary) hjoin)
  by_cases hutf8 : ty = .utf8
  · exact hutf8 ▸ tellsApart_utf8 hprints
  · exact hplain ty hty hutf8

/-! ## Columns that are not -/

/-- A null in each column. -/
def nulls (types : List DataType) : List Cell := types.map fun _ => .null

theorem admits_nulls (hprints : arrow.Prints text) (types : List DataType) :
    List.Forall₂ arrow.Admits types (nulls types) := by
  induction types with
  | nil => exact .nil
  | cons ty types ih =>
    have hnull : Cell.isOf ty .null = true := by cases ty <;> rfl
    exact .cons ⟨hnull, hprints.strings hnull (.inl rfl)⟩ ih

theorem keyFields_append (front back : List DataType) {row row' : List Cell}
    (h : front.length = row.length) :
    keyFields text (front ++ back) (row ++ row') = keyFields text front row ++ keyFields text back row' :=
  List.zipWith_append h

theorem keyFields_nulls (hprints : arrow.Prints text) (types : List DataType) :
    keyFields text types (nulls types) = List.replicate types.length [1] := by
  induction types with
  | nil => rfl
  | cons ty types ih =>
    have hfield : keyField (text ty .null) = [1] := by rw [hprints.null, keyField]
    exact congrArg₂ List.cons hfield ih

/-- The values of each column are told apart. -/
theorem tellsApart_of_rowsApart (hprints : arrow.Prints text) (h : RowsApart arrow text types)
    {ty : DataType} (hty : ty ∈ types) : arrow.TellsApart text ty := by
  intro cell cell' hcell hcell' htext
  obtain ⟨front, back, rfl⟩ := List.append_of_mem hty
  have hadmits : ∀ {c}, arrow.Admits ty c →
      List.Forall₂ arrow.Admits (front ++ ty :: back) (nulls front ++ c :: nulls back) := fun hc =>
    List.rel_append (admits_nulls hprints front) (.cons hc (admits_nulls hprints back))
  have hlen : front.length = (nulls front).length := List.length_map _ |>.symm
  have hcons : ∀ c, keyFields text (ty :: back) (c :: nulls back) =
      keyField (text ty c) :: keyFields text back (nulls back) := fun _ => rfl
  have hrows := h _ _ (hadmits hcell) (hadmits hcell') (by
    rw [keyFields_append _ _ hlen, keyFields_append _ _ hlen, hcons, hcons, htext])
  exact (List.cons.inj (List.append_cancel_left hrows)).1

/-- Bytes that are not UTF-8 are cast to a null. -/
theorem not_tellsApart_binary (hprints : arrow.Prints text) : ¬arrow.TellsApart text .binary := by
  intro h
  have hadmits : ∀ {cell}, Cell.isOf .binary cell = true → arrow.Admits .binary cell := fun hof =>
    ⟨hof, hprints.strings hof (.inr (.inr rfl))⟩
  have htext : text .binary (.bytes [255]) = text .binary .null := by
    rw [hprints.binary, hprints.null]
    decide
  cases h _ _ (hadmits rfl) (hadmits rfl) htext

/-- A text of the bytes between a string column and the next, and of the mark behind them. -/
def filler (count : Nat) : String :=
  String.ofList ((List.replicate count ['\x00', '\x01']).flatten ++ ['\x00', '\x02'])

theorem toUTF8_filler (count : Nat) :
    (filler count).toUTF8.toList = (List.replicate count [1]).flatMap ((0 : UInt8) :: ·) ++ 0 :: [2] := by
  have hbytes : ∀ l : List Char, (String.ofList l).toUTF8.toList = l.flatMap String.utf8EncodeChar := by
    intro l
    rw [toList_toUTF8]
    exact List.toList_data_toByteArray
  rw [filler, hbytes, List.flatMap_append]
  refine congrArg₂ _ ?_ rfl
  induction count with
  | zero => rfl
  | succ count ih =>
    rw [List.replicate_succ, List.flatten_cons, List.flatMap_append, ih]
    rfl

/-- Strings in two columns trade places unseen. -/
theorem not_rowsApart (hprints : arrow.Prints text) (front mid back : List DataType) :
    ¬RowsApart arrow text (front ++ .utf8 :: (mid ++ .utf8 :: back)) := by
  intro h
  have hadmits : ∀ s, arrow.Admits .utf8 (.text s) := fun s => ⟨rfl, hprints.strings rfl (.inr (.inl rfl))⟩
  have hrow : ∀ s s', List.Forall₂ arrow.Admits (front ++ .utf8 :: (mid ++ .utf8 :: back))
      (nulls front ++ .text s :: (nulls mid ++ .text s' :: nulls back)) := fun s s' =>
    List.rel_append (admits_nulls hprints front) (.cons (hadmits s)
      (List.rel_append (admits_nulls hprints mid) (.cons (hadmits s') (admits_nulls hprints back))))
  have hlen : ∀ types : List DataType, types.length = (nulls types).length := fun types =>
    (List.length_map _).symm
  have hfields : ∀ s s', keyFields text (front ++ .utf8 :: (mid ++ .utf8 :: back))
      (nulls front ++ .text s :: (nulls mid ++ .text s' :: nulls back)) =
        List.replicate front.length [1] ++ (2 :: s.toUTF8.toList) ::
          (List.replicate mid.length [1] ++ (2 :: s'.toUTF8.toList) :: List.replicate back.length [1]) := by
    intro s s'
    have hcons : ∀ (types : List DataType) (s : String) (row : List Cell),
        keyFields text (.utf8 :: types) (.text s :: row) = (2 :: s.toUTF8.toList) :: keyFields text types row := by
      intro types s row
      rw [keyFields, List.zipWith_cons_cons, hprints.utf8]
      rfl
    rw [keyFields_append _ _ (hlen front), hcons, keyFields_append _ _ (hlen mid), hcons,
      keyFields_nulls hprints, keyFields_nulls hprints, keyFields_nulls hprints]
  have hempty : (2 :: "".toUTF8.toList : Bytes) = [2] := by rw [toList_toUTF8]; rfl
  have hlong : (2 :: (filler mid.length).toUTF8.toList : Bytes) =
      [2] ++ ((List.replicate mid.length [1]).flatMap ((0 : UInt8) :: ·) ++ 0 :: [2]) := by
    rw [toUTF8_filler]
    rfl
  have hrows := h _ _ (hrow "" (filler mid.length)) (hrow (filler mid.length) "") (by
    rw [hfields, hfields, hempty, hlong]
    exact join_swap _ _ _ _)
  have htext : (Cell.text "") = .text (filler mid.length) :=
    (List.cons.inj (List.append_cancel_left hrows)).1
  have hbytes := congrArg (fun s : String => (2 :: s.toUTF8.toList : Bytes).length) (Cell.text.inj htext)
  rw [hempty, hlong] at hbytes
  simp at hbytes

/-- **Two columns of strings, or one of bytes, are not told apart**; other columns are wherever the cast
tells the values of each of them apart. -/
theorem keysApart_iff (hprints : arrow.Prints text) (types : List DataType) :
    KeysApart arrow types ↔
      types.count .utf8 ≤ 1 ∧ .binary ∉ types ∧ ∀ ty ∈ types, ty ≠ .utf8 → arrow.TellsApart text ty := by
  rw [keysApart_iff_rowsApart hprints]
  constructor
  · intro h
    refine ⟨?_, fun hbinary => not_tellsApart_binary hprints (tellsApart_of_rowsApart hprints h hbinary),
      fun ty hty _ => tellsApart_of_rowsApart hprints h hty⟩
    by_contra hcount
    obtain ⟨front, rest, rfl, hfront⟩ := List.eq_append_cons_of_mem
      (List.count_pos_iff.mp (show 0 < types.count .utf8 by omega))
    rw [List.count_append, List.count_eq_zero.mpr hfront, List.count_cons_self] at hcount
    obtain ⟨mid, back, rfl⟩ := List.append_of_mem
      (List.count_pos_iff.mp (show 0 < rest.count .utf8 by omega))
    exact not_rowsApart hprints front mid back h
  · rintro ⟨hcount, hbinary, hplain⟩
    exact rowsApart_of hprints hcount hbinary hplain

end

/-! ## A cast of strings, bytes and booleans -/

namespace KeyHash.Sample

def text : DataType → Cell → Option String
  | .utf8, .text s => some s
  | .binary, .bytes bytes => String.fromUTF8? ⟨bytes.toArray⟩
  | .boolean, .bool true => some "true"
  | .boolean, .bool false => some "false"
  | _, _ => none

/-- Other values are refused here. -/
def casts (ty : DataType) (cell : Cell) : Bool :=
  cell.isOf ty && (decide (cell = .null) || decide (ty ∈ [.utf8, .binary, .boolean]))

def arrow : WindowArrow where
  castUtf8 col :=
    if ∀ cell ∈ col.cells, casts col.dataType cell = true then .ok (col.cells.map (text col.dataType))
    else .error "unsupported"
  lexsort keys := List.range keys.length
  reduce _ _ := 0

theorem prints : arrow.Prints text where
  texts {col texts} h := by
    simp only [arrow] at h
    split_ifs at h
    exact (Except.ok.inj h).symm
  each {ty cells texts} h cell hcell := by
    simp only [arrow] at h
    split_ifs at h with hall
    exact ⟨_, if_pos fun c hc => List.mem_singleton.mp hc ▸ hall cell hcell⟩
  strings {ty cell} hof h := by
    refine ⟨_, if_pos fun c hc => ?_⟩
    rw [List.mem_singleton.mp hc, casts, hof]
    rcases h with rfl | rfl | rfl
    · rfl
    · simp
    · simp
  null ty := by cases ty <;> rfl
  utf8 _ := rfl
  binary _ := rfl
  plain {ty cell s} hutf8 hbinary h := by
    rw [toList_toUTF8]
    unfold text at h
    split at h
    · exact absurd rfl hutf8
    · exact absurd rfl hbinary
    · cases h
      decide
    · cases h
      decide
    · cases h

theorem tellsApart_boolean : arrow.TellsApart text .boolean := by
  have hcases : ∀ {cell}, arrow.Admits .boolean cell → cell = .null ∨ cell = .bool true ∨ cell = .bool false := by
    intro cell hcell
    cases cell with
    | null => exact .inl rfl
    | bool b => cases b <;> simp
    | text _ | float _ | bytes _ => exact absurd hcell.isOf Bool.false_ne_true
    | int _ => exact absurd hcell.isOf (by simp [Cell.isOf])
  intro cell cell' hcell hcell' h
  rcases hcases hcell with rfl | rfl | rfl <;> rcases hcases hcell' with rfl | rfl | rfl
  all_goals first | rfl | exact absurd h (by decide)

theorem keysApart_text_boolean : KeysApart arrow [.utf8, .boolean] :=
  (keysApart_iff prints [.utf8, .boolean]).mpr ⟨by decide, by decide, fun ty hty hutf8 => by
    rcases List.mem_pair.mp hty with rfl | rfl
    · exact absurd rfl hutf8
    · exact tellsApart_boolean⟩

/-- A zero byte and a mark within a text pass for the end of a field. -/
theorem separator_within_text :
    hashedBytes arrow [⟨.utf8, [.text "a\x00\x02b"]⟩, ⟨.utf8, [.text "c"]⟩] =
        hashedBytes arrow [⟨.utf8, [.text "a"]⟩, ⟨.utf8, [.text "b\x00\x02c"]⟩] ∧
      ¬KeysApart arrow [.utf8, .utf8] := by
  have hadmits : ∀ s, arrow.Admits .utf8 (.text s) := fun s =>
    ⟨rfl, prints.strings rfl (.inr (.inl rfl))⟩
  have hrow : ∀ s s', List.Forall₂ arrow.Admits [.utf8, .utf8] [.text s, .text s'] := fun s s' =>
    .cons (hadmits s) (.cons (hadmits s') .nil)
  have hne : [DataType.utf8, DataType.utf8] ≠ [] := List.cons_ne_nil _ _
  have hleft := hashedBytes_oneRow prints.toCasts (hrow "a\x00\x02b" "c") hne
  have hright := hashedBytes_oneRow prints.toCasts (hrow "a" "b\x00\x02c") hne
  have hjoin : join 0 (keyFields text [.utf8, .utf8] [.text "a\x00\x02b", .text "c"]) =
      join 0 (keyFields text [.utf8, .utf8] [.text "a", .text "b\x00\x02c"]) := by
    simp only [keyFields, text, keyField, List.zipWith_cons_cons, List.zipWith_nil_left, toList_toUTF8]
    decide
  refine ⟨hleft.trans (hjoin ▸ hright.symm), fun h => ?_⟩
  have hrows : keyRow [⟨.utf8, [.text "a\x00\x02b"]⟩, ⟨.utf8, [.text "c"]⟩] 0 =
      keyRow [⟨.utf8, [.text "a"]⟩, ⟨.utf8, [.text "b\x00\x02c"]⟩] 0 :=
    h (isKey_oneRow (hrow _ _)) (isKey_oneRow (hrow _ _)) hleft hright rfl (congrArg some hjoin.symm)
  exact absurd hrows (by decide)

end KeyHash.Sample

end Saci
