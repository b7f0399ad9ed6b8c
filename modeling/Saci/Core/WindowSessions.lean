import Saci.Core.WindowFates

/-!
# The groups of a windowed run

What the groups of a run are, said of its rows alone: the hash of a group is that of the keys of its rows,
and the number of a session is how many sessions of the run come before it, in the order of their keys and
times.
-/

namespace Saci

namespace WindowSpec

/-- `WindowSpec::validate`. -/
def validate : WindowSpec → Except String Unit
  | .tumbling sizeMs _ =>
    if sizeMs ≤ 0 then .error s!"tumbling window size_ms must be > 0, got {sizeMs}" else .ok ()
  | .session gapMs =>
    if gapMs ≤ 0 then .error s!"session window gap_ms must be > 0, got {gapMs}" else .ok ()
  | .sliding sizeMs slideMs _ =>
    if sizeMs ≤ 0 then .error s!"sliding window size_ms must be > 0, got {sizeMs}"
    else if slideMs ≤ 0 then .error s!"sliding window slide_ms must be > 0, got {slideMs}"
    else if sizeMs < slideMs then
      .error s!"sliding window slide_ms ({slideMs}) must be <= size_ms ({sizeMs})"
    else .ok ()

/-- The spec puts its windows a positive distance apart. -/
def IsApart : WindowSpec → Prop
  | .tumbling sizeMs _ => 0 < sizeMs
  | .session gapMs => 0 < gapMs
  | .sliding _ slideMs _ => 0 < slideMs

theorem isApart_of_validate {spec : WindowSpec} (h : spec.validate = .ok ()) : spec.IsApart := by
  cases spec with
  | tumbling sizeMs offsetMs =>
    rw [validate] at h
    split_ifs at h with hsize
    exact not_le.mp hsize
  | session gapMs =>
    rw [validate] at h
    split_ifs at h with hgap
    exact not_le.mp hgap
  | sliding sizeMs slideMs offsetMs =>
    rw [validate] at h
    split_ifs at h with hsize hslide
    exact not_le.mp hslide

end WindowSpec

/-- Arrow casts a column value by value. -/
structure WindowArrow.Casts (arrow : WindowArrow) (text : DataType → Cell → Option String) : Prop where
  texts : ∀ {col texts}, arrow.castUtf8 col = .ok texts → texts = col.cells.map (text col.dataType)

namespace WindowedSystem

/-! ## Keys -/

/-- The key of a row: the texts of its key fields. -/
def keyOf (sys : WindowedSystem) (text : DataType → Cell → Option String) (schema : Schema)
    (row : WindowRow) : List (Option String) :=
  sys.keyFields.map fun field =>
    (schema.indexOf field).bind fun idx =>
      text (((schema.fields[idx]?).map Field.dataType).getD .int64) (row.cells.getD idx .null)

/-- The hash of a key, zero where there are no key fields. -/
def hashOf (sys : WindowedSystem) (key : List (Option String)) : Int :=
  if sys.keyFields.isEmpty then 0 else fnv1a (keyBytes key)

variable {sys : WindowedSystem} {arrow : WindowArrow} {text : DataType → Cell → Option String}
  {schema : Schema} {rows : List WindowRow} {hashes : List Int}

theorem castTexts_eq (hcast : arrow.Casts text) {cols : List ArrayRef} {texts : List (List (Option String))}
    (h : List.Forall₂ (fun col texts => ((arrow.castUtf8 col).mapError fun e =>
      SaciError.generic s!"failed to cast key column to Utf8: {e}") = .ok texts) cols texts) :
    texts = cols.map fun col => col.cells.map (text col.dataType) := by
  induction h with
  | nil => rfl
  | @cons col colTexts cols texts hcol _ ih =>
    rw [List.map_cons, ← ih]
    cases hread : arrow.castUtf8 col with
    | error e =>
      rw [hread] at hcol
      cases hcol
    | ok colTexts =>
      rw [hread] at hcol
      cases hcol
      rw [hcast.texts hread]

/-- The column of a key field has the field's cell of every row. -/
theorem keyColumns_eq {cols : List ArrayRef} (h : sys.keyColumns schema rows = .ok cols) :
    ∀ i (hi : i < rows.length),
      cols.map (fun col => (col.cells[i]?).bind (text col.dataType)) = sys.keyOf text schema rows[i] := by
  intro i hi
  have hall := forall₂_of_mapM_eq_ok h
  clear h
  rw [keyOf]
  generalize sys.keyFields = fields at hall
  induction hall with
  | nil => rfl
  | @cons field col fields cols hcol _ ih =>
    rw [List.map_cons, List.map_cons, ih]
    refine congrArg₂ _ ?_ rfl
    split at hcol
    · cases hcol
    · rename_i idx hidx
      cases hcol
      rw [hidx, Option.bind_some, List.getElem?_map, List.getElem?_eq_getElem hi]
      rfl

theorem length_keyColumn {cols : List ArrayRef} (hkeys : sys.keyFields ≠ [])
    (h : sys.keyColumns schema rows = .ok cols) :
    (cols.head?.map fun col => col.cells.length).getD 0 = rows.length := by
  have hall := forall₂_of_mapM_eq_ok h
  cases hfields : sys.keyFields with
  | nil => exact absurd hfields hkeys
  | cons field fields =>
    rw [hfields] at hall
    cases hall with
    | cons hcol _ =>
      split at hcol
      · cases hcol
      · cases hcol
        exact List.length_map ..

theorem map_range_eq {α β : Type} {l : List α} {f : Nat → β} {g : α → β}
    (h : ∀ i (hi : i < l.length), f i = g l[i]) : (List.range l.length).map f = l.map g := by
  have hlength : ((List.range l.length).map f).length = (l.map g).length := by
    rw [List.length_map, List.length_map, List.length_range]
  refine List.ext_getElem hlength fun i _ hi => ?_
  rw [List.getElem_map, List.getElem_map, List.getElem_range]
  exact h i _

/-- Every row is under the hash of its own key. -/
theorem keyHashes_eq (hcast : arrow.Casts text) (h : sys.keyHashes arrow schema rows = .ok hashes) :
    hashes = rows.map fun row => sys.hashOf (sys.keyOf text schema row) := by
  unfold keyHashes at h
  unfold hashOf
  split_ifs at h ⊢ with hempty
  · cases h
    rfl
  · obtain ⟨cols, hcols, h⟩ := bind_eq_ok_iff.mp h
    obtain ⟨texts, htexts, h⟩ := bind_eq_ok_iff.mp h
    cases h
    rw [castTexts_eq hcast (forall₂_of_mapM_eq_ok htexts),
      length_keyColumn (fun hnil => hempty (List.isEmpty_iff.mpr hnil)) hcols]
    refine map_range_eq (g := fun row => fnv1a (keyBytes (sys.keyOf text schema row))) fun i hi => ?_
    have hkey : (cols.map fun col => col.cells.map (text col.dataType)).map (fun texts => (texts[i]?).join) =
        sys.keyOf text schema rows[i] := by
      rw [← keyColumns_eq hcols i hi, List.map_map]
      refine List.map_congr_left fun col _ => ?_
      rw [Function.comp_apply, List.getElem?_map]
      cases col.cells[i]? <;> rfl
    rw [hkey]

/-- Keys may have one hash: the zero byte that parts their values may be in a value. -/
example : keyBytes [some "x\x00\x02y", some "z"] = keyBytes [some "x", some "y\x00\x02z"] := by
  decide +kernel

/-! ## Sessions -/

/-- The order of keys and times. -/
def KeyTimeLE (a b : Int × Int) : Prop := a.1 < b.1 ∨ a.1 = b.1 ∧ a.2 ≤ b.2

instance : DecidableRel KeyTimeLE := fun _ _ => inferInstanceAs (Decidable (_ ∨ _))

theorem keyTimeLE_iff {a b : Int × Int} : KeyTimeLE a b ↔ toLex a ≤ toLex b := Prod.Lex.toLex_le_toLex.symm

instance : Std.Antisymm KeyTimeLE where
  antisymm _ _ hab hba := toLex.injective (le_antisymm (keyTimeLE_iff.mp hab) (keyTimeLE_iff.mp hba))

instance : IsTrans (Int × Int) KeyTimeLE where
  trans _ _ _ hab hbc := keyTimeLE_iff.mpr ((keyTimeLE_iff.mp hab).trans (keyTimeLE_iff.mp hbc))

instance : Std.Total KeyTimeLE where
  total a b := by
    rw [keyTimeLE_iff, keyTimeLE_iff]
    exact le_total _ _

/-- How many sessions come before that of `p`, of rows in the order of their keys and times. -/
def sessionRank (gapMs : Int) : List (Int × Int) → Int × Int → Nat
  | a :: b :: rest, p =>
    if p = a then 0
    else (if b.1 ≠ a.1 ∨ gapMs < wrapI64 (b.2 - a.2) then 1 else 0) + sessionRank gapMs (b :: rest) p
  | _, _ => 0

theorem sessionRank_head (gapMs : Int) (a : Int × Int) (rest : List (Int × Int)) :
    sessionRank gapMs (a :: rest) a = 0 := by
  cases rest with
  | nil => rfl
  | cons b rest => exact if_pos rfl

/-- The number of a session is its rank. -/
theorem sessionIds_getElem? {gapMs : Int} (hgap : 0 < gapMs) {sorted : List (Int × Int)}
    (hsorted : sorted.Pairwise KeyTimeLE) (id : Int) {i : Nat} {p : Int × Int} (h : sorted[i]? = some p) :
    (sessionIds gapMs id sorted)[i]? = some (id + sessionRank gapMs sorted p) := by
  fun_induction sessionIds gapMs id sorted generalizing i with
  | case1 => cases h
  | case2 id a =>
    obtain ⟨rfl, rfl⟩ : i = 0 ∧ a = p := by
      cases i with
      | zero => exact ⟨rfl, Option.some.inj h⟩
      | succ i => cases h
    exact congrArg some (Int.add_zero id).symm
  | case3 id key ts key' ts' rest ih =>
    cases i with
    | zero =>
      obtain rfl := Option.some.inj h
      rw [sessionRank_head]
      exact congrArg some (Int.add_zero id).symm
    | succ i =>
      rw [List.getElem?_cons_succ] at h ⊢
      obtain ⟨hhead, hrest⟩ := List.pairwise_cons.mp hsorted
      rw [ih hrest h]
      by_cases hp : p = (key, ts)
      · -- rows of one key and time are in one session
        have hle : KeyTimeLE (key', ts') p := by
          rcases List.mem_cons.mp (List.mem_of_getElem? h) with rfl | hmem
          · exact .inr ⟨rfl, le_refl _⟩
          · exact (List.pairwise_cons.mp hrest).1 p hmem
        have hnext : (key', ts') = p := antisymm hle (hp ▸ hhead _ List.mem_cons_self)
        subst hp
        cases hnext
        have hstay : ¬(key ≠ key ∨ gapMs < wrapI64 (ts - ts)) := by
          rw [Int.sub_self]
          rintro (hne | hlt)
          · exact hne rfl
          · exact absurd hlt (not_lt.mpr hgap.le)
        rw [if_neg hstay, sessionRank_head, sessionRank_head]
      · rw [sessionRank, if_neg hp]
        split_ifs
        · congr 1
          push_cast
          omega
        · congr 1
          push_cast
          omega

/-- Rows by their keys and times. -/
def keyTimes (sys : WindowedSystem) (text : DataType → Cell → Option String) (schema : Schema)
    (rows : List WindowRow) : List (Int × Int) :=
  rows.map fun row => (sys.hashOf (sys.keyOf text schema row), row.timeMs)

/-- Whatever sorts the rows puts them in one order. -/
theorem lexsort_eq (harrow : arrow.Sorts) (keys : List (Int × Int)) :
    (arrow.lexsort keys).filterMap (keys[·]?) = keys.insertionSort KeyTimeLE := by
  have hperm := (harrow.perm keys).filterMap (keys[·]?)
  rw [filterMap_range_getElem?] at hperm
  exact (hperm.trans (List.perm_insertionSort KeyTimeLE keys).symm).eq_of_pairwise' (r := KeyTimeLE)
    (harrow.sorted keys) (List.pairwise_insertionSort KeyTimeLE keys)

/-- The sorted rows are the rows at the sorted positions. -/
theorem sorted_getElem? (harrow : arrow.Sorts) (keys : List (Int × Int)) (i : Nat) :
    ((arrow.lexsort keys).filterMap (keys[·]?))[i]? = (arrow.lexsort keys)[i]?.bind (keys[·]?) := by
  refine getElem?_filterMap (fun j hj => ?_) i
  have hj := List.mem_range.mp ((harrow.perm keys).mem_iff.mp hj)
  exact ⟨_, List.getElem?_eq_getElem hj⟩

/-- The position of a row among the sorted ones. -/
theorem getElem?_lexsort (harrow : arrow.Sorts) {keys : List (Int × Int)} {i : Nat} {p : Int × Int}
    (h : keys[i]? = some p) :
    ((arrow.lexsort keys).filterMap (keys[·]?))[(arrow.lexsort keys).idxOf i]? = some p := by
  have hi : i < keys.length := (List.getElem?_eq_some_iff.mp h).1
  have hmem : i ∈ arrow.lexsort keys := (harrow.perm keys).mem_iff.mpr (List.mem_range.mpr hi)
  rw [sorted_getElem? harrow, List.getElem?_eq_getElem (List.idxOf_lt_length_of_mem hmem),
    List.getElem_idxOf, Option.bind_some, h]

theorem assignSessions_getElem? (harrow : arrow.Sorts) {gapMs : Int} (hgap : 0 < gapMs)
    {keys : List (Int × Int)} {i : Nat} {p : Int × Int} (h : keys[i]? = some p) :
    (assignSessions arrow keys gapMs)[i]? = some (sessionRank gapMs (keys.insertionSort KeyTimeLE) p : Int) := by
  have hi : i < keys.length := (List.getElem?_eq_some_iff.mp h).1
  rw [assignSessions, List.getElem?_map, List.getElem?_range hi, Option.map_some]
  have hid := sessionIds_getElem? hgap (harrow.sorted keys) 0 (getElem?_lexsort harrow h)
  rw [hid, Option.getD_some, lexsort_eq harrow, Int.zero_add]

/-! ## Groups -/

variable {placed : List PlacedRow}

/-- A row is placed under the hash of its key, and in a session by its rank. -/
def IsPlaced (sys : WindowedSystem) (text : DataType → Cell → Option String) (schema : Schema)
    (rows : List WindowRow) (p : PlacedRow) : Prop :=
  p.keyHash = sys.hashOf (sys.keyOf text schema p.row) ∧
    ∀ gapMs, sys.spec = .session gapMs →
      p.windowId = sessionRank gapMs ((sys.keyTimes text schema rows).insertionSort KeyTimeLE)
        (p.keyHash, p.row.timeMs)

theorem isPlaced_place (harrow : arrow.Sorts) (hcast : arrow.Casts text) (hspec : sys.spec.IsApart)
    (h : sys.place arrow schema rows = .ok placed) : ∀ p ∈ placed, sys.IsPlaced text schema rows p := by
  intro p hp
  unfold place at h
  unfold IsPlaced
  cases htype : sys.spec with
  | tumbling sizeMs offsetMs =>
    rw [htype] at h
    obtain ⟨hashes, hhashes, h⟩ := bind_eq_ok_iff.mp h
    cases h
    obtain ⟨i, hi, rfl⟩ := List.getElem_of_mem hp
    rw [List.getElem_zipWith]
    simp only [keyHashes_eq hcast hhashes, List.getElem_map]
    exact ⟨trivial, nofun⟩
  | session gapMs =>
    rw [htype] at h
    obtain ⟨hashes, hhashes, h⟩ := bind_eq_ok_iff.mp h
    cases h
    obtain rfl := keyHashes_eq hcast hhashes
    have hkeys : (rows.map fun row => sys.hashOf (sys.keyOf text schema row)).zip (rows.map WindowRow.timeMs) =
        sys.keyTimes text schema rows := by
      rw [List.zip_map', keyTimes]
    obtain ⟨i, hi, rfl⟩ := List.getElem_of_mem hp
    rw [List.getElem_zipWith, List.getElem_zip, List.getElem_map]
    refine ⟨rfl, fun gapMs' hsame => ?_⟩
    cases hsame
    rw [htype] at hspec
    simp only [List.length_zipWith, List.length_zip] at hi
    have hkey : (sys.keyTimes text schema rows)[i]? =
        some (sys.hashOf (sys.keyOf text schema rows[i]), rows[i].timeMs) := by
      rw [keyTimes, List.getElem?_map, List.getElem?_eq_getElem (by omega), Option.map_some]
    have hid := assignSessions_getElem? harrow hspec hkey
    simp only [hkeys]
    exact Option.some.inj ((List.getElem?_eq_getElem _).symm.trans hid)
  | sliding sizeMs slideMs offsetMs =>
    rw [htype] at h
    dsimp only at h
    split_ifs at h
    obtain ⟨hashes, hhashes, h⟩ := bind_eq_ok_iff.mp h
    cases h
    obtain ⟨i, hi, rfl⟩ := List.getElem_of_mem hp
    rw [List.getElem_zipWith]
    simp only [keyHashes_eq hcast hhashes, List.getElem_map]
    exact ⟨trivial, nofun⟩

/-- Of sorted rows, what is put in groups by its neighbours is in a group by itself. -/
theorem pairwise_of_chain {L : List (List PlacedRow)}
    (hsorted : L.flatten.Pairwise fun a b => KeyTimeLE a.group b.group) (hone : ∀ g ∈ L, OneGroup g)
    (hchain : L.IsChain fun g g' => ∃ h h', (g.getLast h).group ≠ (g'.head h').group) :
    L.Pairwise fun g g' => ∀ a ∈ g, ∀ b ∈ g', a.group ≠ b.group := by
  induction L with
  | nil => exact .nil
  | cons g L ih =>
    rw [List.flatten_cons, List.pairwise_append] at hsorted
    obtain ⟨-, hrest, hcross⟩ := hsorted
    refine List.pairwise_cons.mpr ⟨fun g' hg' a ha b hb hsame => ?_,
      ih hrest (fun g hg => hone g (List.mem_cons_of_mem _ hg)) hchain.of_cons⟩
    cases L with
    | nil => cases hg'
    | cons next L =>
      obtain ⟨hlast, hhead, hne⟩ := (List.isChain_cons_cons.mp hchain).1
      have hbflat : b ∈ (next :: L).flatten := List.mem_flatten.mpr ⟨g', hg', hb⟩
      have hfirst : next.head hhead ∈ (next :: L).flatten :=
        List.mem_flatten.mpr ⟨next, List.mem_cons_self, List.head_mem hhead⟩
      have hle := hcross _ (List.getLast_mem hlast) _ hfirst
      -- the first row of the next group is no later than `b`
      have hle' : KeyTimeLE (next.head hhead).group b.group := by
        rcases List.mem_cons.mp hg' with rfl | hmem
        · rw [hone g' (List.mem_cons_of_mem _ List.mem_cons_self) _ (List.head_mem hhead) b hb]
          exact .inr ⟨rfl, le_refl _⟩
        · rw [List.flatten_cons, List.pairwise_append] at hrest
          exact hrest.2.2 _ (List.head_mem hhead) b (List.mem_flatten.mpr ⟨g', hmem, hb⟩)
      have hback := hone g List.mem_cons_self _ (List.getLast_mem hlast) a ha
      exact hne (antisymm hle (by rw [hback, hsame]; exact hle'))

/-- The rows of one group are not of another. -/
theorem pairwise_groups (harrow : arrow.Sorts) (placed : List PlacedRow) :
    (groups arrow placed).Pairwise fun g g' => ∀ a ∈ g, ∀ b ∈ g', a.group ≠ b.group := by
  refine pairwise_of_chain ?_ (fun g hg => oneGroup_of_mem_groups hg) ?_
  · have hkeys := harrow.sorted (placed.map PlacedRow.group)
    rw [groups, List.flatten_splitBy]
    simp only [List.getElem?_map, ← List.map_filterMap] at hkeys
    exact List.pairwise_map.mp hkeys
  · refine (List.isChain_getLast_head_splitBy _ _).imp fun g g' => ?_
    rintro ⟨h, h', hne⟩
    exact ⟨h, h', of_decide_eq_false hne⟩

end WindowedSystem
end Saci
