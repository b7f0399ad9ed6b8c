import Saci.Core.WindowLateness
import Saci.Library.Segments

/-!
# Sessions as chains

`assign_sessions` (`session.rs`) sorts the rows by key and time and scans them once. What it comes to has
nothing to do with the order of the rows: two rows are in one session exactly if a chain of rows of their
key leads from one to the other, each no further from the next than the gap (`sessions_by_chain`).
-/

namespace Saci
namespace WindowedSystem

/-- `assign_sessions`, over a column of timestamps and the key columns beside it. -/
def assignSessionColumns (arrow : WindowArrow) (times : List Int) (cols : List ArrayRef) (gapMs : Int) :
    SaciResult (List Int) :=
  if times.isEmpty then .ok []
  else do
    let hashes ← if cols.isEmpty then .ok (times.map fun _ => 0) else computeKeyHash arrow cols
    .ok (assignSessions arrow (hashes.zip times) gapMs)

variable {arrow : WindowArrow} {text : DataType → Cell → Option String} {gapMs : Int}
  {keys : List (Int × Int)} {times : List Int} {cols : List ArrayRef} {ids : List Int}

/-! ## Sorted rows -/

/-- Neighbours in two sessions. -/
def isBreak (gapMs : Int) (a b : Int × Int) : Bool :=
  decide (b.1 ≠ a.1 ∨ gapMs < wrapI64 (b.2 - a.2))

/-- Rows of one key, no further apart than the gap. -/
def Near (gapMs : Int) (a b : Int × Int) : Prop :=
  a.1 = b.1 ∧ b.2 - a.2 ≤ gapMs ∧ a.2 - b.2 ≤ gapMs

/-- The times of the rows differ by no more than fits an `i64`. -/
def Differ (keys : List (Int × Int)) : Prop := ∀ a ∈ keys, ∀ b ∈ keys, b.2 - a.2 ≤ I64_MAX

theorem sessionIds_eq_number (gapMs id : Int) (sorted : List (Int × Int)) :
    sessionIds gapMs id sorted = Segments.number (isBreak gapMs) id sorted := by
  fun_induction sessionIds gapMs id sorted with
  | case1 => rfl
  | case2 => rfl
  | case3 id key ts key' ts' rest ih =>
    rw [Segments.number, ih]
    simp only [isBreak, decide_eq_true_eq]

theorem isBreak_iff {a b : Int × Int} (hle : KeyTimeLE a b) (hfits : b.2 - a.2 ≤ I64_MAX) :
    isBreak gapMs a b = false ↔ Near gapMs a b := by
  rw [isBreak, decide_eq_false_iff_not, Near, KeyTimeLE] at *
  by_cases hkey : b.1 = a.1
  · have hpos : 0 ≤ b.2 - a.2 := by omega
    rw [wrapI64_eq_self (by rw [I64_MIN]; omega) hfits]
    omega
  · exact iff_of_false (fun h => h (.inl hkey)) fun h => hkey h.1.symm

/-- Sorted rows are separated by the breaks between sessions. -/
theorem separated_sorted {sorted : List (Int × Int)} (hsorted : sorted.Pairwise KeyTimeLE)
    (hdiffer : Differ sorted) : Segments.Separated (isBreak gapMs) (Near gapMs) sorted where
  symm h := ⟨h.1.symm, h.2.2, h.2.1⟩
  joins {r a b} ha hb hjoined := by
    obtain ⟨hr, rfl⟩ := List.getElem?_eq_some_iff.mp ha
    obtain ⟨hr', rfl⟩ := List.getElem?_eq_some_iff.mp hb
    have hle := List.pairwise_iff_getElem.mp hsorted r (r + 1) hr hr' (Nat.lt_succ_self r)
    exact (isBreak_iff hle (hdiffer _ (List.getElem_mem hr) _ (List.getElem_mem hr'))).mp hjoined
  parts {i j} hij := by
    rintro ⟨r, hir, hrj, a, b, ha, hb, hbreak⟩ ⟨first, last, hfirst, hlast, hnear⟩
    obtain ⟨hi, rfl⟩ := List.getElem?_eq_some_iff.mp hfirst
    obtain ⟨hj, rfl⟩ := List.getElem?_eq_some_iff.mp hlast
    obtain ⟨hr, rfl⟩ := List.getElem?_eq_some_iff.mp ha
    obtain ⟨hr', rfl⟩ := List.getElem?_eq_some_iff.mp hb
    have hordered : ∀ {p q : Nat} (hp : p < sorted.length) (hq : q < sorted.length), p ≤ q →
        KeyTimeLE sorted[p] sorted[q] := by
      intro p q hp hq hpq
      rcases hpq.eq_or_lt with rfl | hlt
      · exact .inr ⟨rfl, le_refl _⟩
      · exact List.pairwise_iff_getElem.mp hsorted p q hp hq hlt
    -- what is between two rows of one key is of that key, and its times are between theirs
    have hbefore := hordered hi hr hir
    have hbetween := hordered hr hr' (Nat.le_succ r)
    have hafter := hordered hr' hj hrj
    have hnot : ¬Near gapMs sorted[r] sorted[r + 1] := by
      rw [← isBreak_iff hbetween (hdiffer _ (List.getElem_mem hr) _ (List.getElem_mem hr')), hbreak]
      exact Bool.noConfusion
    rw [KeyTimeLE] at hbefore hbetween hafter
    rw [Near] at hnear hnot
    omega

/-! ## Rows in any order -/

/-- Two rows of a list are near each other. -/
abbrev NearRows (gapMs : Int) (keys : List (Int × Int)) : Nat → Nat → Prop :=
  Segments.Linked (Near gapMs) keys

/-- A chain of sorted rows is one of the rows at their positions. -/
theorem chain_sorted_iff (harrow : arrow.Sorts) {i j : Nat} (hi : i < keys.length) (hj : j < keys.length) :
    Relation.ReflTransGen (NearRows gapMs ((arrow.lexsort keys).filterMap (keys[·]?)))
        ((arrow.lexsort keys).idxOf i) ((arrow.lexsort keys).idxOf j) ↔
      Relation.ReflTransGen (NearRows gapMs keys) i j := by
  have hplace : ∀ {k : Nat}, k < keys.length →
      (arrow.lexsort keys)[(arrow.lexsort keys).idxOf k]? = some k := by
    intro k hk
    have hmem : k ∈ arrow.lexsort keys := (harrow.perm keys).mem_iff.mpr (List.mem_range.mpr hk)
    rw [List.getElem?_eq_getElem (List.idxOf_lt_length_of_mem hmem), List.getElem_idxOf]
  constructor
  · intro hchain
    -- back from the sorted positions
    have hback : ∀ p q, NearRows gapMs ((arrow.lexsort keys).filterMap (keys[·]?)) p q →
        NearRows gapMs keys (((arrow.lexsort keys)[p]?).getD 0) (((arrow.lexsort keys)[q]?).getD 0) := by
      rintro p q ⟨a, b, ha, hb, hnear⟩
      rw [sorted_getElem? harrow, Option.bind_eq_some_iff] at ha hb
      obtain ⟨k, hk, ha⟩ := ha
      obtain ⟨k', hk', hb⟩ := hb
      rw [hk, hk']
      exact ⟨a, b, ha, hb, hnear⟩
    have hrows := Relation.ReflTransGen.lift (fun p => ((arrow.lexsort keys)[p]?).getD 0) hback _ _ hchain
    simpa only [Function.onFun, hplace hi, hplace hj, Option.getD_some] using hrows
  · have hforth : ∀ k k', NearRows gapMs keys k k' →
        NearRows gapMs ((arrow.lexsort keys).filterMap (keys[·]?)) ((arrow.lexsort keys).idxOf k)
          ((arrow.lexsort keys).idxOf k') := by
      rintro k k' ⟨a, b, ha, hb, hnear⟩
      exact ⟨a, b, getElem?_lexsort harrow ha, getElem?_lexsort harrow hb, hnear⟩
    exact Relation.ReflTransGen.lift (fun k => (arrow.lexsort keys).idxOf k) hforth i j

/-- Rows have one number exactly if they are linked by a chain. -/
theorem assignSessions_eq_iff (harrow : arrow.Sorts) (hdiffer : Differ keys) {i j : Nat}
    (hi : i < keys.length) (hj : j < keys.length) :
    (assignSessions arrow keys gapMs)[i]? = (assignSessions arrow keys gapMs)[j]? ↔
      Relation.ReflTransGen (NearRows gapMs keys) i j := by
  have hsame : ∀ {a}, a ∈ (arrow.lexsort keys).filterMap (keys[·]?) → a ∈ keys := by
    intro a ha
    obtain ⟨k, _, hk⟩ := List.mem_filterMap.mp ha
    exact List.mem_of_getElem? hk
  have hseparated := @separated_sorted gapMs _ (harrow.sorted keys) fun a ha b hb =>
    hdiffer a (hsame ha) b (hsame hb)
  have hposition : ∀ {k : Nat}, k < keys.length →
      (arrow.lexsort keys).idxOf k < ((arrow.lexsort keys).filterMap (keys[·]?)).length := fun hk =>
    (List.getElem?_eq_some_iff.mp (getElem?_lexsort harrow (List.getElem?_eq_getElem hk))).1
  have hid : ∀ {k : Nat}, k < keys.length → (assignSessions arrow keys gapMs)[k]? =
      (Segments.number (isBreak gapMs) 0
        ((arrow.lexsort keys).filterMap (keys[·]?)))[(arrow.lexsort keys).idxOf k]? := by
    intro k hk
    rw [assignSessions, List.getElem?_map, List.getElem?_range hk, Option.map_some,
      sessionIds_eq_number, Segments.number_getElem? 0 (hposition hk), Option.getD_some]
  rw [hid hi, hid hj, hseparated.number_eq_iff 0 (hposition hi) (hposition hj),
    chain_sorted_iff harrow hi hj]

/-! ## Columns -/

/-- The hash of a row's key, zero where there are no key columns. -/
def rowHash (text : DataType → Cell → Option String) (cols : List ArrayRef) (i : Nat) : Int :=
  if cols.isEmpty then 0
  else fnv1a (keyBytes (cols.map fun col => (col.cells[i]?).bind (text col.dataType)))

/-- Two rows have keys of one hash, and times no further apart than the gap. -/
def RowsNear (text : DataType → Cell → Option String) (gapMs : Int) (times : List Int)
    (cols : List ArrayRef) (i j : Nat) : Prop :=
  ∃ t t', times[i]? = some t ∧ times[j]? = some t' ∧ rowHash text cols i = rowHash text cols j ∧
    t' - t ≤ gapMs ∧ t - t' ≤ gapMs

/-- The key columns are as long as the timestamps, and the timestamps differ by no more than fits an
`i64`. -/
structure Columns (times : List Int) (cols : List ArrayRef) : Prop where
  length : ∀ col ∈ cols, col.cells.length = times.length
  differ : ∀ t ∈ times, ∀ t' ∈ times, t' - t ≤ I64_MAX

theorem computeKeyHash_eq (hcast : arrow.Casts text) {hashes : List Int} {n : Nat} (hne : cols ≠ [])
    (hlength : ∀ col ∈ cols, col.cells.length = n) (h : computeKeyHash arrow cols = .ok hashes) :
    hashes = (List.range n).map (rowHash text cols) := by
  obtain ⟨texts, htexts, h⟩ := bind_eq_ok_iff.mp h
  cases h
  obtain ⟨first, rest, rfl⟩ := List.exists_cons_of_ne_nil hne
  rw [castTexts_eq hcast (forall₂_of_mapM_eq_ok htexts), List.head?_cons, Option.map_some,
    Option.getD_some, hlength first List.mem_cons_self]
  refine List.map_congr_left fun i _ => ?_
  rw [rowHash, if_neg (by simp), List.map_map]
  refine congrArg (fun key => fnv1a (keyBytes key)) (List.map_congr_left fun col _ => ?_)
  rw [Function.comp_apply, List.getElem?_map]
  cases col.cells[i]? <;> rfl

/-- The rows that are numbered: each under the hash of its key, with its time. -/
theorem assignSessionColumns_eq (hcast : arrow.Casts text)
    (hlength : ∀ col ∈ cols, col.cells.length = times.length)
    (h : assignSessionColumns arrow times cols gapMs = .ok ids) :
    ids = assignSessions arrow (((List.range times.length).map (rowHash text cols)).zip times) gapMs := by
  rw [assignSessionColumns] at h
  split_ifs at h with hempty hkeyless
  · cases h
    rw [List.isEmpty_iff.mp hempty]
    rfl
  · cases h
    have hzero : times.map (fun _ => (0 : Int)) = (List.range times.length).map (rowHash text cols) := by
      rw [List.map_const', show rowHash text cols = fun _ => 0 from funext fun i => if_pos hkeyless,
        List.map_const', List.length_range]
    rw [hzero]
  · obtain ⟨hashes, hhashes, h⟩ := bind_eq_ok_iff.mp h
    cases h
    rw [computeKeyHash_eq hcast (fun hnil => hkeyless (List.isEmpty_iff.mpr hnil)) hlength hhashes]

theorem getElem?_rows {i : Nat} {a : Int × Int} :
    (((List.range times.length).map (rowHash text cols)).zip times)[i]? = some a ↔
      times[i]? = some a.2 ∧ rowHash text cols i = a.1 := by
  rw [List.getElem?_zip_eq_some, List.getElem?_map]
  constructor
  · rintro ⟨hhash, htime⟩
    rw [List.getElem?_range (List.getElem?_eq_some_iff.mp htime).1] at hhash
    exact ⟨htime, Option.some.inj hhash⟩
  · rintro ⟨htime, hhash⟩
    rw [List.getElem?_range (List.getElem?_eq_some_iff.mp htime).1]
    exact ⟨congrArg some hhash, htime⟩

theorem nearRows_iff {i j : Nat} :
    NearRows gapMs (((List.range times.length).map (rowHash text cols)).zip times) i j ↔
      RowsNear text gapMs times cols i j := by
  constructor
  · rintro ⟨a, b, ha, hb, hkey, hnear⟩
    obtain ⟨ha, hhash⟩ := getElem?_rows.mp ha
    obtain ⟨hb, hhash'⟩ := getElem?_rows.mp hb
    exact ⟨a.2, b.2, ha, hb, hhash.trans (hkey.trans hhash'.symm), hnear⟩
  · rintro ⟨t, t', ht, ht', hkey, hnear⟩
    exact ⟨(_, t), (_, t'), getElem?_rows.mpr ⟨ht, rfl⟩, getElem?_rows.mpr ⟨ht', rfl⟩, hkey, hnear⟩

/-- Rows linked by a chain have keys of one hash. -/
theorem rowHash_of_chain {i j : Nat}
    (h : Relation.ReflTransGen (RowsNear text gapMs times cols) i j) :
    rowHash text cols i = rowHash text cols j := by
  induction h with
  | refl => rfl
  | tail _ hnear ih =>
    obtain ⟨_, _, _, _, hkey, _⟩ := hnear
    exact ih.trans hkey

/-- The sessions are the classes of the chains. -/
theorem sessions_iff (harrow : arrow.Sorts) (hcast : arrow.Casts text) (hcols : Columns times cols)
    (h : assignSessionColumns arrow times cols gapMs = .ok ids) :
    ids.length = times.length ∧ ∀ i j, i < times.length → j < times.length →
      (ids[i]? = ids[j]? ↔ Relation.ReflTransGen (RowsNear text gapMs times cols) i j) := by
  obtain rfl := assignSessionColumns_eq hcast hcols.length h
  have hlength : (((List.range times.length).map (rowHash text cols)).zip times).length =
      times.length := by
    rw [List.length_zip, List.length_map, List.length_range, min_self]
  refine ⟨(length_assignSessions _ _).trans hlength, fun i j hi hj => ?_⟩
  have hdiffer : Differ (((List.range times.length).map (rowHash text cols)).zip times) :=
    fun a ha b hb => hcols.differ _ (List.of_mem_zip ha).2 _ (List.of_mem_zip hb).2
  have hrows : NearRows gapMs (((List.range times.length).map (rowHash text cols)).zip times) =
      RowsNear text gapMs times cols := by
    funext i j
    exact propext nearRows_iff
  rw [assignSessions_eq_iff harrow hdiffer (hi.trans_eq hlength.symm) (hj.trans_eq hlength.symm), hrows]

/-! ## The order of the rows -/

/-- The same rows, moved by `e`. -/
structure Reordered (times : List Int) (cols : List ArrayRef) (times' : List Int) (cols' : List ArrayRef)
    (e : Fin times.length ≃ Fin times'.length) : Prop where
  times : ∀ i, times'[e i] = times[i]
  cols : List.Forall₂ (fun col col' => col'.dataType = col.dataType ∧
    col'.cells.length = times'.length ∧ ∀ i, col'.cells[(e i).val]? = col.cells[i.val]?) cols cols'

variable {times' : List Int} {cols' : List ArrayRef} {ids' : List Int}
  {e : Fin times.length ≃ Fin times'.length}

theorem Reordered.columns (h : Reordered times cols times' cols' e) (hcols : Columns times cols) :
    Columns times' cols' where
  length col' hcol' := by
    obtain ⟨i, hi⟩ := List.mem_iff_getElem?.mp hcol'
    obtain ⟨col, _, _, hlength, _⟩ := getElem?_of_forall₂ h.cols.flip hi
    exact hlength
  differ t ht t' ht' := by
    have hback : ∀ t ∈ times', t ∈ times := by
      intro t ht
      obtain ⟨i, hi, rfl⟩ := List.getElem_of_mem ht
      have hmoved := h.times (e.symm ⟨i, hi⟩)
      simp only [Equiv.apply_symm_apply] at hmoved
      exact hmoved ▸ List.getElem_mem _
    exact hcols.differ t (hback t ht) t' (hback t' ht')

theorem Reordered.rowHash_eq (h : Reordered times cols times' cols' e) (i : Fin times.length) :
    rowHash text cols' (e i) = rowHash text cols i := by
  have hkeys : cols'.map (fun col => (col.cells[(e i).val]?).bind (text col.dataType)) =
      cols.map fun col => (col.cells[i.val]?).bind (text col.dataType) := by
    have hall := h.cols
    clear h
    induction hall with
    | nil => rfl
    | cons hcol _ ih =>
      rw [List.map_cons, List.map_cons, ih, hcol.1, hcol.2.2 i]
  have hempty : cols'.isEmpty = cols.isEmpty := by
    cases h.cols <;> rfl
  rw [rowHash, rowHash, hkeys, hempty]

theorem Reordered.rowsNear_iff (h : Reordered times cols times' cols' e) (i j : Fin times.length) :
    RowsNear text gapMs times' cols' (e i) (e j) ↔ RowsNear text gapMs times cols i j := by
  have htime : ∀ k : Fin times.length, times'[(e k).val]? = times[k.val]? := fun k =>
    (List.getElem?_eq_getElem (e k).isLt).trans
      ((congrArg some (h.times k)).trans (List.getElem?_eq_getElem k.isLt).symm)
  rw [RowsNear, RowsNear, htime, htime, h.rowHash_eq, h.rowHash_eq]

/-- A link is between rows that there are. -/
theorem RowsNear.lt {i j : Nat} (h : RowsNear text gapMs times cols i j) :
    i < times.length ∧ j < times.length := by
  obtain ⟨_, _, hi, hj, _⟩ := h
  exact ⟨(List.getElem?_eq_some_iff.mp hi).1, (List.getElem?_eq_some_iff.mp hj).1⟩

/-- A chain of rows is one of the rows where they are moved to. -/
theorem Reordered.chain_iff (h : Reordered times cols times' cols' e) (i j : Fin times.length) :
    Relation.ReflTransGen (RowsNear text gapMs times' cols') (e i) (e j) ↔
      Relation.ReflTransGen (RowsNear text gapMs times cols) i j := by
  constructor
  · intro hchain
    have hback : ∀ {k : Nat} (_ : Relation.ReflTransGen (RowsNear text gapMs times' cols') (e i) k)
        (hk : k < times'.length),
        Relation.ReflTransGen (RowsNear text gapMs times cols) i (e.symm ⟨k, hk⟩) := by
      intro k hchain
      induction hchain with
      | refl =>
        intro hk
        rw [show (⟨e i, hk⟩ : Fin times'.length) = e i from rfl, Equiv.symm_apply_apply]
      | @tail k k' _ hnear ih =>
        intro hk'
        refine (ih hnear.lt.1).tail ((h.rowsNear_iff _ _).mp ?_)
        rwa [Equiv.apply_symm_apply, Equiv.apply_symm_apply]
    have hrows := hback hchain (e j).isLt
    rwa [show (⟨(e j).val, (e j).isLt⟩ : Fin times'.length) = e j from rfl,
      Equiv.symm_apply_apply] at hrows
  · intro hchain
    have hforth : ∀ {k : Nat} (_ : Relation.ReflTransGen (RowsNear text gapMs times cols) i k)
        (hk : k < times.length),
        Relation.ReflTransGen (RowsNear text gapMs times' cols') (e i) (e ⟨k, hk⟩) := by
      intro k hchain
      induction hchain with
      | refl => exact fun _ => .refl
      | @tail k k' _ hnear ih =>
        exact fun hk' => (ih hnear.lt.1).tail ((h.rowsNear_iff ⟨k, hnear.lt.1⟩ ⟨k', hk'⟩).mpr hnear)
    exact hforth hchain j.isLt

/-- **Sessions**: where the times differ by no more than fits an `i64`, two rows are in one session exactly
if their keys have one hash and a chain of rows of that hash leads from one to the other, each no further
from the next than the gap; and so rows in another order are in the same sessions. -/
theorem sessions_by_chain (harrow : arrow.Sorts) (hcast : arrow.Casts text) (hcols : Columns times cols)
    (h : assignSessionColumns arrow times cols gapMs = .ok ids) :
    (ids.length = times.length ∧ ∀ i j, i < times.length → j < times.length →
      (ids[i]? = ids[j]? ↔ rowHash text cols i = rowHash text cols j ∧
        Relation.ReflTransGen (RowsNear text gapMs times cols) i j)) ∧
    ∀ (times' : List Int) (cols' : List ArrayRef) (ids' : List Int)
      (e : Fin times.length ≃ Fin times'.length), Reordered times cols times' cols' e →
      assignSessionColumns arrow times' cols' gapMs = .ok ids' →
      ∀ i j : Fin times.length, ids'[(e i).val]? = ids'[(e j).val]? ↔ ids[i.val]? = ids[j.val]? := by
  obtain ⟨hlength, hiff⟩ := sessions_iff harrow hcast hcols h
  refine ⟨⟨hlength, fun i j hi hj => ?_⟩, fun times' cols' ids' e hmoved h' i j => ?_⟩
  · rw [hiff i j hi hj]
    exact ⟨fun hchain => ⟨rowHash_of_chain hchain, hchain⟩, And.right⟩
  · obtain ⟨_, hiff'⟩ := sessions_iff harrow hcast (hmoved.columns hcols) h'
    rw [hiff' _ _ (e i).isLt (e j).isLt, hmoved.chain_iff, hiff _ _ i.isLt j.isLt]

end WindowedSystem

namespace WindowedSystem.Sample

/-- The keys of four rows. -/
def keyed : List ArrayRef := [⟨.utf8, [.text "a", .text "a", .text "a", .text "b"]⟩]

/-- The last row is near the third in time, and of another key. -/
theorem sessions_keyed :
    Relation.ReflTransGen (RowsNear text 1000 [0, 5000, 900, 950] keyed) 0 2 ∧
      ¬Relation.ReflTransGen (RowsNear text 1000 [0, 5000, 900, 950] keyed) 2 3 := by
  have hids : assignSessionColumns arrow [0, 5000, 900, 950] keyed 1000 = .ok [0, 1, 0, 2] := by
    decide +kernel
  have hiff := (sessions_by_chain sorts_arrow casts_arrow ⟨by decide, by decide⟩ hids).1.2
  refine ⟨((hiff 0 2 (by decide) (by decide)).mp rfl).2, fun hchain => ?_⟩
  have hsame := (hiff 2 3 (by decide) (by decide)).mpr ⟨rowHash_of_chain hchain, hchain⟩
  exact absurd hsame (by decide)

end WindowedSystem.Sample
end Saci
