import Mathlib.Order.Defs.LinearOrder
import Mathlib.Data.List.Nodup
import Mathlib.Data.List.Sort
import Mathlib.Data.Set.Card

/-!
# Ordered tables

A table is a finite map kept as its rows in strictly increasing key order, which is what an
ordered key-value store shows of one of its tables: point reads, inserts that overwrite,
removals, and iteration or a range scan in key order. Two tables with the same reads are equal
(`Table.ext_get`), so every later fact is stated through `get`.
-/

universe u v w

/-- A finite map: its rows, in strictly increasing key order. -/
structure Table (κ : Type u) (ν : Type v) [LinearOrder κ] where
  rows : List (κ × ν)
  sorted : rows.Pairwise fun a b => a.1 < b.1
  deriving DecidableEq

namespace Table

variable {κ : Type u} {ν : Type v} [LinearOrder κ]

/-- The table with no rows. -/
def empty : Table κ ν := ⟨[], .nil⟩

instance : EmptyCollection (Table κ ν) := ⟨empty⟩
instance : Inhabited (Table κ ν) := ⟨empty⟩

/-- The value of the first row with key `k`. -/
def lookupRow (k : κ) : List (κ × ν) → Option ν
  | [] => none
  | (k', v) :: rows => if k = k' then some v else lookupRow k rows

/-- Insert into rows in key order, overwriting a row with the same key. -/
def insertRow (k : κ) (v : ν) : List (κ × ν) → List (κ × ν)
  | [] => [(k, v)]
  | (k', v') :: rows =>
    if k < k' then (k, v) :: (k', v') :: rows
    else if k = k' then (k, v) :: rows
    else (k', v') :: insertRow k v rows

theorem mem_insertRow {k : κ} {v : ν} {rows : List (κ × ν)} {row : κ × ν}
    (h : row ∈ insertRow k v rows) : row = (k, v) ∨ row ∈ rows := by
  induction rows with
  | nil => simpa [insertRow] using h
  | cons head rows ih =>
    obtain ⟨k', v'⟩ := head
    rw [insertRow] at h
    split_ifs at h with hlt heq
    · exact (List.mem_cons.mp h)
    · rcases List.mem_cons.mp h with h | h
      · exact .inl h
      · exact .inr (List.mem_cons_of_mem _ h)
    · rcases List.mem_cons.mp h with h | h
      · exact .inr (h ▸ List.mem_cons_self)
      · exact (ih h).imp_right (List.mem_cons_of_mem _)

theorem sorted_insertRow {k : κ} {v : ν} {rows : List (κ × ν)}
    (h : rows.Pairwise fun a b => a.1 < b.1) :
    (insertRow k v rows).Pairwise fun a b => a.1 < b.1 := by
  induction rows with
  | nil => simp [insertRow]
  | cons head rows ih =>
    obtain ⟨k', v'⟩ := head
    obtain ⟨hhead, htail⟩ := List.pairwise_cons.mp h
    rw [insertRow]
    split_ifs with hlt heq
    · refine List.pairwise_cons.mpr ⟨fun row hrow => ?_, h⟩
      rcases List.mem_cons.mp hrow with rfl | hrow
      · exact hlt
      · exact hlt.trans (hhead row hrow)
    · subst heq
      exact List.pairwise_cons.mpr ⟨hhead, htail⟩
    · refine List.pairwise_cons.mpr ⟨fun row hrow => ?_, ih htail⟩
      rcases mem_insertRow hrow with rfl | hrow
      · exact lt_of_le_of_ne (not_lt.mp hlt) (Ne.symm heq)
      · exact hhead row hrow

/-- The value stored under a key. -/
def get (t : Table κ ν) (k : κ) : Option ν := lookupRow k t.rows

/-- Store a value under a key, overwriting the one that was there. -/
def insert (t : Table κ ν) (k : κ) (v : ν) : Table κ ν :=
  ⟨insertRow k v t.rows, sorted_insertRow t.sorted⟩

/-- Delete the row under a key, if there is one. -/
def remove (t : Table κ ν) (k : κ) : Table κ ν :=
  ⟨t.rows.filter fun row => row.1 ≠ k, t.sorted.filter _⟩

/-- Keep the rows that pass a test. -/
def retain (t : Table κ ν) (p : κ → ν → Bool) : Table κ ν :=
  ⟨t.rows.filter fun row => p row.1 row.2, t.sorted.filter _⟩

/-- The keys in increasing order. -/
def keys (t : Table κ ν) : List κ := t.rows.map Prod.fst

/-- The rows with `lo ≤ key < hi`, in key order. -/
def range (t : Table κ ν) (lo hi : κ) : List (κ × ν) :=
  t.rows.filter fun row => lo ≤ row.1 ∧ row.1 < hi

/-- The rows with `lo ≤ key`, in key order. -/
def rangeFrom (t : Table κ ν) (lo : κ) : List (κ × ν) :=
  t.rows.filter fun row => lo ≤ row.1

/-! ## Reads -/

theorem lookupRow_eq_some_iff {k : κ} {v : ν} {rows : List (κ × ν)}
    (h : rows.Pairwise fun a b => a.1 < b.1) : lookupRow k rows = some v ↔ (k, v) ∈ rows := by
  induction rows with
  | nil => simp [lookupRow]
  | cons head rows ih =>
    obtain ⟨k', v'⟩ := head
    obtain ⟨hhead, htail⟩ := List.pairwise_cons.mp h
    rw [lookupRow, List.mem_cons]
    split_ifs with heq
    · subst heq
      have hnot : (k, v) ∉ rows := fun hm => lt_irrefl k (hhead _ hm)
      simp [hnot, eq_comm]
    · simp [ih htail, heq]

theorem get_eq_some_iff {t : Table κ ν} {k : κ} {v : ν} :
    t.get k = some v ↔ (k, v) ∈ t.rows := lookupRow_eq_some_iff t.sorted

@[simp] theorem get_empty (k : κ) : (∅ : Table κ ν).get k = none := rfl

theorem mem_keys {t : Table κ ν} {k : κ} : k ∈ t.keys ↔ ∃ v, t.get k = some v := by
  simp only [keys, List.mem_map, Prod.exists, exists_and_right, exists_eq_right, get_eq_some_iff]

theorem keys_sorted (t : Table κ ν) : t.keys.Pairwise (· < ·) :=
  List.pairwise_map.mpr t.sorted

theorem keys_nodup (t : Table κ ν) : t.keys.Nodup :=
  t.keys_sorted.imp fun h => h.ne

theorem rows_nodup (t : Table κ ν) : t.rows.Nodup :=
  .of_map _ t.keys_nodup

theorem lookupRow_insertRow {k k' : κ} {v : ν} {rows : List (κ × ν)}
    (h : rows.Pairwise fun a b => a.1 < b.1) :
    lookupRow k' (insertRow k v rows) = if k' = k then some v else lookupRow k' rows := by
  induction rows with
  | nil => simp [insertRow, lookupRow]
  | cons head rows ih =>
    obtain ⟨k₀, v₀⟩ := head
    have ih := ih h.of_cons
    rw [insertRow]
    split_ifs with hlt heq hk hk <;> grind [lookupRow]

theorem get_insert (t : Table κ ν) (k : κ) (v : ν) (k' : κ) :
    (t.insert k v).get k' = if k' = k then some v else t.get k' :=
  lookupRow_insertRow t.sorted

theorem get_insert_eq_update (t : Table κ ν) (k : κ) (v : ν) :
    (t.insert k v).get = Function.update t.get k (some v) := by
  funext k'
  rw [get_insert, Function.update_apply]

@[simp] theorem get_insert_self (t : Table κ ν) (k : κ) (v : ν) :
    (t.insert k v).get k = some v := by simp [get_insert]

theorem get_insert_of_ne (t : Table κ ν) {k k' : κ} (v : ν) (h : k' ≠ k) :
    (t.insert k v).get k' = t.get k' := by simp [get_insert, h]

theorem get_remove (t : Table κ ν) (k k' : κ) :
    (t.remove k).get k' = if k' = k then none else t.get k' := by
  ext v
  rw [get_eq_some_iff]
  by_cases h : k' = k <;> simp [remove, h, get_eq_some_iff]

theorem get_retain (t : Table κ ν) (p : κ → ν → Bool) (k : κ) :
    (t.retain p).get k = (t.get k).filter (p k) := by
  ext v
  rw [get_eq_some_iff, Option.filter_eq_some_iff, get_eq_some_iff]
  simp [retain]

theorem mem_range {t : Table κ ν} {lo hi k : κ} {v : ν} :
    (k, v) ∈ t.range lo hi ↔ t.get k = some v ∧ lo ≤ k ∧ k < hi := by
  simp [range, get_eq_some_iff]

theorem mem_rangeFrom {t : Table κ ν} {lo k : κ} {v : ν} :
    (k, v) ∈ t.rangeFrom lo ↔ t.get k = some v ∧ lo ≤ k := by
  simp [rangeFrom, get_eq_some_iff]

/-- Tables that read the same are equal: both list the same rows in the same order. -/
theorem ext_get {t t' : Table κ ν} (h : ∀ k, t.get k = t'.get k) : t = t' := by
  have hmem : ∀ row, row ∈ t.rows ↔ row ∈ t'.rows := fun row => by
    rw [← get_eq_some_iff (t := t), ← get_eq_some_iff (t := t'), h]
  have hperm : t.rows.Perm t'.rows := (List.perm_ext_iff_of_nodup t.rows_nodup t'.rows_nodup).mpr hmem
  have hrows : t.rows = t'.rows :=
    hperm.eq_of_pairwise (fun _ _ _ _ hab hba => absurd hab hba.not_gt) t.sorted t'.sorted
  cases t; cases t'; cases hrows; rfl

theorem length_insertRow {k : κ} {v : ν} {rows : List (κ × ν)} (h : lookupRow k rows = none) :
    (insertRow k v rows).length = rows.length + 1 := by
  induction rows with
  | nil => rfl
  | cons head rows ih =>
    obtain ⟨k', v'⟩ := head
    rw [lookupRow] at h
    split_ifs at h with heq
    rw [insertRow]
    split_ifs
    · rfl
    · exact congrArg (· + 1) (ih h)

/-- A new key adds a row. -/
theorem length_rows_insert {t : Table κ ν} {k : κ} (v : ν) (h : t.get k = none) :
    (t.insert k v).rows.length = t.rows.length + 1 := length_insertRow h

/-! ## Writing a list of rows -/

section foldl
variable {α : Type w} (key : α → κ) (val : α → ν)

/-- Insert one row for each element of a list, from left to right. -/
def insertAll (t : Table κ ν) (l : List α) : Table κ ν :=
  l.foldl (fun t a => t.insert (key a) (val a)) t

@[simp] theorem insertAll_nil (t : Table κ ν) : t.insertAll key val [] = t := rfl

@[simp] theorem insertAll_cons (t : Table κ ν) (a : α) (l : List α) :
    t.insertAll key val (a :: l) = (t.insert (key a) (val a)).insertAll key val l := rfl

theorem get_insertAll_of_forall_ne {t : Table κ ν} {l : List α} {k : κ}
    (h : ∀ a ∈ l, key a ≠ k) : (t.insertAll key val l).get k = t.get k := by
  induction l generalizing t with
  | nil => rfl
  | cons a l ih =>
    rw [insertAll_cons, ih fun b hb => h b (List.mem_cons_of_mem _ hb)]
    exact t.get_insert_of_ne _ (h a List.mem_cons_self).symm

/-- With distinct keys, each element's row is in the table that is left. -/
theorem get_insertAll_of_mem {t : Table κ ν} {l : List α} (hnd : (l.map key).Nodup)
    {a : α} (h : a ∈ l) : (t.insertAll key val l).get (key a) = some (val a) := by
  induction l generalizing t with
  | nil => cases h
  | cons b l ih =>
    rw [List.map_cons, List.nodup_cons] at hnd
    rw [insertAll_cons]
    rcases List.mem_cons.mp h with rfl | h
    · rw [get_insertAll_of_forall_ne key val fun c hc heq =>
        hnd.1 (List.mem_map.mpr ⟨c, hc, heq⟩), get_insert_self]
    · exact ih hnd.2 h

theorem get_insertAll_isSome {t : Table κ ν} {l : List α} {k : κ} :
    (∃ v, (t.insertAll key val l).get k = some v) ↔
      (∃ a ∈ l, key a = k) ∨ ∃ v, t.get k = some v := by
  induction l generalizing t with
  | nil => simp
  | cons a l ih =>
    rw [insertAll_cons, ih, List.exists_mem_cons_iff, get_insert, or_assoc, or_left_comm]
    refine or_congr_right ?_
    by_cases hk : k = key a
    · simp [hk]
    · rw [if_neg hk, or_iff_right (Ne.symm hk)]

theorem insertAll_congr {t : Table κ ν} {l : List α} {key' : α → κ} {val' : α → ν}
    (h : ∀ a ∈ l, key a = key' a ∧ val a = val' a) :
    t.insertAll key val l = t.insertAll key' val' l := by
  induction l generalizing t with
  | nil => rfl
  | cons a l ih =>
    obtain ⟨hkey, hval⟩ := h a List.mem_cons_self
    rw [insertAll_cons, insertAll_cons, hkey, hval,
      ih fun b hb => h b (List.mem_cons_of_mem _ hb)]

theorem insertAll_map {β : Type w} (t : Table κ ν) (f : β → α) (l : List β) :
    t.insertAll key val (l.map f) = t.insertAll (fun b => key (f b)) (fun b => val (f b)) l := by
  rw [insertAll, insertAll, List.foldl_map]

end foldl

/-- Writing a table's rows into the empty table gives the table back. -/
theorem insertAll_rows (t : Table κ ν) :
    (∅ : Table κ ν).insertAll Prod.fst Prod.snd t.rows = t := by
  refine ext_get fun k => ?_
  cases hk : t.get k with
  | some v => exact get_insertAll_of_mem _ _ t.keys_nodup (get_eq_some_iff.mp hk)
  | none =>
    refine get_insertAll_of_forall_ne _ _ fun row hrow heq => ?_
    rw [← heq, get_eq_some_iff.mpr hrow] at hk
    cases hk

/-! ## Counting rows -/

/-- The number of rows that satisfy a test, as the cardinality of the set of their keys. -/
theorem length_filter_rows (t : Table κ ν) (p : κ × ν → Bool) :
    (t.rows.filter p).length = Set.ncard {k | ∃ v, t.get k = some v ∧ p (k, v) = true} := by
  have hnd : ((t.rows.filter p).map Prod.fst).Nodup :=
    t.keys_nodup.sublist (List.filter_sublist.map _)
  have hset : {k | ∃ v, t.get k = some v ∧ p (k, v) = true} =
      (((t.rows.filter p).map Prod.fst).toFinset : Set κ) := by
    ext k
    simp [get_eq_some_iff]
  rw [hset, Set.ncard_coe_finset, List.toFinset_card_of_nodup hnd, List.length_map]

end Table
