import Mathlib.Data.List.Induction
import Mathlib.Data.List.Nodup

/-!
# Grouping by key

Pairs of keys and values, grouped: the keys in the order of their first appearance, each with its
values in order (`groups`). A loop that adds one pair after the other to the groups so far computes
them (`foldl_add`).
-/

universe u v w

namespace Grouping

variable {κ : Type u} {α : Type v} {β : Type w} [DecidableEq κ]

/-- The keys, in the order of their first appearance. -/
def keys (pairs : List (κ × α)) : List κ := (pairs.map Prod.fst).eraseDups

/-- The values of a key, in order. -/
def valuesOf (pairs : List (κ × α)) (k : κ) : List α :=
  (pairs.filter fun pair => pair.1 = k).map Prod.snd

def groups (pairs : List (κ × α)) : List (κ × List α) :=
  (keys pairs).map fun k => (k, valuesOf pairs k)

/-- Add a value to the group of its key, or begin that group. -/
def add (k : κ) (a : α) : List (κ × List α) → List (κ × List α)
  | [] => [(k, [a])]
  | (k', as) :: groups => if k' = k then (k', as ++ [a]) :: groups else (k', as) :: add k a groups

/-! ## Keys -/

theorem eraseDups_concat (l : List κ) (k : κ) :
    (l ++ [k]).eraseDups = if k ∈ l then l.eraseDups else l.eraseDups ++ [k] := by
  rw [List.eraseDups_append]
  split_ifs with hk
  · have hnil : [k].removeAll l = [] := by simp [List.removeAll, hk]
    rw [hnil, List.eraseDups_nil, List.append_nil]
  · have hone : [k].removeAll l = [k] := by simp [List.removeAll, hk]
    rw [hone]
    rfl

theorem nodup_eraseDups (l : List κ) : l.eraseDups.Nodup := by
  induction l using List.reverseRecOn with
  | nil => exact List.nodup_nil
  | append_singleton l k ih =>
    rw [eraseDups_concat]
    split_ifs with hk
    · exact ih
    · refine List.Nodup.append ih (List.nodup_singleton k) ?_
      rw [List.disjoint_singleton]
      exact fun h => hk (List.mem_eraseDups.mp h)

variable {pairs : List (κ × α)} {k : κ} {a : α}

theorem nodup_keys (pairs : List (κ × α)) : (keys pairs).Nodup := nodup_eraseDups _

theorem mem_keys : k ∈ keys pairs ↔ k ∈ pairs.map Prod.fst := List.mem_eraseDups

@[simp] theorem fst_groups (pairs : List (κ × α)) : (groups pairs).map Prod.fst = keys pairs := by
  simp [groups, Function.comp_def]

theorem mem_of_mem_valuesOf (h : a ∈ valuesOf pairs k) : (k, a) ∈ pairs := by
  obtain ⟨⟨k', a'⟩, hmem, heq⟩ := List.mem_map.mp h
  obtain ⟨hpair, hkey⟩ := List.mem_filter.mp hmem
  obtain rfl := of_decide_eq_true hkey
  obtain rfl := heq
  exact hpair

/-- Values that are mapped are grouped as they were. -/
theorem groups_map (f : α → β) (pairs : List (κ × α)) :
    groups (pairs.map fun pair => (pair.1, f pair.2)) =
      (groups pairs).map fun group => (group.1, group.2.map f) := by
  simp only [groups, keys, List.map_map, Function.comp_def]
  refine List.map_congr_left fun k _ => ?_
  simp only [valuesOf, List.filter_map, List.map_map, Function.comp_def]

/-! ## Adding pairs -/

theorem add_of_not_mem {ks : List κ} (f : κ → List α) (a : α) (h : k ∉ ks) :
    add k a (ks.map fun k' => (k', f k')) = (ks.map fun k' => (k', f k')) ++ [(k, [a])] := by
  induction ks with
  | nil => rfl
  | cons k' ks ih =>
    obtain ⟨hne, hrest⟩ := not_or.mp (fun hor => h (List.mem_cons.mpr hor))
    rw [List.map_cons, add, if_neg (Ne.symm hne), ih hrest, List.cons_append]

theorem add_of_mem {ks : List κ} (f : κ → List α) (a : α) (hnodup : ks.Nodup) (h : k ∈ ks) :
    add k a (ks.map fun k' => (k', f k')) =
      ks.map fun k' => (k', if k' = k then f k' ++ [a] else f k') := by
  induction ks with
  | nil => cases h
  | cons k' ks ih =>
    obtain ⟨hfresh, hrest⟩ := List.nodup_cons.mp hnodup
    rw [List.map_cons, List.map_cons, add]
    by_cases heq : k' = k
    · rw [if_pos heq, if_pos heq]
      congr 1
      refine List.map_congr_left fun k'' hmem => ?_
      have hne : k'' ≠ k := fun heq' => hfresh (heq.trans heq'.symm ▸ hmem)
      rw [if_neg hne]
    · rw [if_neg heq, if_neg heq, ih hrest ((List.mem_cons.mp h).resolve_left (Ne.symm heq))]

theorem valuesOf_concat (pairs : List (κ × α)) (k k' : κ) (a : α) :
    valuesOf (pairs ++ [(k, a)]) k' = if k' = k then valuesOf pairs k' ++ [a] else valuesOf pairs k' := by
  unfold valuesOf
  rw [List.filter_append]
  split_ifs with heq
  · rw [List.filter_singleton, decide_eq_true heq.symm, List.map_append]
    rfl
  · rw [List.filter_singleton, decide_eq_false (Ne.symm heq), cond_false, List.append_nil]

/-- One more pair goes to the group of its key. -/
theorem groups_concat (pairs : List (κ × α)) (k : κ) (a : α) :
    groups (pairs ++ [(k, a)]) = add k a (groups pairs) := by
  have hkeys : keys (pairs ++ [(k, a)]) =
      if k ∈ pairs.map Prod.fst then keys pairs else keys pairs ++ [k] := by
    rw [keys, List.map_append]
    exact eraseDups_concat _ k
  by_cases hk : k ∈ pairs.map Prod.fst
  · rw [groups, hkeys, if_pos hk, groups, add_of_mem _ a (nodup_keys pairs) (mem_keys.mpr hk)]
    simp only [valuesOf_concat]
  · have hfresh : k ∉ keys pairs := fun h => hk (mem_keys.mp h)
    have hnil : valuesOf pairs k = [] := by
      unfold valuesOf
      rw [List.map_eq_nil_iff, List.filter_eq_nil_iff]
      intro pair hmem heq
      exact hk (of_decide_eq_true heq ▸ List.mem_map_of_mem hmem)
    rw [groups, hkeys, if_neg hk, groups, add_of_not_mem _ a hfresh, List.map_append]
    congr 1
    · refine List.map_congr_left fun k' hmem => ?_
      have hne : k' ≠ k := fun heq => hfresh (heq ▸ hmem)
      rw [valuesOf_concat, if_neg hne]
    · rw [List.map_singleton, valuesOf_concat, if_pos rfl, hnil, List.nil_append]

/-- A loop over more pairs groups all of them. -/
theorem foldl_add (pairs more : List (κ × α)) :
    more.foldl (fun groups pair => add pair.1 pair.2 groups) (groups pairs) =
      groups (pairs ++ more) := by
  induction more generalizing pairs with
  | nil => rw [List.append_nil, List.foldl_nil]
  | cons pair more ih =>
    rw [List.foldl_cons, ← groups_concat, ih, List.append_assoc]
    rfl

end Grouping
