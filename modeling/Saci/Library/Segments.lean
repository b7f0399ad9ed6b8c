import Mathlib.Data.List.Basic
import Mathlib.Logic.Relation

/-!
# Segments of a list

A scan numbers the elements of a list, and goes up by one wherever two neighbours are broken apart. Where
neighbours that are not broken apart are linked, and no link leads across a break, two elements have one
number exactly if a chain of links leads from one to the other (`Separated.number_eq_iff`).
-/

namespace Segments

variable {α : Type} {brk : α → α → Bool} {link : α → α → Prop} {l : List α} {i j : Nat}

/-- The numbers of the elements, from `id` on. -/
def number (brk : α → α → Bool) : Int → List α → List Int
  | _, [] => []
  | id, [_] => [id]
  | id, a :: b :: rest => id :: number brk (if brk a b then id + 1 else id) (b :: rest)

/-- The breaks before a position. -/
def breaks (brk : α → α → Bool) (l : List α) (i : Nat) : Nat :=
  ((l.zip l.tail).take i).countP fun pair => brk pair.1 pair.2

/-- The number of an element is that of the breaks before it. -/
theorem number_getElem? (id : Int) (hi : i < l.length) :
    (number brk id l)[i]? = some (id + breaks brk l i) := by
  fun_induction number brk id l generalizing i with
  | case1 => cases hi
  | case2 id a =>
    obtain rfl : i = 0 := Nat.lt_one_iff.mp hi
    exact congrArg some (Int.add_zero id).symm
  | case3 id a b rest ih =>
    cases i with
    | zero => exact congrArg some (Int.add_zero id).symm
    | succ i =>
      rw [List.getElem?_cons_succ, ih (Nat.lt_of_succ_lt_succ hi)]
      have hbreaks : breaks brk (a :: b :: rest) (i + 1) =
          breaks brk (b :: rest) i + if brk a b then 1 else 0 := List.countP_cons
      rw [hbreaks]
      split_ifs
      · congr 1
        push_cast
        omega
      · rfl

/-- Some neighbours from `i` to `j` are broken apart. -/
def Broken (brk : α → α → Bool) (l : List α) (i j : Nat) : Prop :=
  ∃ r, i ≤ r ∧ r < j ∧ ∃ a b, l[r]? = some a ∧ l[r + 1]? = some b ∧ brk a b = true

theorem breaks_eq_iff (hij : i ≤ j) : breaks brk l i = breaks brk l j ↔ ¬Broken brk l i j := by
  have hsplit : breaks brk l j = breaks brk l i +
      (((l.zip l.tail).drop i).take (j - i)).countP fun pair => brk pair.1 pair.2 := by
    rw [breaks, breaks, ← List.countP_append, ← List.take_add, Nat.add_sub_cancel' hij]
  have hzero : breaks brk l i = breaks brk l j ↔
      (((l.zip l.tail).drop i).take (j - i)).countP (fun pair => brk pair.1 pair.2) = 0 := by
    omega
  rw [hzero, List.countP_eq_zero]
  constructor
  · rintro h ⟨r, hir, hrj, a, b, ha, hb, hbroken⟩
    refine h (a, b) (List.mem_iff_getElem?.mpr ⟨r - i, ?_⟩) hbroken
    rw [List.getElem?_take_of_lt (by omega), List.getElem?_drop, Nat.add_sub_cancel' hir,
      List.getElem?_zip_eq_some, List.getElem?_tail]
    exact ⟨ha, hb⟩
  · rintro h ⟨a, b⟩ hmem hbroken
    obtain ⟨k, hk⟩ := List.mem_iff_getElem?.mp hmem
    rw [List.getElem?_take] at hk
    split_ifs at hk with hlt
    rw [List.getElem?_drop, List.getElem?_zip_eq_some, List.getElem?_tail] at hk
    exact h ⟨i + k, by omega, by omega, a, b, hk.1, hk.2, hbroken⟩

/-- The elements at two positions are linked. -/
def Linked (link : α → α → Prop) (l : List α) (i j : Nat) : Prop :=
  ∃ a b, l[i]? = some a ∧ l[j]? = some b ∧ link a b

/-- Links are between neighbours that are not broken apart, and lead across no break. -/
structure Separated (brk : α → α → Bool) (link : α → α → Prop) (l : List α) : Prop where
  symm : ∀ {a b}, link a b → link b a
  joins : ∀ {r a b}, l[r]? = some a → l[r + 1]? = some b → brk a b = false → link a b
  parts : ∀ {i j}, i ≤ j → Broken brk l i j → ¬Linked link l i j

/-- Positions without a break between them are linked by a chain, and no others. -/
theorem Separated.chain_iff (h : Separated brk link l) (hij : i ≤ j) (hj : j < l.length) :
    Relation.ReflTransGen (Linked link l) i j ↔ ¬Broken brk l i j := by
  constructor
  · rintro hchain ⟨r, hir, hrj, hbreak⟩
    -- the chain stays on this side of the break
    have hstays : ∀ {k}, Relation.ReflTransGen (Linked link l) i k → k ≤ r := by
      intro k hk
      induction hk with
      | refl => exact hir
      | @tail k k' _ hlink hle =>
        by_contra hover
        exact h.parts (by omega) ⟨r, hle, by omega, hbreak⟩ hlink
    exact absurd (hstays hchain) (by omega)
  · intro hnot
    obtain ⟨k, rfl⟩ := Nat.exists_eq_add_of_le hij
    induction k with
    | zero => exact .refl
    | succ k ih =>
      have hprev := ih (Nat.le_add_right i k) (by omega) fun ⟨r, hir, hrk, hbreak⟩ =>
        hnot ⟨r, hir, by omega, hbreak⟩
      have ha : l[i + k]? = some l[i + k] := List.getElem?_eq_getElem (by omega)
      have hb : l[i + k + 1]? = some l[i + k + 1] := List.getElem?_eq_getElem hj
      refine hprev.tail ⟨_, _, ha, hb, h.joins ha hb (Bool.eq_false_iff.mpr fun hbreak => ?_)⟩
      exact hnot ⟨i + k, by omega, by omega, _, _, ha, hb, hbreak⟩

/-- **Segments** are the classes of the chains of links. -/
theorem Separated.number_eq_iff (h : Separated brk link l) (id : Int) (hi : i < l.length)
    (hj : j < l.length) :
    (number brk id l)[i]? = (number brk id l)[j]? ↔ Relation.ReflTransGen (Linked link l) i j := by
  have hsymm : Std.Symm (Linked link l) := ⟨fun _ _ ⟨a, b, ha, hb, hab⟩ => ⟨b, a, hb, ha, h.symm hab⟩⟩
  rw [number_getElem? id hi, number_getElem? id hj]
  rcases Nat.le_total i j with hij | hji
  · rw [h.chain_iff hij hj, ← breaks_eq_iff hij, Option.some.injEq]
    omega
  · have hback : Relation.ReflTransGen (Linked link l) i j ↔
        Relation.ReflTransGen (Linked link l) j i := comm
    rw [hback, h.chain_iff hji hi, ← breaks_eq_iff hji, Option.some.injEq]
    omega

end Segments
