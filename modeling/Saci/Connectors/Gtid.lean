import Saci.Core.Error
import Saci.Library.Intervals
import Mathlib.Data.Finmap
import Mathlib.Algebra.BigOperators.Group.Finset.Basic
import Mathlib.Algebra.Order.BigOperators.Group.Finset
import Mathlib.Algebra.BigOperators.Group.Finset.Sigma

/-!
# GTID sets

`GtidSet` (`saci-connector-mariadb/src/source/gtid.rs`): the transactions executed so far, as merged
intervals for each server and tag. What it decides on the intervals is what it says about the set of
transactions (`isSubsetOf_iff`).
-/

namespace Saci.Mariadb

open Intervals

abbrev Uuid := Vector UInt8 16

/-- One UUID's transactions under one tag. -/
abbrev GtidGroup := Uuid × Option String

/-- The largest transaction number MySQL assigns. -/
def MAX_GNO : Nat := 2 ^ 63 - 1

def checkGno (gno : Nat) : Except String Unit :=
  if gno = 0 ∨ MAX_GNO < gno then .error s!"transaction number {gno} is outside 1..={MAX_GNO}"
  else .ok ()

/-- Whether a text is `[a-z_][a-z0-9_]{0,31}`. -/
def isTag (tag : String) : Bool :=
  match tag.toList with
  | [] => false
  | c :: rest =>
    (lower c || c = '_') && rest.all (fun c => lower c || c.isDigit || c = '_') && rest.length ≤ 31
where
  lower (c : Char) : Bool := 'a' ≤ c ∧ c ≤ 'z'

/-- The detail of a refused tag is left out. -/
def checkTag (tag : String) : Except String String :=
  if isTag tag then .ok tag else .error s!"tag '{tag}'"

/-- A set of executed transactions, grouped by server UUID and tag. -/
structure GtidSet where
  groups : Finmap fun _ : GtidGroup => List Interval
  canonical : ∀ group intervals, groups.lookup group = some intervals →
    Canonical intervals ∧ intervals ≠ []
  deriving DecidableEq

namespace GtidSet

/-- The intervals of a group; none where the set has no such group. -/
def intervals (set : GtidSet) (group : GtidGroup) : List Interval := (set.groups.lookup group).getD []

theorem canonical_intervals (set : GtidSet) (group : GtidGroup) : Canonical (set.intervals group) := by
  rw [intervals]
  cases h : set.groups.lookup group with
  | none => exact .nil
  | some intervals => exact (set.canonical group intervals h).1

instance : EmptyCollection GtidSet :=
  ⟨∅, fun group intervals h => by rw [Finmap.lookup_empty] at h; cases h⟩

theorem addRange_ne_nil (intervals : List Interval) (lo hi : Nat) : addRange intervals lo hi ≠ [] := by
  have habsorb : ∀ (is : List Interval) (lo hi : Nat), absorb lo hi is ≠ [] := by
    intro is
    induction is with
    | nil => exact fun lo hi => List.cons_ne_nil _ _
    | cons i is ih =>
      intro lo hi
      rw [absorb]
      split_ifs
      · exact ih _ _
      · exact List.cons_ne_nil _ _
  exact fun hnil => habsorb _ _ _ (List.append_eq_nil_iff.mp hnil).2

/-- A range added to one group leaves every group canonical. -/
theorem canonical_insert (set : GtidSet) (group : GtidGroup) {lo hi : Nat} (hle : lo ≤ hi) (group' : GtidGroup)
    (intervals : List Interval)
    (h : (set.groups.insert group (addRange (set.intervals group) lo hi)).lookup group' = some intervals) :
    Canonical intervals ∧ intervals ≠ [] := by
  by_cases heq : group' = group
  · subst heq
    rw [Finmap.lookup_insert] at h
    cases h
    exact ⟨(set.canonical_intervals group').addRange hle, addRange_ne_nil _ _ _⟩
  · rw [Finmap.lookup_insert_of_ne _ heq] at h
    exact set.canonical group' intervals h

/-- The set with one transaction more. -/
def add (set : GtidSet) (group : GtidGroup) (gno : Nat) : GtidSet where
  groups := set.groups.insert group (addRange (set.intervals group) gno gno)
  canonical := set.canonical_insert group le_rfl

/-- `insert`. -/
def insert (set : GtidSet) (uuid : Uuid) (tag : Option String) (gno : Nat) : Except String GtidSet := do
  checkGno gno
  let tag ← tag.mapM checkTag
  return set.add (uuid, tag) gno

/-- `is_subset_of`. -/
def isSubsetOf (set other : GtidSet) : Bool :=
  decide <| ∀ group ∈ set.groups.keys,
    (other.groups.lookup group).any (subset (set.intervals group)) = true

/-- How many transactions the set holds. -/
def transactions (set : GtidSet) : Nat := ∑ group ∈ set.groups.keys, size (set.intervals group)

/-! ## The transactions of a set -/

/-- The transactions that a set holds. -/
def members (set : GtidSet) : Finset (Σ _ : GtidGroup, Nat) :=
  set.groups.keys.sigma fun group => covered (set.intervals group)

variable {set other : GtidSet} {group : GtidGroup} {n : Nat}

theorem intervals_of_notMem (h : group ∉ set.groups) : set.intervals group = [] := by
  rw [intervals, Finmap.lookup_eq_none.mpr h]
  rfl

theorem lookup_of_mem (h : group ∈ set.groups) :
    set.groups.lookup group = some (set.intervals group) := by
  obtain ⟨intervals, hlookup⟩ := Finmap.mem_iff.mp h
  rw [GtidSet.intervals, hlookup]
  rfl

theorem mem_members : ⟨group, n⟩ ∈ set.members ↔ n ∈ covered (set.intervals group) := by
  rw [members, Finset.mem_sigma, Finmap.mem_keys, and_iff_right_iff_imp]
  intro hcovered
  by_contra hnot
  rw [intervals_of_notMem hnot] at hcovered
  exact absurd hcovered (Finset.notMem_empty n)

theorem covered_nonempty (h : group ∈ set.groups) : (covered (set.intervals group)).Nonempty := by
  obtain ⟨hcanonical, hne⟩ := set.canonical group _ (lookup_of_mem h)
  obtain ⟨i, rest, hcons⟩ := List.exists_cons_of_ne_nil hne
  refine ⟨i.1, mem_covered.mpr ⟨i, ?_, le_rfl, hcanonical.nonempty i ?_⟩⟩
  · exact hcons ▸ List.mem_cons_self
  · exact hcons ▸ List.mem_cons_self

/-- The intervals say whether one set of transactions is part of another. -/
theorem isSubsetOf_iff : set.isSubsetOf other = true ↔ set.members ⊆ other.members := by
  rw [isSubsetOf, decide_eq_true_eq]
  constructor
  · intro h
    rintro ⟨group, n⟩ hmem
    have hmem' := mem_members.mp hmem
    have hgroup : group ∈ set.groups := by
      by_contra hnot
      rw [intervals_of_notMem hnot] at hmem'
      exact absurd hmem' (Finset.notMem_empty n)
    have hsubset := h group (Finmap.mem_keys.mpr hgroup)
    cases hlookup : other.groups.lookup group with
    | none =>
      rw [hlookup] at hsubset
      cases hsubset
    | some theirs =>
      rw [hlookup, Option.any_some] at hsubset
      have htheirs : other.intervals group = theirs := by rw [intervals, hlookup, Option.getD_some]
      refine mem_members.mpr (htheirs ▸ ?_)
      exact ((set.canonical_intervals group).subset_iff (other.canonical _ _ hlookup).1).mp hsubset hmem'
  · intro h group hgroup
    have hgroup := Finmap.mem_keys.mp hgroup
    have hcovered : covered (set.intervals group) ⊆ covered (other.intervals group) := fun n hn =>
      mem_members.mp (h (mem_members.mpr hn))
    have htheirs : group ∈ other.groups := by
      by_contra hnot
      obtain ⟨n, hn⟩ := covered_nonempty hgroup
      have := hcovered hn
      rw [intervals_of_notMem hnot] at this
      exact absurd this (Finset.notMem_empty n)
    rw [lookup_of_mem htheirs, Option.any_some]
    exact ((set.canonical_intervals group).subset_iff (other.canonical_intervals group)).mpr hcovered

theorem transactions_eq_card : set.transactions = set.members.card := by
  rw [transactions, members, Finset.card_sigma]
  exact Finset.sum_congr rfl fun group _ => (set.canonical_intervals group).card_covered.symm

theorem isSubsetOf_refl : set.isSubsetOf set = true := isSubsetOf_iff.mpr subset_rfl

theorem isSubsetOf_trans {third : GtidSet} (h : set.isSubsetOf other = true)
    (h' : other.isSubsetOf third = true) : set.isSubsetOf third = true :=
  isSubsetOf_iff.mpr ((isSubsetOf_iff.mp h).trans (isSubsetOf_iff.mp h'))

/-- Of two sets, one of which holds the other, the smaller count is that of the part. -/
theorem isSubsetOf_of_transactions_le (h : set.isSubsetOf other = true ∨ other.isSubsetOf set = true)
    (hle : set.transactions ≤ other.transactions) : set.isSubsetOf other = true := by
  rcases h with h | h
  · exact h
  · rw [transactions_eq_card, transactions_eq_card] at hle
    rw [isSubsetOf_iff] at h ⊢
    exact (Finset.eq_of_subset_of_card_le h hle).ge

theorem mem_add {group' : GtidGroup} {gno : Nat} :
    ⟨group', n⟩ ∈ (set.add group gno).members ↔ (group' = group ∧ n = gno) ∨ ⟨group', n⟩ ∈ set.members := by
  rw [mem_members, mem_members, intervals, add]
  by_cases heq : group' = group
  · subst heq
    rw [Finmap.lookup_insert, Option.getD_some, (set.canonical_intervals group').covered_addRange le_rfl,
      Finset.mem_union, Finset.Icc_self, Finset.mem_singleton]
    simp
  · rw [Finmap.lookup_insert_of_ne _ heq]
    simp [heq, intervals]

theorem isSubsetOf_add (gno : Nat) : set.isSubsetOf (set.add group gno) = true :=
  isSubsetOf_iff.mpr fun _ hmem => mem_add.mpr (.inr hmem)

theorem insert_eq_ok {uuid : Uuid} {tag : Option String} {gno : Nat}
    (h : set.insert uuid tag gno = .ok other) : ∃ group, other = set.add group gno := by
  obtain ⟨-, -, h⟩ := bind_eq_ok_iff.mp h
  obtain ⟨tag, -, h⟩ := bind_eq_ok_iff.mp h
  exact ⟨(uuid, tag), (Except.ok.inj h).symm⟩

end GtidSet
end Saci.Mariadb
