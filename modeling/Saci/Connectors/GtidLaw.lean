import Saci.Connectors.GtidRoundTrip

/-!
# The law of GTID sets

A set that inserts and entries lead to stands for the transactions they name, and its intervals, its text and
its wire form all say so (`GtidLaw`).
-/

namespace Saci.Mariadb

open Intervals Text

/-- What holds of a set that additions lead to. -/
structure GtidLaw (additions : List Addition) (set : GtidSet) : Prop where
  /-- Sorted, disjoint and non-adjacent intervals, at least one to a group. -/
  canonical : ∀ group intervals, set.groups.lookup group = some intervals →
    Canonical intervals ∧ intervals ≠ []
  inRange : ∀ group, ∀ i ∈ set.intervals group, 1 ≤ i.1 ∧ i.2 ≤ MAX_GNO
  /-- The intervals denote the transactions added. -/
  members : ∀ group n, n ∈ covered (set.intervals group) ↔ ⟨group, n⟩ ∈ added additions
  transactions : set.transactions = (added additions).card
  /-- The blocks of a dump request are of different groups, and hold the transactions half-open. -/
  sids_nodup : (set.toSids.map fun sid => (sid.uuid, sid.tag)).Nodup
  sids : ∀ group n,
    (∃ sid ∈ set.toSids, (sid.uuid, sid.tag) = group ∧ ∃ i ∈ sid.intervals, i.start ≤ n ∧ n < i.stop) ↔
      ⟨group, n⟩ ∈ added additions
  sids_fit : ∀ sid ∈ set.toSids, ∀ i ∈ sid.intervals, i.stop < 2 ^ 64
  /-- The text is read back, with white space anywhere in it. -/
  parse : ∀ text, (text.filter fun c => !isWhitespace c) = (set.display.filter fun c => !isWhitespace c) →
    parseGtidSet text = .ok set

namespace GtidSet

variable {set : GtidSet} {group : GtidGroup} {n : Nat}

theorem mem_toSids {sid : Sid} :
    sid ∈ set.toSids ↔ (sid.uuid, sid.tag) ∈ set.groups ∧
      sid.intervals = (set.intervals (sid.uuid, sid.tag)).map fun i => ⟨i.1, i.2 + 1⟩ := by
  rw [toSids, List.mem_map]
  constructor
  · rintro ⟨⟨⟨uuid, tag⟩, intervals⟩, he, rfl⟩
    obtain ⟨hgroup, rfl⟩ := mem_entries.mp he
    exact ⟨hgroup, rfl⟩
  · obtain ⟨uuid, tag, intervals⟩ := sid
    rintro ⟨hgroup, hintervals⟩
    refine ⟨((uuid, tag), set.intervals (uuid, tag)), mem_entries.mpr ⟨hgroup, rfl⟩, ?_⟩
    exact congrArg (Sid.mk uuid tag) hintervals.symm

/-- The blocks are those of the groups, in order. -/
theorem map_toSids (set : GtidSet) :
    (set.toSids.map fun sid => (sid.uuid, sid.tag)) = set.groups.keys.sort GtidGroup.le := by
  rw [← map_fst_entries, toSids, List.map_map]
  rfl

/-- The half-open blocks hold the transactions of the set. -/
theorem exists_sid_iff :
    (∃ sid ∈ set.toSids, (sid.uuid, sid.tag) = group ∧ ∃ i ∈ sid.intervals, i.start ≤ n ∧ n < i.stop) ↔
      n ∈ covered (set.intervals group) := by
  rw [mem_covered]
  constructor
  · rintro ⟨sid, hsid, rfl, i, hi, hle, hlt⟩
    rw [(mem_toSids.mp hsid).2] at hi
    obtain ⟨j, hj, rfl⟩ := List.mem_map.mp hi
    exact ⟨j, hj, hle, Nat.le_of_lt_succ hlt⟩
  · rintro ⟨i, hi, hle, hle'⟩
    have hgroup : group ∈ set.groups := by
      by_contra hnot
      rw [intervals_of_notMem hnot] at hi
      cases hi
    exact ⟨⟨group.1, group.2, (set.intervals group).map fun i => ⟨i.1, i.2 + 1⟩⟩, mem_toSids.mpr ⟨hgroup, rfl⟩, rfl,
      ⟨i.1, i.2 + 1⟩, List.mem_map_of_mem hi, hle, Nat.lt_succ_of_le hle'⟩

end GtidSet

section
variable {additions additions' : List Addition} {set other : GtidSet}

theorem Reaches.gtidLaw (h : Reaches additions set) : GtidLaw additions set := by
  obtain ⟨hmembers, hadmissible⟩ := h.members_eq
  have hcovered : ∀ group n, n ∈ covered (set.intervals group) ↔ ⟨group, n⟩ ∈ added additions := fun group n => by
    rw [← hmembers, GtidSet.mem_members]
  have hrange : ∀ group, ∀ i ∈ set.intervals group, 1 ≤ i.1 ∧ i.2 ≤ MAX_GNO := fun group i hi =>
    have hi := GtidSet.inRange hadmissible group i hi
    ⟨hi.1, hi.2.2⟩
  refine
    { canonical := set.canonical
      inRange := hrange
      members := hcovered
      transactions := hmembers ▸ GtidSet.transactions_eq_card
      sids_nodup := ?_
      sids := fun group n => GtidSet.exists_sid_iff.trans (hcovered group n)
      sids_fit := ?_
      parse := fun text => parseGtidSet_display hadmissible }
  · rw [GtidSet.map_toSids]
    exact Finset.sort_nodup _ _
  · intro sid hsid i hi
    rw [(GtidSet.mem_toSids.mp hsid).2] at hi
    obtain ⟨j, hj, rfl⟩ := List.mem_map.mp hi
    have hj := (hrange _ j hj).2
    rw [MAX_GNO] at hj
    dsimp only
    omega

/-- **GTID sets that additions lead to stand for the transactions added, in every form they take.** -/
theorem gtidSet_law (h : Reaches additions set) (h' : Reaches additions' other) :
    GtidLaw additions set ∧ (set.isSubsetOf other = true ↔ added additions ⊆ added additions') ∧
      (added additions = added additions' ↔ set = other) ∧ (set = other → set.display = other.display) := by
  have hmembers := h.members_eq.1
  have hmembers' := h'.members_eq.1
  refine ⟨h.gtidLaw, ?_, ?_, congrArg _⟩
  · rw [GtidSet.isSubsetOf_iff, hmembers, hmembers']
  · rw [← hmembers, ← hmembers']
    exact ⟨GtidSet.eq_of_members_eq, congrArg _⟩

end

namespace GtidSet.Sample

/-- A server's transactions, one inserted and others read, some of them under a tag. -/
def additions : List Addition :=
  [.insert (Vector.replicate 16 0) none 5,
    .entry "00000000-0000-0000-0000-000000000000:6-7:9:t:1".toList]

/-- The same transactions in another order. -/
def reordered : List Addition :=
  [.entry "00000000000000000000000000000000:t:1".toList,
    .entry "00000000000000000000000000000000:9:5-7".toList]

def reached (additions : List Addition) : GtidSet :=
  match run Addition.step ∅ additions with
  | .ok (set, _) => set
  | .error _ => ∅

theorem reaches : Reaches additions (reached additions) := ⟨[(), ()], rfl⟩

theorem reaches_reordered : Reaches reordered (reached reordered) := ⟨[(), ()], rfl⟩

theorem gtidSet_law_reordered :
    GtidLaw additions (reached additions) ∧
      ((reached additions).isSubsetOf (reached reordered) = true ↔ added additions ⊆ added reordered) ∧
      (added additions = added reordered ↔ reached additions = reached reordered) ∧
      (reached additions = reached reordered → (reached additions).display = (reached reordered).display) :=
  gtidSet_law reaches reaches_reordered

end GtidSet.Sample

end Saci.Mariadb
