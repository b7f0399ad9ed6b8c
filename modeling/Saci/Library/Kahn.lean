import Mathlib.Algebra.BigOperators.Group.Finset.Basic
import Mathlib.Algebra.BigOperators.Group.Finset.Piecewise
import Mathlib.Algebra.Order.BigOperators.Group.Finset
import Mathlib.Data.Finset.Range
import Mathlib.Data.List.Count
import Mathlib.Data.List.Nodup

/-!
# Peeling a graph by in-degrees

A graph on the nodes below `n` is given by the targets of each node, in the order its edges were
added and with repetitions. Working through a node takes one off the in-degree of each of its
targets, and the targets that come to zero are ready (`settle`). `Settled` is what holds of the
nodes worked through, the nodes ready and the in-degrees, whatever the order of work is;
`layersWithin` works through all ready nodes at once.
-/

namespace Kahn

variable {n : Nat} {adjacency : Nat → List Nat} {inDegree : Nat → Nat} {targets : List Nat}
  {done queue : List Nat} {i j fuel : Nat}

/-- Take one off the in-degree of each target, and list the targets that come to zero. -/
def settle (inDegree : Nat → Nat) (targets : List Nat) : (Nat → Nat) × List Nat :=
  targets.foldl (fun (inDegree, ready) dep =>
    let inDegree := Function.update inDegree dep (inDegree dep - 1)
    if inDegree dep = 0 then (inDegree, ready ++ [dep]) else (inDegree, ready)) (inDegree, [])

theorem settle_concat (inDegree : Nat → Nat) (targets : List Nat) (dep : Nat) :
    settle inDegree (targets ++ [dep]) =
      let (inDegree', ready) := settle inDegree targets
      let inDegree' := Function.update inDegree' dep (inDegree' dep - 1)
      if inDegree' dep = 0 then (inDegree', ready ++ [dep]) else (inDegree', ready) := by
  rw [settle, List.foldl_append]
  rfl

/-- Where no in-degree is below the number of edges taken, each goes down by that number, and the
targets listed are those that lost the last one. -/
theorem settle_spec (h : ∀ j, targets.count j ≤ inDegree j) :
    (∀ j, (settle inDegree targets).1 j = inDegree j - targets.count j) ∧
      (settle inDegree targets).2.Nodup ∧
      ∀ j, j ∈ (settle inDegree targets).2 ↔ j ∈ targets ∧ inDegree j = targets.count j := by
  induction targets using List.reverseRecOn with
  | nil => simp [settle]
  | append_singleton targets dep ih =>
    have hcount (j : Nat) : (targets ++ [dep]).count j =
        targets.count j + if j = dep then 1 else 0 := by
      rw [List.count_append, List.count_singleton]
      simp only [beq_iff_eq, eq_comm (a := dep)]
    have hle (j : Nat) : targets.count j ≤ inDegree j := by
      have := h j
      rw [hcount] at this
      omega
    obtain ⟨hdeg, hnodup, hmem⟩ := ih hle
    have hpos : targets.count dep + 1 ≤ inDegree dep := by
      have := h dep
      rwa [hcount, if_pos rfl] at this
    have hupdate (j : Nat) : Function.update (settle inDegree targets).1 dep
        ((settle inDegree targets).1 dep - 1) j = inDegree j - (targets ++ [dep]).count j := by
      rw [hcount, Function.update_apply]
      split_ifs with hj
      · rw [hj, hdeg]; omega
      · rw [hdeg]; omega
    rw [settle_concat]
    dsimp only
    split_ifs with hzero
    · rw [hupdate, hcount, if_pos rfl] at hzero
      refine ⟨hupdate, ?_, fun j => ?_⟩
      · refine List.nodup_append.mpr ⟨hnodup, List.nodup_singleton dep, fun j hj k hk hjk => ?_⟩
        cases List.mem_singleton.mp hk
        have hlast := ((hmem j).mp hj).2
        rw [hjk] at hlast
        omega
      · rw [List.mem_append, List.mem_singleton, hmem, hcount, List.mem_append,
          List.mem_singleton]
        grind
    · rw [hupdate, hcount, if_pos rfl] at hzero
      refine ⟨hupdate, hnodup, fun j => ?_⟩
      rw [hmem, hcount, List.mem_append, List.mem_singleton]
      grind

/-! ## What is left of a graph -/

/-- The number of edges into `j` from nodes that are not worked through. -/
def remaining (n : Nat) (adjacency : Nat → List Nat) (done : List Nat) (j : Nat) : Nat :=
  ∑ i ∈ (Finset.range n).filter (· ∉ done), (adjacency i).count j

/-- The nodes worked through, those that are ready, and the in-degrees that are left. -/
structure Settled (n : Nat) (adjacency : Nat → List Nat) (done queue : List Nat)
    (inDegree : Nat → Nat) : Prop where
  nodup : (done ++ queue).Nodup
  lt : ∀ i ∈ done ++ queue, i < n
  degree : ∀ j, inDegree j = remaining n adjacency done j
  ready : ∀ j < n, inDegree j = 0 ↔ j ∈ done ++ queue

theorem remaining_eq_zero_iff :
    remaining n adjacency done j = 0 ↔ ∀ i < n, j ∈ adjacency i → i ∈ done := by
  rw [remaining, Finset.sum_eq_zero_iff]
  refine forall_congr' fun i => ?_
  rw [Finset.mem_filter, Finset.mem_range, List.count_eq_zero]
  tauto

/-- Working through some of the nodes that are left takes their edges away. -/
theorem remaining_append (hnodup : queue.Nodup) (hlt : ∀ i ∈ queue, i < n)
    (hdisjoint : ∀ i ∈ queue, i ∉ done) :
    remaining n adjacency done j =
      remaining n adjacency (done ++ queue) j + (queue.flatMap adjacency).count j := by
  have hcount : (queue.flatMap adjacency).count j =
      ∑ i ∈ queue.toFinset, (adjacency i).count j := by
    rw [List.count_flatMap, List.sum_toFinset _ hnodup]
    rfl
  have hsplit : (Finset.range n).filter (· ∉ done) =
      (Finset.range n).filter (· ∉ done ++ queue) ∪ queue.toFinset := by
    ext i
    simp only [Finset.mem_filter, Finset.mem_range, Finset.mem_union, List.mem_toFinset,
      List.mem_append]
    have := hlt i
    have := hdisjoint i
    tauto
  have hdisj : Disjoint ((Finset.range n).filter (· ∉ done ++ queue)) queue.toFinset := by
    rw [Finset.disjoint_left]
    intro i hi hq
    rw [Finset.mem_filter, List.mem_append] at hi
    exact hi.2 (.inr (List.mem_toFinset.mp hq))
  rw [remaining, remaining, hcount, hsplit, Finset.sum_union hdisj]

/-- The targets of a node in a list of edges. -/
def adjacencyOf (edges : List (Nat × Nat)) (i : Nat) : List Nat :=
  (edges.filter fun edge => edge.1 = i).map (·.2)

/-- The number of edges into a node. -/
def inDegreeOf (edges : List (Nat × Nat)) (j : Nat) : Nat :=
  (edges.filter fun edge => edge.2 = j).length

theorem mem_adjacencyOf {edges : List (Nat × Nat)} :
    j ∈ adjacencyOf edges i ↔ (i, j) ∈ edges := by
  simp [adjacencyOf]

/-- Before any work the in-degrees count the edges. -/
theorem inDegreeOf_eq_remaining {edges : List (Nat × Nat)} (h : ∀ edge ∈ edges, edge.1 < n)
    (j : Nat) : inDegreeOf edges j = remaining n (adjacencyOf edges) [] j := by
  induction edges with
  | nil => simp [inDegreeOf, remaining, adjacencyOf]
  | cons edge edges ih =>
    obtain ⟨hhead, htail⟩ := List.forall_mem_cons.mp h
    have hadj (i : Nat) : (adjacencyOf (edge :: edges) i).count j =
        (if i = edge.1 then if edge.2 = j then 1 else 0 else 0) +
          (adjacencyOf edges i).count j := by
      by_cases hi : edge.1 = i
      · simp [adjacencyOf, hi, List.count_cons, add_comm]
      · simp [adjacencyOf, hi, Ne.symm hi]
    have hdeg : inDegreeOf (edge :: edges) j =
        (if edge.2 = j then 1 else 0) + inDegreeOf edges j := by
      by_cases hj : edge.2 = j
      · simp [inDegreeOf, hj, add_comm]
      · simp [inDegreeOf, hj]
    rw [hdeg, ih htail, remaining, remaining, Finset.sum_congr rfl fun i _ => hadj i,
      Finset.sum_add_distrib, Finset.sum_ite_eq']
    simp [hhead]

namespace Settled

/-- At the start the ready nodes are those without edges into them. -/
theorem start (hdegree : ∀ j, inDegree j = remaining n adjacency [] j) :
    Settled n adjacency [] ((List.range n).filter fun i => inDegree i = 0) inDegree where
  nodup := List.nodup_range.filter _
  lt i hi := List.mem_range.mp (List.mem_of_mem_filter hi)
  degree := hdegree
  ready j hj := by simp [hj]

/-- The sources of the edges into a node that is ready are all worked through. -/
theorem mem_done (h : Settled n adjacency done queue inDegree) (hj : j ∈ done ++ queue)
    (hi : i < n) (hedge : j ∈ adjacency i) : i ∈ done := by
  have hzero := (h.ready j (h.lt j hj)).mpr hj
  rw [h.degree, remaining_eq_zero_iff] at hzero
  exact hzero i hi hedge

/-- Working through the nodes at the head of the queue. -/
theorem step {front back : List Nat}
    (h : Settled n adjacency done (front ++ back) inDegree)
    (hadj : ∀ i < n, ∀ j ∈ adjacency i, j < n) :
    Settled n adjacency (done ++ front)
      (back ++ (settle inDegree (front.flatMap adjacency)).2)
      (settle inDegree (front.flatMap adjacency)).1 := by
  have hall := List.nodup_append.mp h.nodup
  have hfront : front.Nodup := (List.nodup_append.mp hall.2.1).1
  have hlt : ∀ i ∈ front, i < n := fun i hi =>
    h.lt i (List.mem_append_right _ (List.mem_append_left _ hi))
  have hdisjoint : ∀ i ∈ front, i ∉ done := fun i hi hd =>
    hall.2.2 i hd i (List.mem_append_left _ hi) rfl
  have hsplit (j : Nat) : inDegree j = remaining n adjacency (done ++ front) j +
      (front.flatMap adjacency).count j :=
    (h.degree j).trans (remaining_append hfront hlt hdisjoint)
  obtain ⟨hdeg, hready, hmem⟩ := settle_spec fun j => (hsplit j).symm ▸ Nat.le_add_left _ _
  have hnew (j : Nat) : j ∈ (settle inDegree (front.flatMap adjacency)).2 ↔
      j ∉ done ++ (front ++ back) ∧ j < n ∧
        (settle inDegree (front.flatMap adjacency)).1 j = 0 := by
    rw [hmem, hdeg]
    constructor
    · rintro ⟨htarget, heq⟩
      obtain ⟨i, hi, hedge⟩ := List.mem_flatMap.mp htarget
      have hj := hadj i (hlt i hi) j hedge
      have hpos := List.count_pos_iff.mpr htarget
      exact ⟨fun hin => by have := (h.ready j hj).mpr hin; omega, hj, by omega⟩
    · rintro ⟨hnot, hj, hzero⟩
      have hpos : inDegree j ≠ 0 := fun h0 => hnot ((h.ready j hj).mp h0)
      have heq := hsplit j
      exact ⟨List.count_pos_iff.mp (by omega), by omega⟩
  refine ⟨?_, ?_, fun j => ?_, fun j hj => ?_⟩
  · rw [List.append_assoc, ← List.append_assoc front, ← List.append_assoc done]
    refine List.nodup_append.mpr ⟨h.nodup, hready, fun i hi k hk hik => ?_⟩
    exact ((hnew k).mp hk).1 (hik ▸ hi)
  · intro i hi
    rw [List.append_assoc, ← List.append_assoc front, ← List.append_assoc done] at hi
    rcases List.mem_append.mp hi with hi | hi
    · exact h.lt i hi
    · exact ((hnew i).mp hi).2.1
  · rw [hdeg, hsplit, Nat.add_sub_cancel]
  · rw [List.append_assoc, ← List.append_assoc front, ← List.append_assoc done, List.mem_append,
      hnew, ← h.ready j hj, hdeg]
    constructor
    · intro hzero
      by_cases h0 : inDegree j = 0
      · exact .inl h0
      · exact .inr ⟨h0, hj, hzero⟩
    · rintro (h0 | ⟨-, -, hzero⟩)
      · omega
      · exact hzero

/-- Working through the whole queue. -/
theorem step_all (h : Settled n adjacency done queue inDegree)
    (hadj : ∀ i < n, ∀ j ∈ adjacency i, j < n) :
    Settled n adjacency (done ++ queue) (settle inDegree (queue.flatMap adjacency)).2
      (settle inDegree (queue.flatMap adjacency)).1 := by
  have hqueue : Settled n adjacency done (queue ++ []) inDegree := by rwa [List.append_nil]
  exact hqueue.step hadj

/-- There are never more nodes than the graph has. -/
theorem length_le (h : Settled n adjacency done queue inDegree) :
    (done ++ queue).length ≤ n := by
  have hsub : (done ++ queue).toFinset ⊆ Finset.range n := fun i hi =>
    Finset.mem_range.mpr (h.lt i (List.mem_toFinset.mp hi))
  have hcard := Finset.card_le_card hsub
  rwa [List.toFinset_card_of_nodup h.nodup, Finset.card_range] at hcard

end Settled

/-! ## Layers -/

/-- Work through all ready nodes, then through those that are ready after them, and so on. -/
def layersWithin (adjacency : Nat → List Nat) : Nat → List Nat → (Nat → Nat) → List (List Nat)
  | 0, _, _ => []
  | fuel + 1, queue, inDegree =>
    if queue.isEmpty then []
    else
      let (inDegree, nextQueue) := settle inDegree (queue.flatMap adjacency)
      queue :: layersWithin adjacency fuel nextQueue inDegree

/-- `layersWithin`, with one round for each node. -/
def layers (n : Nat) (adjacency : Nat → List Nat) (inDegree : Nat → Nat) : List (List Nat) :=
  layersWithin adjacency n ((List.range n).filter fun i => inDegree i = 0) inDegree

theorem layersWithin_nil (fuel : Nat) (inDegree : Nat → Nat) :
    layersWithin adjacency fuel [] inDegree = [] := by
  cases fuel <;> rfl

/-- More rounds than there are nodes left change nothing. -/
theorem layersWithin_fuel (hadj : ∀ i < n, ∀ j ∈ adjacency i, j < n) {fuel' : Nat}
    (h : Settled n adjacency done queue inDegree) (hfuel : n ≤ done.length + fuel)
    (hfuel' : n ≤ done.length + fuel') :
    layersWithin adjacency fuel queue inDegree = layersWithin adjacency fuel' queue inDegree := by
  induction fuel generalizing fuel' done queue inDegree with
  | zero =>
    have hle := h.length_le
    rw [List.length_append] at hle
    obtain rfl : queue = [] := List.length_eq_zero_iff.mp (by omega)
    rw [layersWithin_nil, layersWithin_nil]
  | succ fuel ih =>
    by_cases hempty : queue = []
    · rw [hempty, layersWithin_nil, layersWithin_nil]
    · have hpos := List.length_pos_iff.mpr hempty
      have hle := h.length_le
      rw [List.length_append] at hle
      obtain _ | fuel' := fuel'
      · omega
      have hstep := h.step_all hadj
      rw [layersWithin, layersWithin, if_neg (by simpa using hempty), if_neg (by simpa using hempty)]
      refine congrArg (queue :: ·) (ih hstep ?_ ?_)
      · rw [List.length_append]; omega
      · rw [List.length_append]; omega

/-- Every node that has come into a layer came once, below `n`, and after all nodes with an edge
to it. -/
theorem flatten_layersWithin (fuel : Nat) (hadj : ∀ i < n, ∀ j ∈ adjacency i, j < n)
    (h : Settled n adjacency done queue inDegree) :
    (done ++ (layersWithin adjacency fuel queue inDegree).flatten).Nodup ∧
      (∀ i ∈ (layersWithin adjacency fuel queue inDegree).flatten, i < n) ∧
      ∀ before layer after, layersWithin adjacency fuel queue inDegree = before ++ layer :: after →
        ∀ j ∈ layer, ∀ i < n, j ∈ adjacency i → i ∈ done ++ before.flatten := by
  induction fuel generalizing done queue inDegree with
  | zero =>
    refine ⟨?_, fun i hi => (nomatch hi), fun before layer after heq => ?_⟩
    · simpa [layersWithin] using (List.nodup_append.mp h.nodup).1
    · simp [layersWithin] at heq
  | succ fuel ih =>
    by_cases hempty : queue = []
    · refine ⟨?_, ?_, fun before layer after heq => ?_⟩
      · simpa [hempty, layersWithin_nil] using (List.nodup_append.mp h.nodup).1
      · simp [hempty, layersWithin_nil]
      · simp [hempty, layersWithin_nil] at heq
    · have hstep := h.step_all hadj
      obtain ⟨hnodup, hlt, hafter⟩ := ih hstep
      rw [layersWithin, if_neg (by simpa using hempty)]
      refine ⟨?_, fun i hi => ?_, fun before layer after heq => ?_⟩
      · simpa using hnodup
      · rcases List.mem_append.mp hi with hi | hi
        · exact h.lt i (List.mem_append_right _ hi)
        · exact hlt i hi
      · intro j hj i hi hedge
        obtain _ | ⟨first, before⟩ := before
        · obtain ⟨rfl, -⟩ := List.cons.inj heq
          exact List.mem_append_left _ (h.mem_done (List.mem_append_right _ hj) hi hedge)
        · obtain ⟨rfl, hrest⟩ := List.cons.inj heq
          simpa using hafter before layer after hrest j hj i hi hedge

end Kahn
