import Mathlib.Order.Bounds.Basic
import Saci.Library.Kahn

/-!
# Levels of a graph

A worklist takes the nodes of a graph one at a time, those without edges into them first, and puts
every target of a node at least one level above it. Once all nodes are worked through, the level
of a node is the length of the longest chain of edges that ends there.
-/

namespace Kahn

variable {n : Nat} {adjacency : Nat → List Nat} {edge : Nat → Nat → Prop} {done : List Nat}
  {i j k fuel : Nat}

/-- A chain of `k` edges that ends at `j`. -/
inductive ChainInto (edge : Nat → Nat → Prop) : Nat → Nat → Prop
  | single (j : Nat) : ChainInto edge 0 j
  | step {k i j : Nat} : ChainInto edge k i → edge i j → ChainInto edge (k + 1) j

theorem ChainInto.mono {edge' : Nat → Nat → Prop} (h : ∀ i j, edge i j → edge' i j)
    (hchain : ChainInto edge k j) : ChainInto edge' k j := by
  induction hchain with
  | single j => exact .single j
  | step _ hij ih => exact ih.step (h _ _ hij)

/-- The levels and in-degrees so far, and the nodes that wait. -/
structure Worklist where
  levels : Nat → Nat
  inDegree : Nat → Nat
  queue : List Nat

namespace Worklist

/-- Take the edge from `i` to `j`. -/
def take (i : Nat) (w : Worklist) (j : Nat) : Worklist :=
  let inDegree := Function.update w.inDegree j (w.inDegree j - 1)
  { levels := Function.update w.levels j (max (w.levels j) (w.levels i + 1))
    inDegree
    queue := if inDegree j = 0 then w.queue ++ [j] else w.queue }

/-- Work through the queue from its head. -/
def drain (adjacency : Nat → List Nat) : Nat → Worklist → Worklist
  | 0, w => w
  | fuel + 1, w =>
    match w.queue with
    | [] => w
    | i :: queue => drain adjacency fuel ((adjacency i).foldl (take i) { w with queue })

/-- The worklist before any work. -/
def start (n : Nat) (inDegree : Nat → Nat) : Worklist where
  levels := fun _ => 0
  inDegree := inDegree
  queue := (List.range n).filter fun i => inDegree i = 0

/-- What taking the edges of a node does to the in-degrees and the queue. -/
theorem foldl_take_settle (i : Nat) (targets : List Nat) (w : Worklist) :
    (targets.foldl (take i) w).inDegree = (settle w.inDegree targets).1 ∧
      (targets.foldl (take i) w).queue = w.queue ++ (settle w.inDegree targets).2 := by
  induction targets using List.reverseRecOn with
  | nil => simp [settle]
  | append_singleton targets j ih =>
    rw [List.foldl_append, List.foldl_cons, List.foldl_nil, settle_concat, take, ih.1, ih.2]
    dsimp only
    split_ifs <;> simp

/-- What it does to the levels. -/
theorem foldl_take_levels {targets : List Nat} (hi : i ∉ targets) (w : Worklist) (j : Nat) :
    (targets.foldl (take i) w).levels j =
      if j ∈ targets then max (w.levels j) (w.levels i + 1) else w.levels j := by
  induction targets using List.reverseRecOn generalizing j with
  | nil => simp
  | append_singleton targets t ih =>
    rw [List.mem_append, List.mem_singleton, not_or] at hi
    have hsource : (targets.foldl (take i) w).levels i = w.levels i := by
      rw [ih hi.1, if_neg hi.1]
    have hlast : ((targets ++ [t]).foldl (take i) w).levels j =
        if j = t then max ((targets.foldl (take i) w).levels t) (w.levels i + 1)
        else (targets.foldl (take i) w).levels j := by
      rw [List.foldl_append, ← hsource]
      exact Function.update_apply _ t _ j
    rw [hlast]
    by_cases hj : j = t
    · rw [if_pos hj, if_pos (by simp [hj]), hj, ih hi.1]
      split_ifs
      · rw [max_assoc, max_self]
      · rfl
    · rw [if_neg hj, ih hi.1]
      simp only [List.mem_append, List.mem_singleton, hj, or_false]

end Worklist

/-! ## What holds of a worklist -/

/-- The levels are lengths of chains, and the targets of the nodes worked through are above
them. -/
structure Leveled (n : Nat) (adjacency : Nat → List Nat) (done : List Nat) (w : Worklist) :
    Prop where
  settled : Settled n adjacency done w.queue w.inDegree
  attained : ∀ j, ChainInto (fun i j => j ∈ adjacency i) (w.levels j) j
  above : ∀ i ∈ done, ∀ j ∈ adjacency i, w.levels i + 1 ≤ w.levels j

namespace Leveled

variable {w : Worklist}

theorem start {inDegree : Nat → Nat} (hdegree : ∀ j, inDegree j = remaining n adjacency [] j) :
    Leveled n adjacency [] (.start n inDegree) where
  settled := Settled.start hdegree
  attained j := .single j
  above _ hi := (nomatch hi)

/-- Working through the node at the head of the queue. -/
theorem step {queue : List Nat} (hadj : ∀ i < n, ∀ j ∈ adjacency i, j < n)
    (h : Leveled n adjacency done w) (hqueue : w.queue = i :: queue) :
    Leveled n adjacency (done ++ [i])
      ((adjacency i).foldl (Worklist.take i) { w with queue }) := by
  obtain ⟨hdegree, hback⟩ := Worklist.foldl_take_settle i (adjacency i) { w with queue }
  have hsettled : Settled n adjacency done ([i] ++ queue) w.inDegree := by
    have := h.settled
    rwa [hqueue] at this
  have hlt : i < n := hsettled.lt i (List.mem_append_right _ (List.mem_append_left _
    (List.mem_singleton_self i)))
  have hnot : i ∉ done := fun hd =>
    (List.nodup_append.mp hsettled.nodup).2.2 i hd i
      (List.mem_append_left _ (List.mem_singleton_self i)) rfl
  -- no node that is worked through has an edge from `i`
  have hfixed : ∀ i' ∈ done ++ [i], i' ∉ adjacency i := by
    intro i' hi' hedge
    refine hnot (hsettled.mem_done ?_ hlt hedge)
    rw [← List.append_assoc]
    exact List.mem_append_left _ hi'
  have hself : i ∉ adjacency i :=
    hfixed i (List.mem_append_right _ (List.mem_singleton_self i))
  have hlevels := Worklist.foldl_take_levels hself { w with queue }
  have hge (j : Nat) :
      w.levels j ≤ ((adjacency i).foldl (Worklist.take i) { w with queue }).levels j := by
    rw [hlevels]
    split_ifs
    · exact le_max_left _ _
    · exact le_refl _
  refine ⟨?_, fun j => ?_, fun i' hi' j hj => ?_⟩
  · rw [hdegree, hback]
    have := hsettled.step hadj
    rwa [show [i].flatMap adjacency = adjacency i from List.append_nil _] at this
  · rw [hlevels]
    split_ifs with hj
    · rcases le_total (w.levels j) (w.levels i + 1) with hle | hle
      · rw [max_eq_right hle]
        exact (h.attained i).step hj
      · rw [max_eq_left hle]
        exact h.attained j
    · exact h.attained j
  · rw [hlevels i', if_neg (hfixed i' hi')]
    rcases List.mem_append.mp hi' with hd | hd
    · exact (h.above i' hd j hj).trans (hge j)
    · cases List.mem_singleton.mp hd
      rw [hlevels, if_pos hj]
      exact le_max_right _ _

/-- A round for each node that is left empties the queue. -/
theorem drain (hadj : ∀ i < n, ∀ j ∈ adjacency i, j < n) (h : Leveled n adjacency done w)
    (hfuel : n ≤ done.length + fuel) :
    ∃ done', Leveled n adjacency done' (w.drain adjacency fuel) ∧
      (w.drain adjacency fuel).queue = [] := by
  induction fuel generalizing done w with
  | zero =>
    have hle := h.settled.length_le
    rw [List.length_append] at hle
    have hempty : w.queue = [] := List.length_eq_zero_iff.mp (by omega)
    exact ⟨done, h, hempty⟩
  | succ fuel ih =>
    rcases hqueue : w.queue with _ | ⟨i, queue⟩
    · refine ⟨done, ?_, ?_⟩ <;> simp only [Worklist.drain, hqueue]
      exact h
    · simp only [Worklist.drain, hqueue]
      refine ih (h.step hadj hqueue) ?_
      rw [List.length_append, List.length_singleton]
      omega

end Leveled

/-- Once the queue is empty, every node is worked through that no endless chain of edges leads
to. -/
theorem Settled.mem_of_acc {inDegree : Nat → Nat} (h : Settled n adjacency done [] inDegree)
    (hj : j < n) (hacc : Acc (fun i j => j ∈ adjacency i) j) : j ∈ done := by
  induction hacc with
  | intro j _ ih =>
    have hzero : inDegree j = 0 := by
      rw [h.degree, remaining_eq_zero_iff]
      exact fun i hi hedge => ih i hedge hi
    simpa using (h.ready j hj).mp hzero

/-- Once all nodes are worked through, levels are lengths of longest chains. -/
theorem Leveled.isGreatest {w : Worklist} (h : Leveled n adjacency done w)
    (hadj : ∀ i, ∀ j ∈ adjacency i, i < n) (hdone : ∀ j < n, j ∈ done) (j : Nat) :
    IsGreatest {k | ChainInto (fun i j => j ∈ adjacency i) k j} (w.levels j) := by
  refine ⟨h.attained j, fun k hk => ?_⟩
  induction hk with
  | single j => exact Nat.zero_le _
  | step _ hedge ih =>
    exact (Nat.succ_le_succ ih).trans (h.above _ (hdone _ (hadj _ _ hedge)) _ hedge)

end Kahn
