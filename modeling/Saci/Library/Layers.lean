import Mathlib.Data.Finite.Prod
import Mathlib.Data.List.Range
import Mathlib.Logic.Relation
import Mathlib.Order.WellFounded
import Saci.Library.Levels

/-!
# Layers of a graph

Peeling a graph layer by layer puts a node in the layer whose number is its depth, the length of the
longest chain of edges that ends at it (`layersWithin_depth`), and leaves nodes over exactly when
the graph has a cycle (`length_layers_iff`). A count that stops at an underflow does not stop
(`foldlM_release`). A layer is in the order in which its nodes lost their last edge
(`settle_ordered`), so it is in increasing order exactly when those edges are taken in that order
(`ordered_layersWithin_iff`).
-/

namespace Kahn

variable {n : Nat} {adjacency : Nat → List Nat} {inDegree : Nat → Nat} {targets : List Nat}
  {done queue layer : List Nat} {edges : List (Nat × Nat)} {d i j u v fuel : Nat}

/-- The length of the longest chain of edges that ends at a node. -/
def IsDepth (adjacency : Nat → List Nat) (j d : Nat) : Prop :=
  IsGreatest {k | ChainInto (fun i j => j ∈ adjacency i) k j} d

theorem IsDepth.unique {d' : Nat} (h : IsDepth adjacency j d) (h' : IsDepth adjacency j d') :
    d = d' := IsGreatest.unique h h'

/-- A ready node's edges are counted in the in-degrees of their targets. -/
theorem Settled.count_le (h : Settled n adjacency done queue inDegree) (j : Nat) :
    (queue.flatMap adjacency).count j ≤ inDegree j := by
  have hnodup := List.nodup_append.mp h.nodup
  rw [h.degree, remaining_append hnodup.2.1 (fun i hi => h.lt i (List.mem_append_right _ hi))
    fun i hi hd => hnodup.2.2 i hd i hi rfl]
  exact Nat.le_add_left _ _

/-! ## Counting down -/

/-- What a traversal that counts down may stop at. -/
inductive Halt
  | underflow
  | outOfRounds

/-- `in_degree[dep] -= 1`, and `dep` is queued if nothing is left. -/
def release (state : (Nat → Nat) × List Nat) (dep : Nat) : Except Halt ((Nat → Nat) × List Nat) :=
  let (inDegree, nextQueue) := state
  if inDegree dep = 0 then .error .underflow
  else
    let inDegree := Function.update inDegree dep (inDegree dep - 1)
    .ok (if inDegree dep = 0 then (inDegree, nextQueue ++ [dep]) else (inDegree, nextQueue))

/-- Releasing targets is settling them, where no in-degree is below the number of their edges. -/
theorem foldlM_release (h : ∀ j, targets.count j ≤ inDegree j) :
    targets.foldlM release (inDegree, []) = .ok (settle inDegree targets) := by
  induction targets using List.reverseRecOn with
  | nil => rfl
  | append_singleton targets dep ih =>
    have hle (j : Nat) : targets.count j ≤ inDegree j := by
      have := h j
      rw [List.count_append] at this
      omega
    have hpos : (settle inDegree targets).1 dep ≠ 0 := by
      rw [(settle_spec hle).1]
      have := h dep
      rw [List.count_append, List.count_singleton_self] at this
      omega
    rw [List.foldlM_append, ih hle, settle_concat]
    simp [release, hpos, bind, Except.bind, pure, Except.pure]

/-! ## Depths -/

/-- A node that loses its last edge with a layer is one deeper than the layer. -/
theorem Settled.depth_next (h : Settled n adjacency done queue inDegree)
    (hadj : ∀ i, ∀ j ∈ adjacency i, i < n ∧ j < n)
    (hdone : ∀ i ∈ done, ∃ k < d, IsDepth adjacency i k)
    (hqueue : ∀ i ∈ queue, IsDepth adjacency i d)
    (hj : j ∈ (settle inDegree (queue.flatMap adjacency)).2) : IsDepth adjacency j (d + 1) := by
  have hstep := h.step_all fun i _ j hj => (hadj i j hj).2
  obtain ⟨_, _, hmem⟩ := settle_spec h.count_le
  obtain ⟨i, hi, hedge⟩ := List.mem_flatMap.mp ((hmem j).mp hj).1
  refine ⟨ChainInto.step (hqueue i hi).1 hedge, fun k hk => ?_⟩
  cases hk with
  | single => exact Nat.zero_le _
  | @step k i' _ hchain hedge' =>
    -- the edges into `j` come from nodes that are worked through
    have hin := hstep.mem_done (List.mem_append_right _ hj) (hadj i' j hedge').1 hedge'
    refine Nat.succ_le_succ ?_
    rcases List.mem_append.mp hin with hd | hq
    · obtain ⟨k', hlt, hdepth⟩ := hdone i' hd
      exact (hdepth.2 hchain).trans hlt.le
    · exact (hqueue i' hq).2 hchain

/-- The number of a layer is the depth of its nodes. -/
theorem layersWithin_depth (fuel : Nat) (hadj : ∀ i, ∀ j ∈ adjacency i, i < n ∧ j < n)
    (h : Settled n adjacency done queue inDegree)
    (hdone : ∀ i ∈ done, ∃ k < d, IsDepth adjacency i k)
    (hqueue : ∀ i ∈ queue, IsDepth adjacency i d) {k : Nat}
    (hlayer : (layersWithin adjacency fuel queue inDegree)[k]? = some layer) :
    ∀ j ∈ layer, IsDepth adjacency j (d + k) := by
  induction fuel generalizing done queue inDegree d k with
  | zero => cases hlayer
  | succ fuel ih =>
    by_cases hempty : queue = []
    · rw [hempty, layersWithin_nil] at hlayer
      cases hlayer
    · rw [layersWithin, if_neg (by simpa using hempty)] at hlayer
      cases k with
      | zero =>
        obtain rfl : queue = layer := Option.some.inj hlayer
        exact hqueue
      | succ k =>
        have hstep := h.step_all fun i _ j hj => (hadj i j hj).2
        have hnext := ih hstep (d := d + 1) (fun i hi => ?_)
          (fun i hi => h.depth_next hadj hdone hqueue hi) hlayer
        · simpa only [Nat.add_assoc, Nat.add_comm 1 k] using hnext
        · rcases List.mem_append.mp hi with hd | hq
          · obtain ⟨k', hlt, hdepth⟩ := hdone i hd
            exact ⟨k', hlt.trans (Nat.lt_succ_self d), hdepth⟩
          · exact ⟨d, Nat.lt_succ_self d, hqueue i hq⟩

/-! ## Cycles -/

/-- Enough rounds leave no node ready. -/
theorem Settled.layersWithin (hadj : ∀ i < n, ∀ j ∈ adjacency i, j < n)
    (h : Settled n adjacency done queue inDegree) (hfuel : n ≤ done.length + fuel) :
    ∃ inDegree', Settled n adjacency
      (done ++ (layersWithin adjacency fuel queue inDegree).flatten) [] inDegree' := by
  induction fuel generalizing done queue inDegree with
  | zero =>
    have hle := h.length_le
    rw [List.length_append] at hle
    obtain rfl : queue = [] := List.length_eq_zero_iff.mp (by omega)
    refine ⟨inDegree, ?_⟩
    rwa [layersWithin_nil, List.flatten_nil, List.append_nil]
  | succ fuel ih =>
    by_cases hempty : queue = []
    · refine ⟨inDegree, ?_⟩
      rwa [hempty, layersWithin_nil, List.flatten_nil, List.append_nil, ← hempty]
    · have hpos := List.length_pos_iff.mpr hempty
      obtain ⟨inDegree', hsettled⟩ := ih (h.step_all hadj) (by rw [List.length_append]; omega)
      refine ⟨inDegree', ?_⟩
      rw [Kahn.layersWithin, if_neg (by simpa using hempty), List.flatten_cons, ← List.append_assoc]
      exact hsettled

/-- A chain of edges that comes back to where it started. -/
def Cyclic (adjacency : Nat → List Nat) : Prop :=
  ∃ i, Relation.TransGen (fun i j => j ∈ adjacency i) i i

/-- In a finite graph without cycles there are no endless chains. -/
theorem acc_of_not_cyclic (hadj : ∀ i, ∀ j ∈ adjacency i, i < n)
    (h : ¬Cyclic adjacency) (hj : j < n) : Acc (fun i j => j ∈ adjacency i) j := by
  let reaches : Fin n → Fin n → Prop := fun i j => Relation.TransGen (fun i j => j ∈ adjacency i) i j
  have htrans : IsTrans (Fin n) reaches := ⟨fun _ _ _ => .trans⟩
  have hirrefl : Std.Irrefl reaches := ⟨fun i hi => h ⟨i, hi⟩⟩
  have hwf : WellFounded reaches := Finite.wellFounded_of_trans_of_irrefl reaches
  suffices hall : ∀ j : Fin n, Acc (fun i j => j ∈ adjacency i) j.val from hall ⟨j, hj⟩
  intro j
  induction j using hwf.induction with
  | h j ih => exact .intro _ fun i hedge => ih ⟨i, hadj i j hedge⟩ (.single hedge)

/-- A node on a cycle has no depth. -/
theorem IsDepth.not_transGen (h : IsDepth adjacency i d) :
    ¬Relation.TransGen (fun i j => j ∈ adjacency i) i i := by
  intro hcycle
  have hlonger : ∀ {j}, Relation.TransGen (fun i j => j ∈ adjacency i) i j →
      ∃ k, d < k ∧ ChainInto (fun i j => j ∈ adjacency i) k j := by
    intro j hj
    induction hj with
    | single hedge => exact ⟨d + 1, Nat.lt_succ_self d, ChainInto.step h.1 hedge⟩
    | tail _ hedge ih =>
      obtain ⟨k, hlt, hchain⟩ := ih
      exact ⟨k + 1, hlt.trans (Nat.lt_succ_self k), hchain.step hedge⟩
  obtain ⟨k, hlt, hchain⟩ := hlonger hcycle
  exact absurd (h.2 hchain) hlt.not_ge

/-! ## The layers of a list of edges -/

/-- No layer is empty. -/
theorem nil_notMem_layersWithin : [] ∉ layersWithin adjacency fuel queue inDegree := by
  induction fuel generalizing queue inDegree with
  | zero => exact List.not_mem_nil
  | succ fuel ih =>
    rw [layersWithin]
    split_ifs with hempty
    · exact List.not_mem_nil
    · rw [List.mem_cons, not_or]
      exact ⟨fun hnil => hempty (hnil ▸ rfl), ih⟩

section
variable (h : ∀ edge ∈ edges, edge.1 < n ∧ edge.2 < n)
include h

theorem adjacencyOf_lt (i j : Nat) (hj : j ∈ adjacencyOf edges i) : i < n ∧ j < n :=
  h (i, j) (mem_adjacencyOf.mp hj)

theorem settled_start : Settled n (adjacencyOf edges) []
    ((List.range n).filter fun i => inDegreeOf edges i = 0) (inDegreeOf edges) :=
  .start (inDegreeOf_eq_remaining fun edge hedge => (h edge hedge).1)

/-- A layer holds the nodes of one depth. -/
theorem depth_of_layer (hlayer : (layers n (adjacencyOf edges) (inDegreeOf edges))[d]? = some layer) :
    ∀ j ∈ layer, IsDepth (adjacencyOf edges) j d := by
  intro j hj
  have hdepth := layersWithin_depth n (adjacencyOf_lt h) (settled_start h) nofun
    (d := 0) (fun i hi => ?_) hlayer j hj
  · rwa [Nat.zero_add] at hdepth
  · -- a node without edges into it ends no chain but the empty one
    refine ⟨.single i, fun k hk => ?_⟩
    cases hk with
    | single => exact le_refl 0
    | step _ hedge =>
      exact nomatch (settled_start h).mem_done (by simpa using hi) (adjacencyOf_lt h _ _ hedge).1 hedge

theorem lt_of_mem_layers (hi : i ∈ (layers n (adjacencyOf edges) (inDegreeOf edges)).flatten) :
    i < n :=
  (flatten_layersWithin _ (fun i _ j hj => (adjacencyOf_lt h i j hj).2) (settled_start h)).2.1 i hi

theorem nodup_layers : (layers n (adjacencyOf edges) (inDegreeOf edges)).flatten.Nodup :=
  (flatten_layersWithin n (fun i _ j hj => (adjacencyOf_lt h i j hj).2) (settled_start h)).1

/-- Every node is in a layer exactly when the edges contain no cycle. -/
theorem mem_layers_iff :
    (∀ i < n, i ∈ (layers n (adjacencyOf edges) (inDegreeOf edges)).flatten) ↔
      ¬Cyclic (adjacencyOf edges) := by
  constructor
  · rintro hall ⟨i, hcycle⟩
    have hlt : i < n := by
      obtain ⟨j, _, hlast⟩ := Relation.TransGen.tail'_iff.mp hcycle
      exact (adjacencyOf_lt h j i hlast).2
    obtain ⟨layer, hlayer, hi⟩ := List.mem_flatten.mp (hall i hlt)
    obtain ⟨d, hd⟩ := List.mem_iff_getElem?.mp hlayer
    exact (depth_of_layer h hd i hi).not_transGen hcycle
  · intro hacyclic i hi
    obtain ⟨_, hsettled⟩ := (settled_start h).layersWithin
      (fun i _ j hj => (adjacencyOf_lt h i j hj).2)
      (by simp : n ≤ ([] : List Nat).length + n)
    exact hsettled.mem_of_acc hi
      (acc_of_not_cyclic (fun i j hj => (adjacencyOf_lt h i j hj).1) hacyclic hi)

theorem perm_layers_iff :
    (layers n (adjacencyOf edges) (inDegreeOf edges)).flatten.Perm (List.range n) ↔
      ¬Cyclic (adjacencyOf edges) := by
  rw [← mem_layers_iff h, List.perm_ext_iff_of_nodup (nodup_layers h) List.nodup_range]
  refine forall_congr' fun i => ?_
  rw [List.mem_range]
  exact ⟨fun hiff => hiff.mpr, fun hmem => ⟨lt_of_mem_layers h, hmem⟩⟩

/-- The count of the nodes in the layers finds the cycles. -/
theorem length_layers_iff :
    (layers n (adjacencyOf edges) (inDegreeOf edges)).flatten.length = n ↔
      ¬Cyclic (adjacencyOf edges) := by
  rw [← perm_layers_iff h]
  constructor
  · intro hlength
    refine (List.subperm_of_subset (nodup_layers h) fun i hi => ?_).perm_of_length_le ?_
    · exact List.mem_range.mpr (lt_of_mem_layers h hi)
    · rw [List.length_range, hlength]
  · intro hperm
    rw [hperm.length_eq, List.length_range]

end

/-! ## The order within a layer -/

/-- Some `v` comes after the last `u`. -/
def LastBefore (targets : List Nat) (u v : Nat) : Prop :=
  ∃ before after, targets = before ++ v :: after ∧ u ∉ after

theorem LastBefore.asymm (hne : u ≠ v) (h : LastBefore targets u v) : ¬LastBefore targets v u := by
  rintro ⟨before', after', heq', hv⟩
  obtain ⟨before, after, heq, hu⟩ := h
  rw [heq] at heq'
  rcases List.append_eq_append_iff.mp heq' with ⟨between, rfl, hsplit⟩ | ⟨between, rfl, hsplit⟩
  · cases between with
    | nil => exact hne (List.cons.inj hsplit).1.symm
    | cons first between =>
      exact hu ((List.cons.inj hsplit).2 ▸ List.mem_append_right _ List.mem_cons_self)
  · cases between with
    | nil => exact hne (List.cons.inj hsplit).1
    | cons first between =>
      exact hv ((List.cons.inj hsplit).2 ▸ List.mem_append_right _ List.mem_cons_self)

/-- Targets come to zero in the order of their last edges. -/
theorem settle_ordered (h : ∀ j, targets.count j ≤ inDegree j) :
    (settle inDegree targets).2.Pairwise (LastBefore targets) := by
  induction targets using List.reverseRecOn with
  | nil => simp [settle]
  | append_singleton targets dep ih =>
    have hle (j : Nat) : targets.count j ≤ inDegree j := by
      have := h j
      rw [List.count_append] at this
      omega
    obtain ⟨_, _, hmem⟩ := settle_spec hle
    have hold : (settle inDegree targets).2.Pairwise (LastBefore (targets ++ [dep])) := by
      refine (ih hle).imp_of_mem fun {a b} ha _ => ?_
      rintro ⟨before, after, heq, hnot⟩
      refine ⟨before, after ++ [dep], by rw [heq, List.append_assoc, List.cons_append], ?_⟩
      rw [List.mem_append, List.mem_singleton, not_or]
      refine ⟨hnot, ?_⟩
      -- a target that has lost its last edge is not met again
      rintro rfl
      have hlast := ((hmem a).mp ha).2
      have := h a
      rw [List.count_append, List.count_singleton_self] at this
      omega
    rw [settle_concat]
    dsimp only
    split_ifs
    · refine List.pairwise_append.mpr ⟨hold, List.pairwise_singleton _ _, fun a _ b hb => ?_⟩
      cases List.mem_singleton.mp hb
      exact ⟨targets, [], rfl, List.not_mem_nil⟩
    · exact hold

/-- The targets that come to zero do so in increasing order exactly when their last edges do. -/
theorem settle_increasing_iff (h : ∀ j, targets.count j ≤ inDegree j) :
    (settle inDegree targets).2.Pairwise (· < ·) ↔
      ∀ u ∈ (settle inDegree targets).2, ∀ v ∈ (settle inDegree targets).2, u < v →
        LastBefore targets u v := by
  have hordered := settle_ordered h
  have hnodup := (settle_spec h).2.1
  constructor
  · intro hlt u hu v hv huv
    obtain ⟨before, after, heq⟩ := List.append_of_mem hu
    rw [heq] at hlt hordered hv
    rcases List.mem_append.mp hv with hv | hv
    · exact absurd huv ((List.pairwise_append.mp hlt).2.2 v hv u List.mem_cons_self).not_gt
    · rcases List.mem_cons.mp hv with rfl | hv
      · exact absurd huv (lt_irrefl v)
      · exact (List.pairwise_cons.mp (List.pairwise_append.mp hordered).2.1).1 v hv
  · intro hall
    refine (hordered.and hnodup).imp_of_mem fun {a b} ha hb hab => ?_
    rcases lt_trichotomy a b with hlt | heq | hgt
    · exact hlt
    · exact absurd heq hab.2
    · exact absurd hab.1 ((hall b hb a ha hgt).asymm hgt.ne)

/-- The first layer is the queue. -/
theorem head_layersWithin (h : (layersWithin adjacency fuel queue inDegree)[0]? = some layer) :
    layer = queue := by
  cases fuel with
  | zero => cases h
  | succ fuel =>
    rw [layersWithin] at h
    split_ifs at h
    · cases h
    · exact (Option.some.inj h).symm

/-- All layers are in increasing order exactly when in each of them the last edges are. -/
theorem ordered_layersWithin_iff (hadj : ∀ i < n, ∀ j ∈ adjacency i, j < n)
    (h : Settled n adjacency done queue inDegree) (hqueue : queue.Pairwise (· < ·)) :
    (∀ layer ∈ layersWithin adjacency fuel queue inDegree, layer.Pairwise (· < ·)) ↔
      ∀ k layer next, (layersWithin adjacency fuel queue inDegree)[k]? = some layer →
        (layersWithin adjacency fuel queue inDegree)[k + 1]? = some next →
        layer.Pairwise (· < ·) → ∀ u ∈ next, ∀ v ∈ next, u < v →
          LastBefore (layer.flatMap adjacency) u v := by
  induction fuel generalizing done queue inDegree with
  | zero => simp [layersWithin]
  | succ fuel ih =>
    by_cases hempty : queue = []
    · simp [hempty, layersWithin_nil]
    · have hincreasing := settle_increasing_iff h.count_le
      have ih := ih (h.step_all hadj)
      rw [layersWithin, if_neg (by simpa using hempty)]
      dsimp only
      rw [List.forall_mem_cons]
      by_cases hnext : (settle inDegree (queue.flatMap adjacency)).2.Pairwise (· < ·)
      · rw [and_iff_right hqueue, ih hnext]
        constructor
        · intro hrest k layer next hlayer hafter hsorted
          cases k with
          | zero =>
            obtain rfl := Option.some.inj hlayer
            cases head_layersWithin hafter
            exact hincreasing.mp hnext
          | succ k => exact hrest k layer next hlayer hafter hsorted
        · exact fun hall k layer next hlayer hafter => hall (k + 1) layer next hlayer hafter
      · -- the second layer is out of order, unless the rounds are over
        constructor
        · rintro ⟨_, hrest⟩ k layer next hlayer hafter
          exfalso
          cases hlayers : layersWithin adjacency fuel
            (settle inDegree (queue.flatMap adjacency)).2
            (settle inDegree (queue.flatMap adjacency)).1 with
          | nil => simp [hlayers] at hafter
          | cons second rest =>
            have hsecond : second = (settle inDegree (queue.flatMap adjacency)).2 :=
              head_layersWithin (by rw [hlayers]; rfl)
            exact hnext (hsecond ▸ hrest second (hlayers ▸ List.mem_cons_self))
        · intro hall
          refine ⟨hqueue, ?_⟩
          cases hlayers : layersWithin adjacency fuel
            (settle inDegree (queue.flatMap adjacency)).2
            (settle inDegree (queue.flatMap adjacency)).1 with
          | nil => rintro _ ⟨⟩
          | cons second rest =>
            have hsecond : second = (settle inDegree (queue.flatMap adjacency)).2 :=
              head_layersWithin (by rw [hlayers]; rfl)
            refine absurd (hincreasing.mpr ?_) hnext
            exact hall 0 queue _ rfl (by rw [hlayers, hsecond]; rfl) hqueue

/-! ## Edges in a list -/

/-- The edges of a layer's nodes with their places in the list, in the order they are taken. -/
def edgesOf (edges : List (Nat × Nat)) (layer : List Nat) : List ((Nat × Nat) × Nat) :=
  layer.flatMap fun i => edges.zipIdx.filter fun edge => edge.1.1 = i

theorem mem_edgesOf {edge : (Nat × Nat) × Nat} :
    edge ∈ edgesOf edges layer ↔ edge.1.1 ∈ layer ∧ edges[edge.2]? = some edge.1 := by
  obtain ⟨⟨i, j⟩, p⟩ := edge
  simp only [edgesOf, List.mem_flatMap, List.mem_filter, List.mem_zipIdx_iff_getElem?,
    decide_eq_true_eq]
  constructor
  · rintro ⟨_, hi, hedge, rfl⟩
    exact ⟨hi, hedge⟩
  · rintro ⟨hi, hedge⟩
    exact ⟨i, hi, hedge, rfl⟩

theorem map_edgesOf : (edgesOf edges layer).map (·.1.2) = layer.flatMap (adjacencyOf edges) := by
  have hfilter (i : Nat) : (edges.zipIdx.filter fun edge => edge.1.1 = i).map (·.1.2) =
      adjacencyOf edges i := by
    rw [adjacencyOf]
    conv_rhs => rw [← List.zipIdx_map_fst 0 edges, List.filter_map, List.map_map]
    rfl
  simp only [edgesOf, List.map_flatMap, hfilter]

/-- Edges are taken by the node they start from, and then by their places. -/
theorem edgesOf_ordered (h : layer.Pairwise (· < ·)) :
    (edgesOf edges layer).Pairwise fun a b => a.1.1 < b.1.1 ∨ a.1.1 = b.1.1 ∧ a.2 < b.2 := by
  refine List.pairwise_flatMap.mpr ⟨fun i _ => ?_, h.imp fun {i i' : Nat} (hlt : i < i') => ?_⟩
  · have hplaces : edges.zipIdx.Pairwise fun a b => a.2 < b.2 := by
      rw [← List.pairwise_map, List.zipIdx_map_snd]
      exact List.pairwise_lt_range'
    refine (hplaces.filter _).imp_of_mem fun {a b} ha hb hab => .inr ⟨?_, hab⟩
    rw [of_decide_eq_true (List.mem_filter.mp ha).2, of_decide_eq_true (List.mem_filter.mp hb).2]
  · intro a ha b hb
    rw [List.mem_filter, decide_eq_true_eq] at ha hb
    exact .inl (by rw [ha.2, hb.2]; exact hlt)

/-- `v` loses its last edge from a layer after `u` exactly when one of its edges is after all of
`u`'s, by the node they start from and then by their places. -/
theorem lastBefore_iff (h : layer.Pairwise (· < ·)) (hne : u ≠ v) :
    LastBefore (layer.flatMap (adjacencyOf edges)) u v ↔
      ∃ i ∈ layer, ∃ p : Nat, edges[p]? = some (i, v) ∧
        ∀ i' ∈ layer, ∀ p' : Nat, edges[p']? = some (i', u) → i' < i ∨ i' = i ∧ p' < p := by
  have hordered : (edgesOf edges layer).Pairwise fun a b =>
      a.1.1 < b.1.1 ∨ a.1.1 = b.1.1 ∧ a.2 < b.2 := edgesOf_ordered h
  rw [← map_edgesOf]
  constructor
  · rintro ⟨before, after, heq, hnot⟩
    obtain ⟨before, rest, hsplit, rfl, hrest⟩ := List.map_eq_append_iff.mp heq
    obtain ⟨⟨⟨i, v⟩, p⟩, after, rfl, rfl, rfl⟩ := List.map_eq_cons_iff.mp hrest
    have hmem : ∀ edge, edge ∈ before ++ ((i, v), p) :: after ↔
        edge.1.1 ∈ layer ∧ edges[edge.2]? = some edge.1 := fun edge => by
      rw [← hsplit, mem_edgesOf]
    obtain ⟨hi, hedge⟩ := (hmem ((i, v), p)).mp (by simp)
    refine ⟨i, hi, p, hedge, fun i' hi' p' hedge' => ?_⟩
    rw [hsplit] at hordered
    rcases List.mem_append.mp ((hmem ((i', u), p')).mpr ⟨hi', hedge'⟩) with hbefore | hin
    · exact (List.pairwise_append.mp hordered).2.2 _ hbefore _ List.mem_cons_self
    · rcases List.mem_cons.mp hin with heq | hafter
      · cases heq
        exact absurd rfl hne
      · exact absurd (List.mem_map.mpr ⟨_, hafter, rfl⟩) hnot
  · rintro ⟨i, hi, p, hedge, hlast⟩
    obtain ⟨before, after, hsplit⟩ := List.append_of_mem
      (mem_edgesOf.mpr ⟨hi, hedge⟩ : ((i, v), p) ∈ edgesOf edges layer)
    refine ⟨before.map (·.1.2), after.map (·.1.2), by rw [hsplit]; simp, fun hin => ?_⟩
    obtain ⟨⟨⟨i', u⟩, p'⟩, hafter, rfl⟩ := List.mem_map.mp hin
    obtain ⟨hi', hedge'⟩ := mem_edgesOf.mp
      (hsplit ▸ by simp [hafter] : ((i', u), p') ∈ edgesOf edges layer)
    have hearlier := hlast i' hi' p' hedge'
    rw [hsplit] at hordered
    have hlater := (List.pairwise_cons.mp (List.pairwise_append.mp hordered).2.1).1 _ hafter
    dsimp only at hlater
    omega

end Kahn
