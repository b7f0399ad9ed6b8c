import Mathlib
import Saci.Library.Tiling
import Saci.Core.RowRanges

/-!
# When the row ranges are a tiling

`compute_row_ranges` multiplies an index by the chunk size in 32 bits. The ends stay below `2^32`
when some multiple of the number of chunks lies between the row count and that bound, and then the
ranges tile the rows (`computeRowRanges_tiles_iff`).
-/

namespace Saci

variable {M : Machine} {t : Nat}

/-- A range of rows as a span. -/
def RowRange.span (r : RowRange) : Nat × Nat := (r.start, r.stop)

/-- No product of `compute_row_ranges` passes the 32 bits. -/
def NoOverflow (M : Machine) (t : Nat) : Prop :=
  ∀ i < M.numChunks t,
    i * M.chunkSize t < U32_SIZE ∧ (i + 1) * M.chunkSize t < U32_SIZE

/-- The rows are no more than the largest multiple of the number of chunks that 32 bits hold. The
number of chunks is as many as there are 4096 rows, but at least one a CPU, and at most
`chunks_per_cpu` a CPU. -/
def BelowMultiple (M : Machine) (t : Nat) : Prop :=
  let chunks := max M.cpuCount (min (t / 4096) (min (M.cpuCount * M.chunksPerCpu) (2 ^ 32 - 1)))
  t ≤ (2 ^ 32 - 1) / chunks * chunks

instance : Decidable (BelowMultiple M t) := inferInstanceAs (Decidable (_ ≤ _))

namespace Machine

theorem numChunks_mul_chunkSize_lt_iff (M : Machine) (t : Nat) :
    M.numChunks t * M.chunkSize t < U32_SIZE ↔ BelowMultiple M t := by
  have hpos := M.numChunks_pos t
  change _ ↔ t ≤ (2 ^ 32 - 1) / M.numChunks t * M.numChunks t
  have hall := M.le_mul_chunkSize t
  have hbound := M.mul_chunkSize_lt t
  rw [Nat.mul_comm] at hall hbound
  rw [Nat.mul_comm, U32_SIZE]
  refine ⟨fun hlt => hall.trans ?_, fun hle => ?_⟩
  · exact Nat.mul_le_mul_right _ ((Nat.le_div_iff_mul_le hpos).mpr (by omega))
  · -- the rows rounded up are the least multiple that holds them
    have hround : M.chunkSize t * M.numChunks t ≤
        (2 ^ 32 - 1) / M.numChunks t * M.numChunks t := by
      refine Nat.mul_le_mul_right _ (Nat.le_of_lt_succ (lt_of_mul_lt_mul_right ?_ hpos.le))
      rw [Nat.succ_mul]
      omega
    have := hround.trans (Nat.div_mul_le_self _ _)
    omega

end Machine

theorem noOverflow_iff : NoOverflow M t ↔ BelowMultiple M t := by
  rw [← M.numChunks_mul_chunkSize_lt_iff]
  refine ⟨fun h => ?_, fun h i hi => ?_⟩
  · have hlast := (h (M.numChunks t - 1) (Nat.pred_lt (M.numChunks_pos t).ne')).2
    rwa [Nat.sub_add_cancel (M.numChunks_pos t)] at hlast
  · have hle : (i + 1) * M.chunkSize t ≤ M.numChunks t * M.chunkSize t :=
      Nat.mul_le_mul_right _ hi
    exact ⟨(Nat.mul_le_mul_right _ (Nat.le_succ i)).trans_lt (hle.trans_lt h), hle.trans_lt h⟩

theorem mem_computeRowRanges {r : RowRange} :
    r ∈ computeRowRanges M t ↔
      ∃ i < M.numChunks t, rangeAt M t i = r ∧ r.start < r.stop := by
  simp only [computeRowRanges, List.mem_filter, List.mem_map, List.mem_range, decide_eq_true_eq,
    rangeAt]
  tauto

theorem start_of_covers {i : Nat} (h : CoversRows M t) (hi : i < M.numChunks t) :
    (rangeAt M t i).start = i * M.chunkSize t :=
  Nat.mod_eq_of_lt ((Nat.mul_le_mul_right _ (Nat.le_sub_one_of_lt hi)).trans_lt h.2.1)

/-- A chunk that starts before the end of the rows ends where it should. -/
theorem stop_of_covers {i : Nat} (h : CoversRows M t) (hi : i < M.numChunks t)
    (hlt : i * M.chunkSize t < t) :
    (rangeAt M t i).stop = min ((i + 1) * M.chunkSize t) t := by
  refine congrArg (min · t) (Nat.mod_eq_of_lt ?_)
  rcases Nat.lt_or_ge (i + 1) (M.numChunks t) with hi' | hi'
  · exact (Nat.mul_le_mul_right _ (Nat.le_sub_one_of_lt hi')).trans_lt h.2.1
  · have heq : i + 1 = M.numChunks t := Nat.le_antisymm hi hi'
    rw [heq]
    refine h.2.2 ?_
    rwa [← heq, Nat.add_sub_cancel]

/-- A range that is kept starts before the end of the rows. -/
theorem lt_of_kept {i : Nat} (h : CoversRows M t) (hi : i < M.numChunks t)
    (hne : (rangeAt M t i).start < (rangeAt M t i).stop) : i * M.chunkSize t < t :=
  (start_of_covers h hi).ge.trans_lt (hne.trans_le (min_le_right _ _))

/-- The ranges tile the rows exactly when they cover them. -/
theorem tiles_iff_coversRows (ht : t < U32_SIZE) :
    Tiles ((computeRowRanges M t).map RowRange.span) 0 t ↔ CoversRows M t := by
  refine ⟨fun h => ?_, fun h => ⟨?_, ?_, ?_⟩⟩
  · -- the ranges are as long together as the rows, which the covering needs
    have hsum := h.sum_lengths
    have hmod : asU32 t = t := Nat.mod_eq_of_lt ht
    refine coversRows_of_rowsOfFirst ?_
    rw [hmod, ← length_flatMap_segment (List.length_range (n := t)).ge,
      ← flatMap_computeRowRanges, List.length_flatMap]
    rw [Nat.sub_zero, List.map_map] at hsum
    refine Eq.trans (congrArg List.sum (List.map_congr_left fun r hr => ?_)) hsum
    obtain ⟨i, -, rfl, -⟩ := mem_computeRowRanges.mp hr
    have hstop : (rangeAt M t i).stop ≤ t := min_le_right _ _
    rw [RowRange.segment, List.length_take, List.length_drop, List.length_range,
      Function.comp_apply, RowRange.span]
    omega
  · rw [List.pairwise_map, computeRowRanges, List.pairwise_filter, List.pairwise_map]
    refine List.pairwise_lt_range.imp_of_mem fun {i j} hi hj hij hri hrj => ?_
    rw [List.mem_range] at hi hj
    have hlt := lt_of_kept h hi (of_decide_eq_true hri)
    have hle : (i + 1) * M.chunkSize t ≤ j * M.chunkSize t := Nat.mul_le_mul_right _ hij
    exact (stop_of_covers h hi hlt).le.trans
      ((min_le_left _ _).trans (hle.trans (start_of_covers h hj).ge))
  · intro span hspan
    obtain ⟨r, hr, rfl⟩ := List.mem_map.mp hspan
    obtain ⟨i, -, -, hne⟩ := mem_computeRowRanges.mp hr
    exact hne
  · intro x
    constructor
    · rintro ⟨span, hspan, hx⟩
      obtain ⟨r, hr, rfl⟩ := List.mem_map.mp hspan
      obtain ⟨i, -, rfl, -⟩ := mem_computeRowRanges.mp hr
      exact ⟨Nat.zero_le x, hx.2.trans_le (min_le_right _ _)⟩
    · rintro ⟨-, hx⟩
      have hall := M.le_mul_chunkSize t
      have hsize : 0 < M.chunkSize t := by
        refine Nat.pos_of_ne_zero fun hzero => ?_
        rw [hzero, Nat.mul_zero] at hall
        omega
      -- the chunk of a row
      have hchunk : x / M.chunkSize t < M.numChunks t :=
        (Nat.div_lt_iff_lt_mul hsize).mpr (hx.trans_le hall)
      have hlow : x / M.chunkSize t * M.chunkSize t ≤ x := Nat.div_mul_le_self _ _
      have hhigh : x < (x / M.chunkSize t + 1) * M.chunkSize t := by
        rw [Nat.succ_mul]
        exact Nat.lt_div_mul_add hsize
      have hstart := start_of_covers h hchunk
      have hstop := stop_of_covers h hchunk (hlow.trans_lt hx)
      have hin : (rangeAt M t (x / M.chunkSize t)).start ≤ x ∧
          x < (rangeAt M t (x / M.chunkSize t)).stop := by
        rw [hstart, hstop]
        exact ⟨hlow, lt_min hhigh hx⟩
      exact ⟨_, List.mem_map_of_mem (mem_computeRowRanges.mpr
        ⟨_, hchunk, rfl, hin.1.trans_lt hin.2⟩), hin⟩

theorem BelowMultiple.coversRows (ht : t < U32_SIZE) (h : BelowMultiple M t) :
    CoversRows M t := by
  have hfit := (M.numChunks_mul_chunkSize_lt_iff t).mpr h
  exact ⟨ht, (Nat.mul_le_mul_right _ (Nat.sub_le _ 1)).trans_lt hfit, fun _ => hfit⟩

/-- The ranges are ascending, disjoint, not empty and hold the rows, with no product past the 32
bits, exactly if the rows are below a multiple of the number of chunks that 32 bits hold. -/
theorem computeRowRanges_tiles_iff (M : Machine) (t : Nat) (ht : t < U32_SIZE) :
    Tiles ((computeRowRanges M t).map RowRange.span) 0 t ∧ NoOverflow M t ↔ BelowMultiple M t := by
  rw [tiles_iff_coversRows ht, noOverflow_iff]
  exact ⟨And.right, fun h => ⟨h.coversRows ht, h⟩⟩

namespace RowTiling.Sample

private theorem one_lt_u32 : 1 < U32_SIZE := by decide

private theorem two_lt_u32 : 2 < U32_SIZE := by decide

/-- Two CPUs with one chunk each. -/
def twoCpus : Machine where
  cpuCount := 2
  chunksPerCpu := 1
  cpuCount_pos := Nat.two_pos
  cpuCount_lt := two_lt_u32
  chunksPerCpu_pos := Nat.one_pos
  chunksPerCpu_lt := one_lt_u32

theorem million_tiled :
    Tiles ((computeRowRanges twoCpus 1000001).map RowRange.span) 0 1000001 ∧
      NoOverflow twoCpus 1000001 :=
  (computeRowRanges_tiles_iff twoCpus 1000001 (by decide)).mpr (by decide)

/-- The second half of the greatest row count ends at `2^32`, which wraps to nothing. -/
theorem full_count_halved :
    4294967295 < U32_SIZE ∧ computeRowRanges twoCpus 4294967295 = [⟨0, 2147483648⟩] ∧
      ¬Tiles ((computeRowRanges twoCpus 4294967295).map RowRange.span) 0 4294967295 := by
  have hranges : computeRowRanges twoCpus 4294967295 = [⟨0, 2147483648⟩] := by decide
  refine ⟨by decide, hranges, fun h => ?_⟩
  rw [hranges] at h
  exact absurd h.sum_lengths (by decide)

end RowTiling.Sample

end Saci
