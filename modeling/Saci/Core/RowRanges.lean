import Saci.Core.Execution

/-!
# The rows that slices cover

The row ranges of a sliced system are computed from a row count cut to 32 bits, and in 32-bit
arithmetic. They cut a column into consecutive parts exactly when neither matters (`CoversRows`):
otherwise what the slices hold together does not have the length of the column.
-/

namespace Saci

variable {M : Machine} {t rows m j : Nat} {α : Type}

/-- The part of a column in a range of rows: a slice of an array. -/
def RowRange.segment (r : RowRange) (cells : List α) : List α :=
  (cells.drop r.start).take (r.stop - r.start)

/-- The range of a chunk. -/
def rangeAt (M : Machine) (totalRows i : Nat) : RowRange where
  start := asU32 (i * M.chunkSize totalRows)
  stop := min (asU32 ((i + 1) * M.chunkSize totalRows)) totalRows

/-- No row count is cut off, and no boundary between the rows is past the 32 bits. -/
def CoversRows (M : Machine) (rows : Nat) : Prop :=
  rows < U32_SIZE ∧ (M.numChunks rows - 1) * M.chunkSize rows < U32_SIZE ∧
    ((M.numChunks rows - 1) * M.chunkSize rows < rows →
      M.numChunks rows * M.chunkSize rows < U32_SIZE)

namespace Machine

theorem numChunks_pos (M : Machine) (t : Nat) : 0 < M.numChunks t :=
  M.cpuCount_pos.trans_le (le_max_left _ _)

theorem numChunks_lt (M : Machine) (t : Nat) : M.numChunks t < U32_SIZE := by
  refine max_lt M.cpuCount_lt ?_
  refine (min_le_right _ _).trans_lt ((min_le_right _ _).trans_lt ?_)
  decide

/-- The chunks hold all rows, and less than one row more each. -/
theorem le_mul_chunkSize (M : Machine) (t : Nat) : t ≤ M.numChunks t * M.chunkSize t := by
  have hpos := M.numChunks_pos t
  have hlt := Nat.lt_mul_div_succ (t + (M.numChunks t - 1)) hpos
  rw [Nat.mul_add, Nat.mul_one] at hlt
  rw [chunkSize]
  omega

theorem mul_chunkSize_lt (M : Machine) (t : Nat) :
    M.numChunks t * M.chunkSize t < t + M.numChunks t := by
  have hpos := M.numChunks_pos t
  have hle := Nat.mul_div_le (t + (M.numChunks t - 1)) (M.numChunks t)
  rw [chunkSize]
  omega

theorem chunkSize_le (M : Machine) (t : Nat) : M.chunkSize t ≤ t := by
  obtain ⟨n, hn⟩ := Nat.exists_eq_add_of_lt (M.numChunks_pos t)
  rw [chunkSize, hn]
  rcases Nat.eq_zero_or_pos t with rfl | ht
  · exact (Nat.div_eq_of_lt (by omega)).le
  · refine Nat.div_le_of_le_mul ?_
    have hle := Nat.le_mul_of_pos_right n ht
    rw [Nat.zero_add, Nat.succ_mul]
    omega

end Machine

/-! ## Parts of a column -/

theorem flatMap_filter_of_nil {β γ : Type} {p : β → Bool} {f : β → List γ}
    (h : ∀ b, p b = false → f b = []) (l : List β) : (l.filter p).flatMap f = l.flatMap f := by
  induction l with
  | nil => rfl
  | cons b l ih =>
    rw [List.flatMap_cons]
    by_cases hp : p b = true
    · rw [List.filter_cons_of_pos hp, List.flatMap_cons, ih]
    · rw [List.filter_cons_of_neg hp, ih, h b (Bool.eq_false_iff.mpr hp), List.nil_append]

/-- Chunks that come out empty add nothing. -/
theorem flatMap_computeRowRanges (cells : List α) :
    (computeRowRanges M t).flatMap (fun r => r.segment cells) =
      (List.range (M.numChunks t)).flatMap fun i => (rangeAt M t i).segment cells := by
  rw [computeRowRanges, flatMap_filter_of_nil, List.flatMap_map]
  · rfl
  · intro r hr
    have hle : r.stop - r.start = 0 := Nat.sub_eq_zero_of_le (not_lt.mp (of_decide_eq_false hr))
    rw [RowRange.segment, hle, List.take_zero]

/-- The rows of the first chunks, with what each has. -/
def rowsOfFirst (M : Machine) (t m : Nat) : Nat :=
  ((List.range m).map fun i => (rangeAt M t i).stop - (rangeAt M t i).start).sum

theorem rowsOfFirst_succ :
    rowsOfFirst M t (m + 1) =
      rowsOfFirst M t m + ((rangeAt M t m).stop - (rangeAt M t m).start) := by
  simp [rowsOfFirst, List.range_succ]

theorem length_flatMap_segment {cells : List α} (ht : t ≤ cells.length) :
    ((List.range m).flatMap fun i => (rangeAt M t i).segment cells).length =
      rowsOfFirst M t m := by
  rw [List.length_flatMap, rowsOfFirst]
  refine congrArg List.sum (List.map_congr_left fun i _ => ?_)
  rw [RowRange.segment, List.length_take, List.length_drop]
  have hstop : (rangeAt M t i).stop ≤ t := min_le_right _ _
  omega

/-- What the first `m` chunks hold. Before the boundaries pass the 32 bits it is the rows up to the
boundary; the chunk `j` whose end is the first past them adds nothing, and every one after it adds
its full size. -/
theorem rowsOfFirst_spec (hm : m ≤ M.numChunks t) (ht : t < U32_SIZE) :
    (m * M.chunkSize t < U32_SIZE → rowsOfFirst M t m = min (m * M.chunkSize t) t) ∧
      ∀ j, j < m → j * M.chunkSize t < U32_SIZE → U32_SIZE ≤ j * M.chunkSize t + M.chunkSize t →
        rowsOfFirst M t m + j * M.chunkSize t + M.chunkSize t =
          min (j * M.chunkSize t) t + m * M.chunkSize t := by
  induction m with
  | zero => exact ⟨fun _ => by simp [rowsOfFirst], fun j hj => absurd hj (Nat.not_lt_zero j)⟩
  | succ m ih =>
    obtain ⟨ihlow, ihhigh⟩ := ih (Nat.le_of_succ_le hm)
    have hbound := M.mul_chunkSize_lt t
    have hchunks := M.numChunks_lt t
    have hsize := M.chunkSize_le t
    have hmul : (m + 1) * M.chunkSize t ≤ M.numChunks t * M.chunkSize t :=
      Nat.mul_le_mul_right _ hm
    rw [rowsOfFirst_succ]
    simp only [rangeAt, asU32, U32_SIZE, Nat.succ_mul] at *
    refine ⟨fun hlow => ?_, fun j hj hjlow hjhigh => ?_⟩
    · have := ihlow (by omega)
      omega
    · rcases Nat.lt_or_ge (m * M.chunkSize t) 4294967296 with hmlow | hmhigh
      · -- the chunk that crosses the boundary
        have hjm : j = m := by
          refine Nat.le_antisymm (Nat.le_of_lt_succ hj) (not_lt.mp fun hlt => ?_)
          have := Nat.mul_le_mul_right (M.chunkSize t) (Nat.succ_le_of_lt hlt)
          rw [Nat.succ_mul] at this
          omega
        subst hjm
        have hone : M.chunkSize t ≤ j * M.chunkSize t := by
          rcases Nat.eq_zero_or_pos j with rfl | hpos
          · omega
          · exact Nat.le_mul_of_pos_left _ hpos
        have := ihlow hmlow
        omega
      · have hjm : j < m := by
          refine lt_of_le_of_ne (Nat.le_of_lt_succ hj) ?_
          rintro rfl
          omega
        have := ihhigh j hjm hjlow hjhigh
        omega

/-- The slices hold as many rows as there are only if they cover them. -/
theorem coversRows_of_rowsOfFirst
    (h : rowsOfFirst M (asU32 rows) (M.numChunks (asU32 rows)) = rows) : CoversRows M rows := by
  have ht : asU32 rows < U32_SIZE := Nat.mod_lt _ (by decide)
  obtain ⟨hlow, hhigh⟩ := rowsOfFirst_spec (le_refl (M.numChunks (asU32 rows))) ht
  have hbound := M.mul_chunkSize_lt (asU32 rows)
  have hchunks := M.numChunks_lt (asU32 rows)
  have hprev : (M.numChunks (asU32 rows) - 1) * M.chunkSize (asU32 rows) =
      M.numChunks (asU32 rows) * M.chunkSize (asU32 rows) - M.chunkSize (asU32 rows) := by
    rw [Nat.sub_mul, Nat.one_mul]
  have hall := M.le_mul_chunkSize (asU32 rows)
  -- the chunk whose end passes the 32 bits first
  have hcross : U32_SIZE ≤ M.numChunks (asU32 rows) * M.chunkSize (asU32 rows) →
      ∃ j < M.numChunks (asU32 rows), j * M.chunkSize (asU32 rows) < U32_SIZE ∧
        U32_SIZE ≤ j * M.chunkSize (asU32 rows) + M.chunkSize (asU32 rows) := by
    intro hwrap
    have hsize : 0 < M.chunkSize (asU32 rows) := by
      refine Nat.pos_of_ne_zero fun hzero => ?_
      rw [hzero, Nat.mul_zero] at hwrap
      exact absurd hwrap (by decide)
    have hle := Nat.div_mul_le_self (U32_SIZE - 1) (M.chunkSize (asU32 rows))
    have hlt := Nat.lt_div_mul_add (a := U32_SIZE - 1) hsize
    simp only [U32_SIZE] at *
    refine ⟨(4294967296 - 1) / M.chunkSize (asU32 rows), ?_, by omega, by omega⟩
    by_contra hge
    have := Nat.mul_le_mul_right (M.chunkSize (asU32 rows)) (not_lt.mp hge)
    omega
  rw [CoversRows]
  rcases Nat.lt_or_ge rows U32_SIZE with hrows | hrows
  · have heq : asU32 rows = rows := Nat.mod_eq_of_lt hrows
    rw [heq] at h hlow hhigh hall hprev hcross
    refine ⟨hrows, ?_⟩
    rw [hprev]
    rcases Nat.lt_or_ge (M.numChunks rows * M.chunkSize rows) U32_SIZE with hfit | hwrap
    · exact ⟨by omega, fun _ => hfit⟩
    · obtain ⟨j, hj, hjlow, hjhigh⟩ := hcross hwrap
      have := hhigh j hj hjlow hjhigh
      clear hcross
      omega
  · -- every chunk is at most its full size, and these are too few
    have hmod : asU32 rows + U32_SIZE ≤ rows := by
      simp only [asU32, U32_SIZE] at *
      omega
    rcases Nat.lt_or_ge (M.numChunks (asU32 rows) * M.chunkSize (asU32 rows)) U32_SIZE with
      hfit | hwrap
    · have := hlow hfit
      omega
    · obtain ⟨j, hj, hjlow, hjhigh⟩ := hcross hwrap
      have := hhigh j hj hjlow hjhigh
      clear hcross
      omega

/-- The slices of rows that they cover are the rows. -/
theorem flatMap_segment_of_covers {cells : List α} (hlen : cells.length = rows)
    (h : CoversRows M rows) :
    (computeRowRanges M (asU32 rows)).flatMap (fun r => r.segment cells) = cells := by
  have ht : asU32 rows = rows := Nat.mod_eq_of_lt h.1
  rw [ht, flatMap_computeRowRanges]
  have hparts : ∀ m, m * M.chunkSize rows < U32_SIZE →
      ((List.range m).flatMap fun i => (rangeAt M rows i).segment cells) =
        cells.take (m * M.chunkSize rows) := by
    intro m
    induction m with
    | zero => simp
    | succ m ih =>
      intro hm
      rw [Nat.succ_mul] at hm
      have hstart : asU32 (m * M.chunkSize rows) = m * M.chunkSize rows :=
        Nat.mod_eq_of_lt (by omega)
      have hstop : asU32 ((m + 1) * M.chunkSize rows) =
          m * M.chunkSize rows + M.chunkSize rows := by
        rw [Nat.succ_mul]
        exact Nat.mod_eq_of_lt hm
      rw [List.range_succ, List.flatMap_append, ih (by omega), List.flatMap_singleton, rangeAt,
        RowRange.segment, hstart, hstop, Nat.succ_mul, List.take_add]
      refine congrArg (cells.take (m * M.chunkSize rows) ++ ·) ?_
      rw [List.take_eq_take_iff, List.length_drop, hlen]
      dsimp only
      omega
  have hpos := M.numChunks_pos rows
  have hall := M.le_mul_chunkSize rows
  rcases Nat.lt_or_ge (M.numChunks rows * M.chunkSize rows) U32_SIZE with hlow | hhigh
  · rw [hparts _ hlow, List.take_of_length_le (hlen ▸ hall)]
  · -- the last chunk starts after the rows
    have hlast : rows ≤ (M.numChunks rows - 1) * M.chunkSize rows :=
      not_lt.mp fun hlt => absurd (h.2.2 hlt) (not_lt.mpr hhigh)
    obtain ⟨n, hn⟩ : ∃ n, M.numChunks rows = n + 1 := ⟨M.numChunks rows - 1, by omega⟩
    have hprev := h.2.1
    rw [hn, Nat.add_sub_cancel] at hlast hprev
    have hstart : asU32 (n * M.chunkSize rows) = n * M.chunkSize rows := Nat.mod_eq_of_lt hprev
    rw [hn, List.range_succ, List.flatMap_append, hparts n hprev, List.flatMap_singleton, rangeAt,
      RowRange.segment, hstart, List.drop_of_length_le (hlen ▸ hlast), List.take_nil,
      List.append_nil, List.take_of_length_le (hlen ▸ hlast)]

end Saci
