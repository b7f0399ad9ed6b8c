import Mathlib
import Saci.Library.Span

/-!
# Spans that cut a range into parts

Spans tile a range when they stand in it one after the other, none is empty, and together they hold
its points and no others. Such a list is walked from its front: the first span starts where the
range does, and the others tile what is left (`Tiles.cons`).
-/

universe u

section
variable {α : Type u} [LinearOrder α] {lo hi : α} {span : α × α} {spans : List (α × α)}

/-- The spans are ascending, disjoint and not empty, and hold what lies from `lo` to `hi`. -/
structure Tiles (spans : List (α × α)) (lo hi : α) : Prop where
  ascending : spans.Pairwise fun a b => a.2 ≤ b.1
  nonempty : ∀ span ∈ spans, span.1 < span.2
  covers : ∀ x, Covered spans x ↔ x ∈ Set.Ico lo hi

theorem Tiles.le_of_mem (h : Tiles spans lo hi) (hmem : span ∈ spans) : lo ≤ span.1 :=
  ((h.covers span.1).mp ⟨span, hmem, le_rfl, h.nonempty span hmem⟩).1

/-- What an empty list of spans tiles has no points. -/
theorem Tiles.nil (h : Tiles ([] : List (α × α)) lo hi) : hi ≤ lo := by
  refine not_lt.mp fun hlt => ?_
  obtain ⟨span, hmem, -⟩ := (h.covers lo).mpr ⟨le_rfl, hlt⟩
  exact List.not_mem_nil hmem

theorem Tiles.cons (h : Tiles (span :: spans) lo hi) :
    span.1 = lo ∧ span.2 ≤ hi ∧ Tiles spans span.2 hi := by
  obtain ⟨hhead, htail⟩ := List.pairwise_cons.mp h.ascending
  have hspan := h.nonempty span List.mem_cons_self
  have hcovers := fun x hx => (h.covers x).mp ⟨span, List.mem_cons_self, hx⟩
  have hstart : span.1 = lo := by
    refine le_antisymm ?_ (h.le_of_mem List.mem_cons_self)
    have hlt : lo < hi := (h.le_of_mem List.mem_cons_self).trans_lt (hcovers _ ⟨le_rfl, hspan⟩).2
    obtain ⟨other, hmem, hx⟩ := (h.covers lo).mpr ⟨le_rfl, hlt⟩
    rcases List.mem_cons.mp hmem with rfl | hmem
    · exact hx.1
    · exact (hspan.le.trans (hhead other hmem)).trans hx.1
  have hstop : span.2 ≤ hi := by
    refine not_lt.mp fun hlt => ?_
    have hle : span.1 ≤ hi := (hcovers _ ⟨le_rfl, hspan⟩).2.le
    exact lt_irrefl hi (hcovers hi ⟨hle, hlt⟩).2
  refine ⟨hstart, hstop, htail, fun s hs => h.nonempty s (List.mem_cons_of_mem _ hs), ?_⟩
  refine fun x => ⟨fun ⟨other, hmem, hx⟩ => ?_, fun hx => ?_⟩
  · exact ⟨(hhead other hmem).trans hx.1,
      ((h.covers x).mp ⟨other, List.mem_cons_of_mem _ hmem, hx⟩).2⟩
  · have hlo : lo ≤ x := hstart ▸ hspan.le.trans hx.1
    obtain ⟨other, hmem, hother⟩ := (h.covers x).mpr ⟨hlo, hx.2⟩
    rcases List.mem_cons.mp hmem with rfl | hmem
    · exact absurd hother.2 (not_lt.mpr hx.1)
    · exact ⟨other, hmem, hother⟩

end

/-- The parts of a range are as long together as the range. -/
theorem Tiles.sum_lengths {spans : List (Nat × Nat)} {lo hi : Nat} (h : Tiles spans lo hi) :
    (spans.map fun span => span.2 - span.1).sum = hi - lo := by
  induction spans generalizing lo with
  | nil => exact (Nat.sub_eq_zero_of_le h.nil).symm
  | cons span spans ih =>
    obtain ⟨hstart, hstop, htail⟩ := h.cons
    have hspan := h.nonempty span List.mem_cons_self
    rw [List.map_cons, List.sum_cons, ih htail, ← hstart]
    omega
