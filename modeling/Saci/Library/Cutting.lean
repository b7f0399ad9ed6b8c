import Mathlib.Data.List.Basic

/-!
# Cutting a stream into frames

A cutter takes the next frame off the front of what has arrived of a stream, or says that it is not
all there yet. It may not change its mind: a frame that is cut stays the same whatever arrives later.
So it does not matter into which chunks the stream was split (`cut_append`).
-/

universe u v

/-- Takes frames off the front of a list. -/
structure Cutter (β : Type u) (α : Type v) where
  next : List β → Option (α × List β)
  shrinks : ∀ {arrived frame rest}, next arrived = some (frame, rest) → rest.length < arrived.length
  stable : ∀ {arrived frame rest}, next arrived = some (frame, rest) →
    ∀ later, next (arrived ++ later) = some (frame, rest ++ later)

namespace Cutter

variable {β : Type u} {α : Type v} (cutter : Cutter β α)

/-- All frames that are there, and what is left. -/
def cut (arrived : List β) : List α × List β :=
  match _h : cutter.next arrived with
  | none => ([], arrived)
  | some (frame, rest) => (frame :: (cut rest).1, (cut rest).2)
termination_by arrived.length
decreasing_by all_goals exact cutter.shrinks _h

variable {cutter}

theorem cut_of_none {arrived : List β} (h : cutter.next arrived = none) :
    cutter.cut arrived = ([], arrived) := by
  rw [cut]
  split
  · rfl
  · next hsome =>
    rw [h] at hsome
    cases hsome

theorem cut_of_some {arrived rest : List β} {frame : α}
    (h : cutter.next arrived = some (frame, rest)) :
    cutter.cut arrived = (frame :: (cutter.cut rest).1, (cutter.cut rest).2) := by
  rw [cut]
  split
  · next hnone =>
    rw [h] at hnone
    cases hnone
  · next hsome =>
    rw [h] at hsome
    cases hsome
    rfl

/-- Nothing more can be cut from what is left. -/
theorem next_cut (arrived : List β) : cutter.next (cutter.cut arrived).2 = none := by
  fun_induction cut cutter arrived with
  | case1 _ h => exact h
  | case2 _ _ _ _ ih => exact ih

/-- Cutting a stream in two parts gives the frames of the whole: what is left of the first part goes
in front of the second. -/
theorem cut_append (arrived later : List β) :
    cutter.cut (arrived ++ later) =
      ((cutter.cut arrived).1 ++ (cutter.cut ((cutter.cut arrived).2 ++ later)).1,
        (cutter.cut ((cutter.cut arrived).2 ++ later)).2) := by
  fun_induction cut cutter arrived with
  | case1 => rfl
  | case2 arrived frame rest h ih => rw [cut_of_some (cutter.stable h later), ih, List.cons_append]

/-! ## Counted frames -/

section
variable {w : Nat} {size : List β → Nat} {header body : List β}

/-- The part that a header of fixed width counts. -/
def cutCounted (w : Nat) (size : List β → Nat) (arrived : List β) : Option (List β × List β) :=
  if w ≤ arrived.length ∧ w + size (arrived.take w) ≤ arrived.length then
    let rest := arrived.drop w
    some (rest.take (size (arrived.take w)), rest.drop (size (arrived.take w)))
  else none

/-- A frame is what a header of fixed width counts. -/
def counted (w : Nat) (size : List β → Nat) (hw : 0 < w) : Cutter β (List β) where
  next := cutCounted w size
  shrinks h := by
    unfold cutCounted at h
    split_ifs at h with hall
    cases h
    simp only [List.length_drop]
    omega
  stable {arrived _ _} h later := by
    unfold cutCounted at h
    split_ifs at h with hall
    obtain ⟨hle, hsize⟩ := hall
    cases h
    have htake : (arrived ++ later).take w = arrived.take w := List.take_append_of_le_length hle
    have hdrop : (arrived ++ later).drop w = arrived.drop w ++ later :=
      List.drop_append_of_le_length hle
    have hrest : size (arrived.take w) ≤ (arrived.drop w).length := by
      rw [List.length_drop]
      omega
    have hlen : (arrived ++ later).length = arrived.length + later.length := List.length_append
    unfold cutCounted
    rw [htake, if_pos (by omega), hdrop]
    dsimp only
    rw [List.take_append_of_le_length hrest, List.drop_append_of_le_length hrest]

theorem next_counted (hw : 0 < w) (hheader : header.length = w) (hsize : size header = body.length)
    (rest : List β) : (counted w size hw).next (header ++ body ++ rest) = some (body, rest) := by
  change cutCounted w size (header ++ body ++ rest) = some (body, rest)
  have htake : (header ++ body ++ rest).take w = header := by
    rw [List.append_assoc, List.take_left' hheader]
  have hdrop : (header ++ body ++ rest).drop w = body ++ rest := by
    rw [List.append_assoc, List.drop_left' hheader]
  have hlen : w + body.length ≤ (header ++ body ++ rest).length := by
    simp only [List.length_append]
    omega
  unfold cutCounted
  rw [htake, hsize, if_pos ⟨by omega, hlen⟩, hdrop]
  dsimp only
  rw [List.take_left, List.drop_left]

/-- Frames that stand one after the other are cut apart. -/
theorem cut_counted (hw : 0 < w) {frame : List β → List β} {bodies : List (List β)}
    (hframe : ∀ body ∈ bodies, ∃ header, header.length = w ∧ size header = body.length ∧
      frame body = header ++ body) :
    (counted w size hw).cut (bodies.flatMap frame) = (bodies, []) := by
  induction bodies with
  | nil =>
    refine cut_of_none (if_neg ?_)
    rintro ⟨hle, -⟩
    have hzero : w ≤ 0 := hle
    omega
  | cons body bodies ih =>
    obtain ⟨hhead, htail⟩ := List.forall_mem_cons.mp hframe
    obtain ⟨header, hheader, hsize, heq⟩ := hhead
    rw [List.flatMap_cons, heq, cut_of_some (next_counted hw hheader hsize _), ih htail]

end

end Cutter
