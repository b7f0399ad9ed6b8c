import Mathlib.Data.List.Infix

/-!
# Readers of a cursor

A reader works on a state from which one can see what is still to be read, and that it moves
forward. `Parses p spells` says of a reader what it takes off the front, and when it succeeds at all:
exactly if the front spells a value. The rules follow the reader's own sequence, so that a layout is
read off the program that reads it.
-/

universe u v w

/-- What is left to be read in a state, and the state some symbols further on. -/
structure Cursor (σ : Type u) (β : Type v) where
  rest : σ → List β
  skip : Nat → σ → σ
  Inside : σ → Prop
  rest_skip : ∀ n s, rest (skip n s) = (rest s).drop n
  skip_skip : ∀ n m s, skip m (skip n s) = skip (n + m) s
  skip_zero : ∀ s, skip 0 s = s
  inside_skip : ∀ n s, Inside s → n ≤ (rest s).length → Inside (skip n s)

namespace Cursor

variable {σ : Type u} {β : Type v} {ε : Type u} {α γ : Type u} (C : Cursor σ β)

/-- The reader succeeds exactly on a front that spells a value, and answers that value. -/
def Parses (p : StateT σ (Except ε) α) (spells : α → List β → Prop) : Prop :=
  ∀ s a s', C.Inside s → (p.run s = .ok (a, s') ↔
    ∃ front, spells a front ∧ front <+: C.rest s ∧ s' = C.skip front.length s)

namespace Parses

variable {C} {p : StateT σ (Except ε) α} {spells : α → List β → Prop}

theorem congr {spells' : α → List β → Prop} (h : C.Parses p spells)
    (hiff : ∀ a front, spells a front ↔ spells' a front) : C.Parses p spells' := by
  intro s a s' hs
  rw [h s a s' hs]
  exact exists_congr fun front => and_congr_left fun _ => hiff a front

theorem pure (a : α) :
    C.Parses (Pure.pure a : StateT σ (Except ε) α) fun b front => b = a ∧ front = [] := by
  intro s b s' _
  rw [StateT.run_pure]
  constructor
  · intro h
    cases h
    exact ⟨[], ⟨rfl, rfl⟩, List.nil_prefix, (C.skip_zero s).symm⟩
  · rintro ⟨front, ⟨rfl, rfl⟩, -, rfl⟩
    rw [List.length_nil, C.skip_zero]
    rfl

theorem throw (e : ε) :
    C.Parses (throwThe ε e : StateT σ (Except ε) α) fun _ _ => False := by
  intro s b s' _
  constructor
  · intro h
    cases h
  · rintro ⟨_, hfalse, -⟩
    exact hfalse.elim

/-- A reader of written things, followed by one that goes on with what is shown of the thing. -/
theorem bind_written {τ : Type w} {shown : τ → α} {written : τ → List β}
    {f : α → StateT σ (Except ε) γ} {spells' : τ → γ → List β → Prop}
    (hp : C.Parses p fun a front => ∃ t, a = shown t ∧ front = written t)
    (hf : ∀ t, C.Parses (f (shown t)) (spells' t)) :
    C.Parses (p >>= f) fun c front => ∃ t y, front = written t ++ y ∧ spells' t c y := by
  have hinside : ∀ s t more, C.Inside s → written t ++ more = C.rest s →
      C.Inside (C.skip (written t).length s) ∧ C.rest (C.skip (written t).length s) = more := by
    intro s t more hs hmore
    refine ⟨C.inside_skip _ s hs ?_, ?_⟩
    · rw [← hmore, List.length_append]
      exact Nat.le_add_right _ _
    · rw [C.rest_skip, ← hmore, List.drop_left]
  intro s c s' hs
  rw [StateT.run_bind]
  constructor
  · intro h
    cases hrun : p.run s with
    | error e =>
      rw [hrun] at h
      cases h
    | ok first =>
      obtain ⟨a, middle⟩ := first
      rw [hrun] at h
      obtain ⟨_, ⟨t, rfl, rfl⟩, ⟨more, hmore⟩, rfl⟩ := (hp s a middle hs).mp hrun
      obtain ⟨hin, hrest⟩ := hinside s t more hs hmore
      obtain ⟨y, hy, hpre, rfl⟩ := (hf t _ c s' hin).mp h
      rw [hrest] at hpre
      refine ⟨written t ++ y, ⟨t, y, rfl, hy⟩, ?_, ?_⟩
      · rw [← hmore]
        exact (List.prefix_append_right_inj _).mpr hpre
      · rw [C.skip_skip, List.length_append]
  · rintro ⟨_, ⟨t, y, rfl, hy⟩, ⟨more, hmore⟩, rfl⟩
    rw [List.append_assoc] at hmore
    obtain ⟨hin, hrest⟩ := hinside s t _ hs hmore
    rw [(hp s (shown t) _ hs).mpr ⟨_, ⟨t, rfl, rfl⟩, ⟨y ++ more, hmore⟩, rfl⟩]
    refine (hf t _ c _ hin).mpr ⟨y, hy, ⟨more, hrest.symm⟩, ?_⟩
    rw [C.skip_skip, List.length_append]

theorem bind {f : α → StateT σ (Except ε) γ} {spells' : α → γ → List β → Prop}
    (hp : C.Parses p spells) (hf : ∀ a, C.Parses (f a) (spells' a)) :
    C.Parses (p >>= f) fun c front => ∃ a x y, front = x ++ y ∧ spells a x ∧ spells' a c y := by
  have hwritten : C.Parses p fun a front =>
      ∃ t : { t : α × List β // spells t.1 t.2 }, a = t.1.1 ∧ front = t.1.2 := by
    refine hp.congr fun a front => ⟨fun h => ⟨⟨(a, front), h⟩, rfl, rfl⟩, ?_⟩
    rintro ⟨⟨_, h⟩, rfl, rfl⟩
    exact h
  refine (bind_written hwritten fun t => hf t.1.1).congr fun c front => ⟨?_, ?_⟩
  · rintro ⟨⟨⟨a, x⟩, hx⟩, y, rfl, hy⟩
    exact ⟨a, x, y, rfl, hx, hy⟩
  · rintro ⟨a, x, y, rfl, hx, hy⟩
    exact ⟨⟨(a, x), hx⟩, y, rfl, hy⟩

/-- A reader that goes on only where a condition holds. -/
theorem guard {c : Prop} [Decidable c] {q : StateT σ (Except ε) α} {e : ε}
    (h : ¬c → C.Parses q spells) :
    C.Parses (if c then throwThe ε e else q) fun a front => ¬c ∧ spells a front := by
  by_cases hc : c
  · rw [if_pos hc]
    exact (throw e).congr fun _ _ => iff_of_false id fun hnot => hnot.1 hc
  · rw [if_neg hc]
    exact (h hc).congr fun _ _ => (and_iff_right hc).symm

/-- A thing that is read, of which something else is shown. -/
theorem map_written {τ : Type w} {shown : τ → α} {written : τ → List β} (f : α → γ)
    (hp : C.Parses p fun a front => ∃ t, a = shown t ∧ front = written t) :
    C.Parses (p >>= fun a => Pure.pure (f a)) fun c front =>
      ∃ t, c = f (shown t) ∧ front = written t := by
  refine (bind_written hp fun t => pure (f (shown t))).congr fun c front => ?_
  constructor
  · rintro ⟨t, _, rfl, rfl, rfl⟩
    exact ⟨t, rfl, List.append_nil _⟩
  · rintro ⟨t, rfl, rfl⟩
    exact ⟨t, [], (List.append_nil _).symm, rfl, rfl⟩

end Parses
end Cursor
