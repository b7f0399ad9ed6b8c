/-!
# Loops that may be left

A loop takes a state and the input of one turn to an output, and either goes on from a new state or
is left with an answer. `loop` feeds it a list of inputs. Where the machines of `Run` stop at an
error and their outputs are lost, a loop keeps the outputs of the turn that left it. The rules say
once how facts about single turns become facts about all turns that are reached.
-/

universe u v w x y

/-- How a turn ends. -/
inductive Ending (σ : Type u) (ρ : Type v)
  | next (s : σ)
  | leave (r : ρ)

section
variable {σ : Type u} {ρ : Type v} {ι : Type w} {ο : Type x}

/-- The outputs of the turns that are reached, and where the loop then is. -/
def loop (f : σ → ι → ο × Ending σ ρ) : σ → List ι → List ο × Ending σ ρ
  | s, [] => ([], .next s)
  | s, i :: is =>
    match f s i with
    | (o, .leave r) => ([o], .leave r)
    | (o, .next s') =>
      let (os, flow) := loop f s' is
      (o :: os, flow)

/-- Every turn that is reached meets a condition on its state and input. -/
def EachTurn (f : σ → ι → ο × Ending σ ρ) (C : σ → ι → Prop) : σ → List ι → Prop
  | _, [] => True
  | s, i :: is => C s i ∧ ∀ s', (f s i).2 = .next s' → EachTurn f C s' is

variable {f : σ → ι → ο × Ending σ ρ} {s s' : σ} {i : ι} {is js : List ι} {C D : σ → ι → Prop}

@[simp] theorem loop_nil : loop f s [] = ([], .next s) := rfl

theorem loop_cons_leave {r : ρ} (h : (f s i).2 = .leave r) :
    loop f s (i :: is) = ([(f s i).1], .leave r) := by
  have hf : f s i = ((f s i).1, .leave r) := Prod.ext rfl h
  rw [loop, hf]

theorem loop_cons_next (h : (f s i).2 = .next s') :
    loop f s (i :: is) = ((f s i).1 :: (loop f s' is).1, (loop f s' is).2) := by
  have hf : f s i = ((f s i).1, .next s') := Prod.ext rfl h
  rw [loop, hf]

/-- A loop that is still running after one more turn was running before it. -/
theorem loop_cons_eq_next {t : σ} (h : (loop f s (i :: is)).2 = .next t) :
    ∃ s', (f s i).2 = .next s' ∧ (loop f s' is).2 = .next t := by
  cases hf : (f s i).2 with
  | leave r => rw [loop_cons_leave hf] at h; cases h
  | next s' => rw [loop_cons_next hf] at h; exact ⟨s', rfl, h⟩

/-- A monitor that starts at rest follows the outputs of a loop. Where every turn after which the
loop goes on brings it back to rest, it is at rest at the end just if the turn that leaves the loop
brings it back too. -/
theorem monitor_loop_iff {μ : Type y} {ε : Type y} {observe : μ → ε → Option μ} {rest : μ}
    {f : σ → ι → List ε × Ending σ ρ}
    (next : ∀ s i s', (f s i).2 = .next s' → (f s i).1.foldlM observe rest = some rest ∧ C s i)
    (leave : ∀ s i r, (f s i).2 = .leave r → ((f s i).1.foldlM observe rest = some rest ↔ C s i)) :
    (loop f s is).1.flatten.foldlM observe rest = some rest ↔ EachTurn f C s is := by
  induction is generalizing s with
  | nil => simp [EachTurn]
  | cons i is ih =>
    cases hf : (f s i).2 with
    | leave r => simp [loop_cons_leave hf, EachTurn, hf, leave s i r hf]
    | next s' =>
      obtain ⟨hrest, hC⟩ := next s i s' hf
      simp [loop_cons_next hf, EachTurn, hf, List.foldlM_append, hrest, hC, ih]

/-- Induction along a loop that keeps running: `P done os s` may look at the inputs and the outputs
of the turns so far, and every turn taken meets `C`. -/
theorem loop_induction {P : List ι → List ο → σ → Prop} {s₀ t : σ} (start : P [] [] s₀)
    (step : ∀ done os s i s', P done os s → C s i → (f s i).2 = .next s' →
      P (done ++ [i]) (os ++ [(f s i).1]) s')
    (hC : EachTurn f C s₀ is) (h : (loop f s₀ is).2 = .next t) : P is (loop f s₀ is).1 t := by
  suffices aux : ∀ (is done : List ι) (os : List ο) (s : σ), P done os s → EachTurn f C s is →
      (loop f s is).2 = .next t → P (done ++ is) (os ++ (loop f s is).1) t from
    aux is [] [] s₀ start hC h
  intro is
  induction is with
  | nil =>
    intro done os s hP _ h
    cases h
    simpa using hP
  | cons i is ih =>
    intro done os s hP hC h
    obtain ⟨s', hf, hrest⟩ := loop_cons_eq_next h
    rw [loop_cons_next hf]
    simpa using ih (done ++ [i]) _ s' (step done os s i s' hP hC.1 hf) (hC.2 s' hf) hrest

end
