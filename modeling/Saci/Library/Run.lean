/-!
# Runs of a fallible state machine

A machine takes a state and an input to a new state and an output, or fails. `run` feeds it a list
of inputs. The rules below say once how a fact about single steps becomes a fact about whole runs:
totality (`run_total`), invariants (`run_invariant`), invariants that look at the inputs delivered
so far (`run_induction`) or at a condition on every step (`EachStep`), and simulation of one
machine by another (`run_simulation`).
-/

universe u v w x y

section
variable {σ : Type u} {ι : Type v} {ο : Type w} {ε : Type x} {τ : Type y}

/-- Feed the inputs to the machine one after the other and collect its outputs. -/
def run (f : σ → ι → Except ε (σ × ο)) : σ → List ι → Except ε (σ × List ο)
  | s, [] => .ok (s, [])
  | s, i :: is =>
    match f s i with
    | .error e => .error e
    | .ok (s', o) =>
      match run f s' is with
      | .error e => .error e
      | .ok (s'', os) => .ok (s'', o :: os)

/-- Every step the run takes meets a condition on its state and input. -/
def EachStep (f : σ → ι → Except ε (σ × ο)) (C : σ → ι → Prop) : σ → List ι → Prop
  | _, [] => True
  | s, i :: is => C s i ∧ ∀ s' o, f s i = .ok (s', o) → EachStep f C s' is

/-- A condition that can be tested can be tested along a run. -/
instance EachStep.decidable (f : σ → ι → Except ε (σ × ο)) (C : σ → ι → Prop)
    [∀ s i, Decidable (C s i)] : ∀ s is, Decidable (EachStep f C s is)
  | _, [] => isTrue trivial
  | s, i :: is =>
    match h : f s i with
    | .error e =>
      decidable_of_iff (C s i) ⟨fun hC => ⟨hC, fun _ _ hf => nomatch h.symm.trans hf⟩, And.left⟩
    | .ok (t, o) =>
      have := EachStep.decidable f C t is
      decidable_of_iff (C s i ∧ EachStep f C t is)
        ⟨fun hC => ⟨hC.1, fun _ _ hf => by cases h.symm.trans hf; exact hC.2⟩,
          fun hC => ⟨hC.1, hC.2 t o h⟩⟩

variable {f : σ → ι → Except ε (σ × ο)} {s s' : σ} {i : ι} {is js : List ι} {os : List ο}

@[simp] theorem run_nil : run f s [] = .ok (s, []) := rfl

theorem run_nil_eq_ok_iff : run f s [] = .ok (s', os) ↔ s' = s ∧ os = [] := by
  simp [eq_comm]

theorem run_cons_eq_ok_iff :
    run f s (i :: is) = .ok (s', os) ↔
      ∃ t o os', f s i = .ok (t, o) ∧ run f t is = .ok (s', os') ∧ os = o :: os' := by
  rw [run]
  constructor
  · intro h
    split at h
    · cases h
    · next t o hf =>
      split at h
      · cases h
      · next t' os' hrun =>
        cases h
        exact ⟨t, o, os', hf, hrun, rfl⟩
  · rintro ⟨t, o, os', hf, hrun, rfl⟩
    simp only [hf, hrun]

theorem run_append_eq_ok_iff :
    run f s (is ++ js) = .ok (s', os) ↔
      ∃ t os₁ os₂, run f s is = .ok (t, os₁) ∧ run f t js = .ok (s', os₂) ∧ os = os₁ ++ os₂ := by
  induction is generalizing s os with
  | nil =>
    constructor
    · exact fun h => ⟨s, [], os, rfl, h, rfl⟩
    · rintro ⟨t, os₁, os₂, h₁, h₂, rfl⟩
      obtain ⟨rfl, rfl⟩ := run_nil_eq_ok_iff.mp h₁
      exact h₂
  | cons i is ih =>
    simp only [List.cons_append, run_cons_eq_ok_iff, ih]
    constructor
    · rintro ⟨t, o, _, hf, ⟨t', os₁, os₂, h₁, h₂, rfl⟩, rfl⟩
      exact ⟨t', o :: os₁, os₂, ⟨t, o, os₁, hf, h₁, rfl⟩, h₂, rfl⟩
    · rintro ⟨t', _, os₂, ⟨t, o, os₁, hf, h₁, rfl⟩, h₂, rfl⟩
      exact ⟨t, o, _, hf, ⟨t', os₁, os₂, h₁, h₂, rfl⟩, rfl⟩

theorem run_singleton_eq_ok_iff :
    run f s [i] = .ok (s', os) ↔ ∃ o, f s i = .ok (s', o) ∧ os = [o] := by
  rw [run_cons_eq_ok_iff]
  constructor
  · rintro ⟨t, o, _, hf, h, rfl⟩
    obtain ⟨rfl, rfl⟩ := run_nil_eq_ok_iff.mp h
    exact ⟨o, hf, rfl⟩
  · rintro ⟨o, hf, rfl⟩
    exact ⟨s', o, [], hf, rfl, rfl⟩

/-- A machine that cannot fail on its invariant never fails on a run. -/
theorem run_total {I : σ → Prop}
    (step : ∀ s i, I s → ∃ s' o, f s i = .ok (s', o) ∧ I s') (h : I s) (is : List ι) :
    ∃ s' os, run f s is = .ok (s', os) ∧ I s' := by
  induction is generalizing s with
  | nil => exact ⟨s, [], rfl, h⟩
  | cons i is ih =>
    obtain ⟨t, o, hf, ht⟩ := step s i h
    obtain ⟨s', os, hrun, hs'⟩ := ih ht
    exact ⟨s', o :: os, run_cons_eq_ok_iff.mpr ⟨t, o, os, hf, hrun, rfl⟩, hs'⟩

/-- Induction along a run from its start: `P done s` may look at the inputs delivered so far. -/
theorem run_induction {P : List ι → σ → Prop} {s₀ : σ} (start : P [] s₀)
    (step : ∀ done i s s' o os, run f s₀ done = .ok (s, os) → P done s → f s i = .ok (s', o) →
      P (done ++ [i]) s')
    (h : run f s₀ is = .ok (s', os)) : P is s' := by
  suffices aux : ∀ (is done : List ι) (s : σ) (os os' : List ο), run f s₀ done = .ok (s, os) →
      P done s → run f s is = .ok (s', os') → P (done ++ is) s' from
    aux is [] s₀ [] os rfl start h
  intro is
  induction is with
  | nil =>
    intro done s _ _ _ hP h
    obtain ⟨rfl, -⟩ := run_nil_eq_ok_iff.mp h
    simpa using hP
  | cons i is ih =>
    intro done s os _ hdone hP h
    obtain ⟨t, o, os', hf, hrun, -⟩ := run_cons_eq_ok_iff.mp h
    have hnext : run f s₀ (done ++ [i]) = .ok (t, os ++ [o]) :=
      run_append_eq_ok_iff.mpr ⟨s, os, [o], hdone, run_singleton_eq_ok_iff.mpr ⟨o, hf, rfl⟩, rfl⟩
    simpa using ih (done ++ [i]) t _ os' hnext (step done i s t o os hdone hP hf) hrun

/-- What every step preserves holds at the end of every run. -/
theorem run_invariant {I : σ → Prop}
    (step : ∀ s i s' o, I s → f s i = .ok (s', o) → I s')
    (h : run f s is = .ok (s', os)) (hs : I s) : I s' :=
  run_induction (P := fun _ => I) hs (fun _ i s s' o _ _ hP hf => step s i s' o hP hf) h

/-- Induction along a run from its start: `P` may look at the inputs delivered and the outputs made
so far. -/
theorem run_history_induction {P : List ι → σ → List ο → Prop} {s₀ : σ} (start : P [] s₀ [])
    (step : ∀ done s os i s' o, run f s₀ done = .ok (s, os) → P done s os → f s i = .ok (s', o) →
      P (done ++ [i]) s' (os ++ [o]))
    (h : run f s₀ is = .ok (s', os)) : P is s' os := by
  suffices aux : ∀ (is done : List ι) (s : σ) (os os' : List ο), run f s₀ done = .ok (s, os) →
      P done s os → run f s is = .ok (s', os') → P (done ++ is) s' (os ++ os') from
    aux is [] s₀ [] os rfl start h
  intro is
  induction is with
  | nil =>
    intro done s os os' _ hP h
    obtain ⟨rfl, rfl⟩ := run_nil_eq_ok_iff.mp h
    rwa [List.append_nil, List.append_nil]
  | cons i is ih =>
    intro done s os _ hdone hP h
    obtain ⟨t, o, os', hf, hrun, rfl⟩ := run_cons_eq_ok_iff.mp h
    have hnext : run f s₀ (done ++ [i]) = .ok (t, os ++ [o]) :=
      run_append_eq_ok_iff.mpr ⟨s, os, [o], hdone, run_singleton_eq_ok_iff.mpr ⟨o, hf, rfl⟩, rfl⟩
    have hlast := ih (done ++ [i]) t _ os' hnext (step done s os i t o hdone hP hf) hrun
    rwa [List.append_assoc, List.append_assoc] at hlast

/-- Induction along a run from its start: `P` may look at the outputs made so far. -/
theorem run_outputs_induction {P : σ → List ο → Prop} (start : P s [])
    (step : ∀ s os i s' o, P s os → f s i = .ok (s', o) → P s' (os ++ [o]))
    (h : run f s is = .ok (s', os)) : P s' os :=
  run_history_induction (P := fun _ => P) start (fun _ s os i s' o _ hP hf => step s os i s' o hP hf) h

/-- As `run_invariant`, where every step of the run also meets `C`. -/
theorem run_invariant_of_eachStep {I : σ → Prop} {C : σ → ι → Prop}
    (step : ∀ s i s' o, I s → C s i → f s i = .ok (s', o) → I s')
    (h : run f s is = .ok (s', os)) (hC : EachStep f C s is) (hs : I s) : I s' := by
  induction is generalizing s os with
  | nil =>
    obtain ⟨rfl, -⟩ := run_nil_eq_ok_iff.mp h
    exact hs
  | cons i is ih =>
    obtain ⟨t, o, os', hf, hrun, -⟩ := run_cons_eq_ok_iff.mp h
    exact ih hrun (hC.2 t o hf) (step s i t o hs hC.1 hf)

/-- As `run_invariant_of_eachStep`, with what every such step outputs. -/
theorem run_outputs_of_eachStep {I : σ → Prop} {G : ο → Prop} {C : σ → ι → Prop}
    (step : ∀ s i s' o, I s → C s i → f s i = .ok (s', o) → I s' ∧ G o)
    (h : run f s is = .ok (s', os)) (hC : EachStep f C s is) (hs : I s) : I s' ∧ ∀ o ∈ os, G o := by
  induction is generalizing s os with
  | nil =>
    obtain ⟨rfl, rfl⟩ := run_nil_eq_ok_iff.mp h
    exact ⟨hs, nofun⟩
  | cons i is ih =>
    obtain ⟨t, o, os, hf, hrun, rfl⟩ := run_cons_eq_ok_iff.mp h
    obtain ⟨ht, ho⟩ := step s i t o hs hC.1 hf
    obtain ⟨hs', hos⟩ := ih hrun (hC.2 t o hf) ht
    exact ⟨hs', List.forall_mem_cons.mpr ⟨ho, hos⟩⟩

/-- A condition on the inputs alone. -/
theorem eachStep_of_forall_mem {C : ι → Prop} (h : ∀ i ∈ is, C i) :
    EachStep f (fun _ i => C i) s is := by
  induction is generalizing s with
  | nil => trivial
  | cons i is ih =>
    exact ⟨h i List.mem_cons_self, fun _ _ _ => ih fun j hj => h j (List.mem_cons_of_mem _ hj)⟩

/-- Where the condition is exactly what keeps an invariant, in runs whose steps meet another condition, it
holds of every step when the invariant holds wherever the run has come to. -/
theorem eachStep_iff_invariant_of_eachStep {I J : σ → Prop} {C D : σ → ι → Prop}
    (step : ∀ s i, I s → J s → D s i → ∃ s' o, f s i = .ok (s', o) ∧ J s' ∧ (I s' ↔ C s i))
    (hI : I s) (hJ : J s) (hD : EachStep f D s is) :
    (∀ front, front <+: is → ∀ s' os, run f s front = .ok (s', os) → I s') ↔ EachStep f C s is := by
  induction is generalizing s with
  | nil =>
    refine iff_of_true (fun front hfront s' os h => ?_) trivial
    obtain rfl := List.prefix_nil.mp hfront
    obtain ⟨rfl, -⟩ := run_nil_eq_ok_iff.mp h
    exact hI
  | cons i is ih =>
    obtain ⟨t, o, hf, hJt, hiff⟩ := step s i hI hJ hD.1
    constructor
    · intro h
      have ht : I t := h [i] (List.prefix_append [i] is) t [o]
        (run_singleton_eq_ok_iff.mpr ⟨o, hf, rfl⟩)
      refine ⟨hiff.mp ht, fun t' o' hf' => ?_⟩
      cases hf.symm.trans hf'
      refine (ih ht hJt (hD.2 t o hf)).mp fun front hfront s' os hrun => ?_
      exact h (i :: front) ((List.prefix_cons_inj i).mpr hfront) s' (o :: os)
        (run_cons_eq_ok_iff.mpr ⟨t, o, os, hf, hrun, rfl⟩)
    · rintro ⟨hC, hrest⟩ front hfront s' os hrun
      rcases List.prefix_cons_iff.mp hfront with rfl | ⟨front, rfl, htail⟩
      · obtain ⟨rfl, -⟩ := run_nil_eq_ok_iff.mp hrun
        exact hI
      · obtain ⟨t', o', os', hf', hrun, -⟩ := run_cons_eq_ok_iff.mp hrun
        cases hf.symm.trans hf'
        exact (ih (hiff.mpr hC) hJt (hD.2 t o hf)).mpr (hrest t o hf) front htail s' os' hrun

/-- As `eachStep_iff_invariant_of_eachStep`, of any run. -/
theorem eachStep_iff_invariant {I : σ → Prop} {C : σ → ι → Prop}
    (step : ∀ s i, I s → ∃ s' o, f s i = .ok (s', o) ∧ (I s' ↔ C s i)) (hs : I s) :
    (∀ front, front <+: is → ∀ s' os, run f s front = .ok (s', os) → I s') ↔ EachStep f C s is := by
  refine eachStep_iff_invariant_of_eachStep (J := fun _ => True) (D := fun _ _ => True)
    (fun s i hI _ _ => ?_) hs trivial
    (eachStep_of_forall_mem fun _ _ => trivial)
  obtain ⟨s', o, hf, hiff⟩ := step s i hI
  exact ⟨s', o, hf, trivial, hiff⟩

/-- Where the condition is exactly what makes a step's output good, it holds of every step when all
outputs of the run are good. -/
theorem eachStep_iff_outputs {I : σ → Prop} {G : ο → Prop} {C : σ → ι → Prop}
    (step : ∀ s i, I s → ∃ s' o, f s i = .ok (s', o) ∧ I s' ∧ (G o ↔ C s i)) (hs : I s) :
    (∀ s' os, run f s is = .ok (s', os) → ∀ o ∈ os, G o) ↔ EachStep f C s is := by
  induction is generalizing s with
  | nil =>
    refine iff_of_true (fun s' os h => ?_) trivial
    obtain ⟨-, rfl⟩ := run_nil_eq_ok_iff.mp h
    exact fun o ho => nomatch ho
  | cons i is ih =>
    obtain ⟨t, o, hf, ht, hiff⟩ := step s i hs
    obtain ⟨s', os, hrun, -⟩ := run_total
      (fun s i hs => (step s i hs).imp fun s' h => h.imp fun o h => ⟨h.1, h.2.1⟩) ht is
    have hcons := run_cons_eq_ok_iff.mpr ⟨t, o, os, hf, hrun, rfl⟩
    constructor
    · intro h
      refine ⟨hiff.mp (h s' (o :: os) hcons o List.mem_cons_self), fun t' o' hf' => ?_⟩
      cases hf.symm.trans hf'
      refine (ih ht).mp fun s'' os' hrun' o' ho' => ?_
      exact h s'' (o :: os') (run_cons_eq_ok_iff.mpr ⟨t, o, os', hf, hrun', rfl⟩) o'
        (List.mem_cons_of_mem _ ho')
    · rintro ⟨hC, hrest⟩ s'' os' hrun' o' ho'
      obtain ⟨t', p, os'', hf', hrun'', rfl⟩ := run_cons_eq_ok_iff.mp hrun'
      cases hf.symm.trans hf'
      rcases List.mem_cons.mp ho' with rfl | ho'
      · exact hiff.mpr hC
      · exact (ih ht).mpr (hrest t o hf) s'' os'' hrun'' o' ho'

/-- A condition on every step is one on the first steps. -/
theorem EachStep.of_append {C : σ → ι → Prop} (h : EachStep f C s (is ++ js)) : EachStep f C s is := by
  induction is generalizing s with
  | nil => trivial
  | cons i is ih => exact ⟨h.1, fun s' o hf => ih (h.2 s' o hf)⟩

/-- A condition on the inputs before each step, its state and its input, and on one more step. -/
theorem history_concat_iff {C : List ι → σ → ι → Prop} {i : ι} (h : run f s is = .ok (s', os)) :
    (∀ done j rest t os', is ++ [i] = done ++ j :: rest → run f s done = .ok (t, os') → C done t j) ↔
      (∀ done j rest t os', is = done ++ j :: rest → run f s done = .ok (t, os') → C done t j) ∧
        C is s' i := by
  constructor
  · intro hall
    refine ⟨fun done j rest t os' heq hrun => ?_, hall is i [] s' os rfl h⟩
    exact hall done j (rest ++ [i]) t os' (by rw [heq, List.append_assoc, List.cons_append]) hrun
  · rintro ⟨hall, hlast⟩ done j rest t os' heq hrun
    rcases List.eq_nil_or_concat rest with rfl | ⟨front, last, rfl⟩
    · obtain ⟨rfl, hsingle⟩ := List.append_inj' heq rfl
      cases hsingle
      cases h.symm.trans hrun
      exact hlast
    · rw [List.concat_eq_append, ← List.cons_append, ← List.append_assoc] at heq
      obtain ⟨hfront, -⟩ := List.append_inj' heq rfl
      exact hall done j front t os' hfront hrun

/-- The condition on a step that is known, and on the rest. -/
theorem EachStep.cons {C : σ → ι → Prop} {t : σ} {o : ο} (h : C s i) (hf : f s i = .ok (t, o))
    (hrest : EachStep f C t is) : EachStep f C s (i :: is) := by
  refine ⟨h, fun t' o' hf' => ?_⟩
  cases hf.symm.trans hf'
  exact hrest

/-- The condition on one more step. -/
theorem eachStep_concat_iff {C : σ → ι → Prop} {i : ι} (h : run f s is = .ok (s', os)) :
    EachStep f C s (is ++ [i]) ↔ EachStep f C s is ∧ C s' i := by
  induction is generalizing s os with
  | nil =>
    obtain ⟨rfl, -⟩ := run_nil_eq_ok_iff.mp h
    exact ⟨fun hC => ⟨trivial, hC.1⟩, fun hC => ⟨hC.2, fun _ _ _ => trivial⟩⟩
  | cons j is ih =>
    obtain ⟨t, o, os, hf, hrun, -⟩ := run_cons_eq_ok_iff.mp h
    constructor
    · rintro ⟨hC, hrest⟩
      obtain ⟨hrest, hlast⟩ := (ih hrun).mp (hrest t o hf)
      refine ⟨⟨hC, fun t' o' hf' => ?_⟩, hlast⟩
      cases hf.symm.trans hf'
      exact hrest
    · rintro ⟨⟨hC, hrest⟩, hlast⟩
      refine ⟨hC, fun t' o' hf' => ?_⟩
      cases hf.symm.trans hf'
      exact (ih hrun).mpr ⟨hrest t o hf, hlast⟩

/-- As `run_outputs_induction`, where every step of the run also meets `C`. -/
theorem run_outputs_induction_of_eachStep {P : σ → List ο → Prop} {C : σ → ι → Prop} (start : P s [])
    (step : ∀ s os i s' o, P s os → C s i → f s i = .ok (s', o) → P s' (os ++ [o]))
    (h : run f s is = .ok (s', os)) (hC : EachStep f C s is) : P s' os := by
  refine run_history_induction (P := fun done s' os => EachStep f C s done → P s' os) (fun _ => start)
    (fun done t os i t' o hrun hP hf hdone => ?_) h hC
  obtain ⟨hbefore, hi⟩ := (eachStep_concat_iff hrun).mp hdone
  exact step t os i t' o (hP hbefore) hi hf

/-- A condition on every step, from the inputs delivered before it. -/
theorem eachStep_of_history {C : σ → ι → Prop}
    (h : ∀ done i rest t os, is = done ++ i :: rest → run f s done = .ok (t, os) → C t i) :
    EachStep f C s is := by
  induction is generalizing s with
  | nil => trivial
  | cons i is ih =>
    refine ⟨h [] i is s [] rfl rfl, fun t o hf => ih fun done j rest t' os heq hrun => ?_⟩
    refine h (i :: done) j rest t' (o :: os) (by rw [heq]; rfl) ?_
    exact run_cons_eq_ok_iff.mpr ⟨t, o, os, hf, hrun, rfl⟩

theorem EachStep.and {C D : σ → ι → Prop} (hC : EachStep f C s is) (hD : EachStep f D s is) :
    EachStep f (fun s i => C s i ∧ D s i) s is := by
  induction is generalizing s with
  | nil => trivial
  | cons i is ih => exact ⟨⟨hC.1, hD.1⟩, fun t o hf => ih (hC.2 t o hf) (hD.2 t o hf)⟩

/-- One machine follows another, output for output, once it follows it step by step. -/
theorem run_simulation {g : τ → ι → Except ε (τ × ο)} {R : σ → τ → Prop}
    (step : ∀ s t i s' o, R s t → f s i = .ok (s', o) → ∃ t', g t i = .ok (t', o) ∧ R s' t')
    {t : τ} (hR : R s t) (h : run f s is = .ok (s', os)) :
    ∃ t', run g t is = .ok (t', os) ∧ R s' t' := by
  induction is generalizing s t os with
  | nil =>
    obtain ⟨rfl, rfl⟩ := run_nil_eq_ok_iff.mp h
    exact ⟨t, rfl, hR⟩
  | cons i is ih =>
    obtain ⟨s₁, o, os', hf, hrun, rfl⟩ := run_cons_eq_ok_iff.mp h
    obtain ⟨t₁, hg, hR₁⟩ := step s t i s₁ o hR hf
    obtain ⟨t', hrun', hR'⟩ := ih hR₁ hrun
    exact ⟨t', run_cons_eq_ok_iff.mpr ⟨t₁, o, os', hg, hrun', rfl⟩, hR'⟩

/-- What holds before each occurrence in a list, and in a longer one. -/
theorem before_append_iff {α : Type v} {a : α} {P : List α → Prop} {first second : List α} :
    (∀ before after, first ++ second = before ++ a :: after → P before) ↔
      (∀ before after, first = before ++ a :: after → P before) ∧
        ∀ before after, second = before ++ a :: after → P (first ++ before) := by
  constructor
  · intro hall
    refine ⟨fun before after heq => ?_, fun before after heq => ?_⟩
    · exact hall before (after ++ second) (by rw [heq, List.append_assoc, List.cons_append])
    · exact hall (first ++ before) after (by rw [heq, List.append_assoc])
  · rintro ⟨hfirst, hsecond⟩ before after heq
    rcases List.append_eq_append_iff.mp heq with ⟨rest, rfl, hrest⟩ | ⟨rest, rfl, hrest⟩
    · exact hsecond rest after hrest
    · cases rest with
      | nil =>
        have hlast := hsecond [] after hrest.symm
        rwa [List.append_nil, List.append_nil] at hlast
      | cons b rest =>
        obtain ⟨rfl, -⟩ := List.cons_eq_cons.mp hrest
        exact hfirst before rest rfl

theorem before_cons_iff {α : Type v} {a b : α} {P : List α → Prop} {rest : List α} :
    (∀ before after, b :: rest = before ++ a :: after → P before) ↔
      (b = a → P []) ∧ ∀ before after, rest = before ++ a :: after → P (b :: before) := by
  constructor
  · intro hall
    refine ⟨fun heq => hall [] rest (by rw [heq, List.nil_append]), fun before after heq => ?_⟩
    exact hall (b :: before) after (by rw [heq, List.cons_append])
  · rintro ⟨hfirst, hrest⟩ before after heq
    cases before with
    | nil => exact hfirst (List.cons_eq_cons.mp heq).1
    | cons c before =>
      obtain ⟨rfl, hlater⟩ := List.cons_eq_cons.mp heq
      exact hrest before after hlater

/-- Of a machine that cannot fail: where the condition is exactly what keeps an invariant, it holds of every
step when the invariant holds wherever the run has come to. -/
theorem foldl_invariant_iff {g : σ → ι → σ} {I : σ → Prop} {C : σ → ι → Prop}
    (step : ∀ s i, I s → (I (g s i) ↔ C s i)) (hs : I s) :
    (∀ front, front <+: is → I (front.foldl g s)) ↔
      ∀ i before later, is = before ++ i :: later → C (before.foldl g s) i := by
  induction is generalizing s with
  | nil =>
    refine iff_of_true (fun front hfront => ?_) fun i before later h => ?_
    · obtain rfl := List.prefix_nil.mp hfront
      exact hs
    · cases (List.append_eq_nil_iff.mp h.symm).2
  | cons j is ih =>
    have hsplit (i : ι) := @before_cons_iff ι i j (fun before => C (before.foldl g s) i) is
    constructor
    · intro hall i
      have hnext : I (g s j) := hall [j] (List.prefix_append [j] is)
      refine (hsplit i).mpr ⟨?_, ?_⟩
      · rintro rfl
        exact (step s j hs).mp hnext
      · refine (ih hnext).mp (fun front hfront => ?_) i
        exact hall (j :: front) ((List.prefix_cons_inj j).mpr hfront)
    · intro hall front hfront
      have hnext : I (g s j) := (step s j hs).mpr (((hsplit j).mp (hall j)).1 rfl)
      rcases List.prefix_cons_iff.mp hfront with rfl | ⟨front, rfl, htail⟩
      · exact hs
      · exact (ih hnext).mpr (fun i => ((hsplit i).mp (hall i)).2) front htail

end
