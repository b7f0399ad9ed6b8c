import Mathlib.Data.List.Basic

/-!
# Computations that may trap

A computation returns, is refused with an error, or traps, and keeps what it touched on the way.
`Sound A x P` says that `x` does not trap, that `A` holds of all that it touches, and that `P` holds
of what it returns. There is one rule for each way to make a computation; a proof about a program
follows the program and applies them.
-/

universe u

/-- Why a computation stopped. -/
inductive Fault (ε : Type u)
  | trap
  | refused (e : ε)
  deriving DecidableEq

structure Traced (ι ε α : Type) where
  touched : List ι
  result : Except (Fault ε) α

namespace Traced
variable {ι κ ε α β : Type}

def bind (x : Traced ι ε α) (f : α → Traced ι ε β) : Traced ι ε β :=
  match x.result with
  | .ok a => ⟨x.touched ++ (f a).touched, (f a).result⟩
  | .error e => ⟨x.touched, .error e⟩

instance : Monad (Traced ι ε) where
  pure a := ⟨[], .ok a⟩
  bind := bind

def trap : Traced ι ε α := ⟨[], .error .trap⟩

def refuse (e : ε) : Traced ι ε α := ⟨[], .error (.refused e)⟩

/-- A check that refuses. -/
def refuseIf (c : Prop) [Decidable c] (e : ε) : Traced ι ε Unit := if c then refuse e else pure ()

/-- An error is reported with what it is about. -/
def mapError (f : ε → ε) (x : Traced ι ε α) : Traced ι ε α :=
  ⟨x.touched,
    match x.result with
    | .error (.refused e) => .error (.refused (f e))
    | result => result⟩

/-- What is touched is part of something. -/
def relabel (f : ι → κ) (x : Traced ι ε α) : Traced κ ε α := ⟨x.touched.map f, x.result⟩

/-- `f` on one element after the other, until one is refused. -/
def forEach (f : α → Traced ι ε β) : List α → Traced ι ε (List β)
  | [] => pure []
  | a :: as => do
    let b ← f a
    let bs ← forEach f as
    return b :: bs

/-! ## What a computation returns -/

section
variable {x : Traced ι ε α} {f : α → Traced ι ε β} {a : α} {b : β} {e : ε} {c : Prop} [Decidable c]

@[simp] theorem result_pure : (pure a : Traced ι ε α).result = .ok a := rfl

@[simp] theorem result_refuse : (refuse e : Traced ι ε α).result = .error (.refused e) := rfl

theorem result_bind : (x >>= f).result = x.result.bind fun a => (f a).result := by
  change (Traced.bind x f).result = _
  unfold Traced.bind
  cases x.result <;> rfl

theorem result_bind_of_ok (h : x.result = .ok a) : (x >>= f).result = (f a).result := by
  rw [result_bind, h]
  rfl

theorem result_bind_of_error {fault : Fault ε} (h : x.result = .error fault) :
    (x >>= f).result = .error fault := by
  rw [result_bind, h]
  rfl

@[simp] theorem result_refuseIf_eq_ok_iff :
    (refuseIf c e : Traced ι ε Unit).result = .ok () ↔ ¬c := by
  unfold refuseIf
  split_ifs with h <;> simp [h]

theorem result_refuseIf_of_pos (hc : c) :
    (refuseIf c e : Traced ι ε Unit).result = .error (.refused e) := by
  unfold refuseIf
  rw [if_pos hc]
  rfl

@[simp] theorem result_mapError_eq_ok_iff {g : ε → ε} :
    (x.mapError g).result = .ok a ↔ x.result = .ok a := by
  unfold mapError
  split
  · next h => simp [h]
  · rfl

theorem result_mapError_of_trap {g : ε → ε} (h : x.result = .error .trap) :
    (x.mapError g).result = .error .trap := by
  unfold mapError
  simp [h]

/-- One element that traps, after others that are accepted. -/
theorem result_forEach_of_trap {before after : List α} {a : α}
    (hbefore : ∀ b ∈ before, ∃ r, (f b).result = .ok r) (ha : (f a).result = .error .trap) :
    (forEach f (before ++ a :: after)).result = .error .trap := by
  induction before with
  | nil => exact result_bind_of_error ha
  | cons b before ih =>
    obtain ⟨⟨r, hr⟩, hrest⟩ := List.forall_mem_cons.mp hbefore
    rw [List.cons_append, forEach, result_bind_of_ok hr]
    exact result_bind_of_error (ih hrest)

end

/-! ## Soundness -/

section
variable {A B : ι → Prop} {x : Traced ι ε α} {f : α → Traced ι ε β} {P Q : α → Prop} {R : β → Prop}

/-- `x` does not trap, touches only what meets `A`, and returns only what meets `P`. -/
structure Sound (A : ι → Prop) (x : Traced ι ε α) (P : α → Prop) : Prop where
  touched : ∀ i ∈ x.touched, A i
  runs : x.result ≠ .error .trap
  returns : ∀ a, x.result = .ok a → P a

namespace Sound

theorem ret {a : α} (h : P a) : Sound A (pure a : Traced ι ε α) P where
  touched := nofun
  runs := nofun
  returns _ ha := by
    cases ha
    exact h

theorem refuse (e : ε) : Sound A (Traced.refuse e : Traced ι ε α) P where
  touched := nofun
  runs := nofun
  returns := nofun

theorem refuseIf {c : Prop} [Decidable c] (e : ε) :
    Sound A (Traced.refuseIf c e : Traced ι ε Unit) fun _ => ¬c := by
  unfold Traced.refuseIf
  split_ifs with hc
  · exact refuse e
  · exact ret hc

theorem bind (hx : Sound A x P) (hf : ∀ a, P a → Sound A (f a) R) : Sound A (x >>= f) R := by
  change Sound A (Traced.bind x f) R
  unfold Traced.bind
  cases hresult : x.result with
  | ok a =>
    have hfa := hf a (hx.returns a hresult)
    refine ⟨fun i hi => ?_, hfa.runs, hfa.returns⟩
    rcases List.mem_append.mp hi with hi | hi
    · exact hx.touched i hi
    · exact hfa.touched i hi
  | error fault =>
    refine ⟨hx.touched, fun htrap => hx.runs ?_, nofun⟩
    cases htrap
    exact hresult

theorem mono (h : Sound A x P) (hPQ : ∀ a, P a → Q a) : Sound A x Q where
  touched := h.touched
  runs := h.runs
  returns a ha := hPQ a (h.returns a ha)

/-- What is returned meets the postcondition, and is what the computation returns. -/
theorem self (h : Sound A x P) : Sound A x fun a => P a ∧ x.result = .ok a where
  touched := h.touched
  runs := h.runs
  returns a ha := ⟨h.returns a ha, ha⟩

theorem mapError {g : ε → ε} (h : Sound A x P) : Sound A (x.mapError g) P where
  touched := h.touched
  runs htrap := by
    unfold Traced.mapError at htrap
    dsimp only at htrap
    split at htrap
    · cases htrap
    · exact h.runs htrap
  returns a ha := h.returns a (result_mapError_eq_ok_iff.mp ha)

theorem relabel {g : ι → κ} {C : κ → Prop} (h : Sound A x P) (hC : ∀ i, A i → C (g i)) :
    Sound C (x.relabel g) P where
  touched i hi := by
    obtain ⟨j, hj, rfl⟩ := List.mem_map.mp hi
    exact hC j (h.touched j hj)
  runs := h.runs
  returns := h.returns

/-- What is known of an element may use that all elements before it were accepted. -/
theorem forEach_of_before {as : List α}
    (h : ∀ before a after, as = before ++ a :: after →
      (∀ b ∈ before, ∃ r, (f b).result = .ok r) → Sound A (f a) R) :
    Sound A (Traced.forEach f as) fun bs => ∀ b ∈ bs, R b := by
  induction as with
  | nil => exact ret nofun
  | cons a as ih =>
    refine (h [] a as rfl nofun).self.bind fun b ⟨hb, hresult⟩ => ?_
    refine (ih fun before a' after heq hbefore => ?_).bind fun bs hbs => ?_
    · refine h (a :: before) a' after (by rw [heq, List.cons_append]) ?_
      exact List.forall_mem_cons.mpr ⟨⟨b, hresult⟩, hbefore⟩
    · exact ret (List.forall_mem_cons.mpr ⟨hb, hbs⟩)

theorem forEach {as : List α} (h : ∀ a ∈ as, Sound A (f a) R) :
    Sound A (Traced.forEach f as) fun bs => ∀ b ∈ bs, R b :=
  forEach_of_before fun before a after heq _ => h a (by simp [heq])

end Sound
end
end Traced
