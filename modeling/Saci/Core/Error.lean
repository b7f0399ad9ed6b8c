import Mathlib.Data.List.Forall2

/-!
# Errors

The one error type of the engine (`saci-core/src/error.rs`).
-/

namespace Saci

/-- A failure of the engine. -/
inductive SaciError
  | systemExecution (message : String)
  | componentNotFound (entityId : UInt32) (typeName : String)
  | entityNotFound (id : UInt32)
  | resourceNotFound (name : String)
  | store (message : String)
  | scheduler (message : String)
  | configuration (message : String)
  /-- Every retry failed: the error of the last attempt, and how many there were. -/
  | retryExhausted (source : SaciError) (attempts : Nat)
  | generic (message : String)
  | distributed (message : String)
  | leaseExpired (batchId : UInt64)
  deriving DecidableEq

abbrev SaciResult (α : Type) := Except SaciError α

namespace SaciError

/-- `Display`. -/
def display : SaciError → String
  | .systemExecution message => s!"System execution error: {message}"
  | .componentNotFound entityId typeName =>
    s!"Component not found: entity {entityId} missing {typeName}"
  | .entityNotFound id => s!"Entity not found: {id}"
  | .resourceNotFound name => s!"Resource not found: {name}"
  | .store message => s!"Store error: {message}"
  | .scheduler message => s!"Scheduler error: {message}"
  | .configuration message => s!"Configuration error: {message}"
  | .retryExhausted source attempts =>
    s!"Retry exhausted after {attempts} attempt(s): {source.display}"
  | .generic message => s!"Error: {message}"
  | .distributed message => s!"Distributed error: {message}"
  | .leaseExpired batchId => s!"Lease expired for batch {batchId}"

instance : ToString SaciError := ⟨display⟩

/-- The error's own text, without its category. -/
def message : SaciError → String
  | .systemExecution message => message
  | .componentNotFound _ typeName => typeName
  | .entityNotFound id => s!"{id}"
  | .resourceNotFound name => name
  | .store message => message
  | .scheduler message => message
  | .configuration message => message
  | .retryExhausted source attempts => s!"after {attempts} attempt(s): {source}"
  | .generic message => message
  | .distributed message => message
  | .leaseExpired batchId => s!"lease expired for batch {batchId}"

end SaciError

theorem ok_bind {ε α β : Type} (a : α) (f : α → Except ε β) : Except.ok a >>= f = f a := rfl

theorem error_bind {ε α β : Type} (e : ε) (f : α → Except ε β) :
    Except.error e >>= f = .error e := rfl

/-- A sequence of two fallible steps succeeds when both do. -/
theorem bind_eq_ok_iff {ε α β : Type} {x : Except ε α} {f : α → Except ε β} {b : β} :
    x >>= f = .ok b ↔ ∃ a, x = .ok a ∧ f a = .ok b := by
  cases x with
  | error e => exact ⟨fun h => (nomatch h), fun ⟨_, h, _⟩ => (nomatch h)⟩
  | ok a =>
    refine ⟨fun h => ⟨a, rfl, h⟩, ?_⟩
    intro ⟨_, rfl, h⟩
    exact h

/-- A loop of checks passes when every check does. -/
theorem forM_eq_ok_iff {ε α : Type} {f : α → Except ε Unit} {l : List α} :
    l.forM f = .ok () ↔ ∀ a ∈ l, f a = .ok () := by
  induction l with
  | nil => exact iff_of_true rfl fun _ h => nomatch h
  | cons a l ih =>
    have hcons : (a :: l).forM f = (f a >>= fun _ => l.forM f) := rfl
    rw [hcons, bind_eq_ok_iff, List.forall_mem_cons, ← ih]
    exact ⟨fun ⟨_, ha, hl⟩ => ⟨ha, hl⟩, fun ⟨ha, hl⟩ => ⟨(), ha, hl⟩⟩

/-- What a list of fallible steps collects, element by element. -/
theorem forall₂_of_mapM_eq_ok {ε α β : Type} {f : α → Except ε β} {l : List α} {l' : List β}
    (h : l.mapM f = .ok l') : List.Forall₂ (fun a b => f a = .ok b) l l' := by
  induction l generalizing l' with
  | nil => cases h; exact .nil
  | cons a l ih =>
    rw [List.mapM_cons] at h
    obtain ⟨b, hb, h⟩ := bind_eq_ok_iff.mp h
    obtain ⟨l'', hl, h⟩ := bind_eq_ok_iff.mp h
    cases h
    exact .cons hb (ih hl)

theorem mem_of_mapM_eq_ok {ε α β : Type} {f : α → Except ε β} {l : List α} {l' : List β}
    (h : l.mapM f = .ok l') :
    (∀ a ∈ l, ∃ b ∈ l', f a = .ok b) ∧ ∀ b ∈ l', ∃ a ∈ l, f a = .ok b := by
  have hall := forall₂_of_mapM_eq_ok h
  clear h
  induction hall with
  | nil => exact ⟨fun _ h => (nomatch h), fun _ h => (nomatch h)⟩
  | @cons a b l l' hab _ ih =>
    refine ⟨List.forall_mem_cons.mpr ⟨⟨b, List.mem_cons_self, hab⟩, fun x hx => ?_⟩,
      List.forall_mem_cons.mpr ⟨⟨a, List.mem_cons_self, hab⟩, fun y hy => ?_⟩⟩
    · obtain ⟨y, hy, hxy⟩ := ih.1 x hx
      exact ⟨y, List.mem_cons_of_mem _ hy, hxy⟩
    · obtain ⟨x, hx, hxy⟩ := ih.2 y hy
      exact ⟨x, List.mem_cons_of_mem _ hx, hxy⟩

theorem getElem?_of_forall₂ {α β : Type} {R : α → β → Prop} {l : List α} {l' : List β} {i : Nat}
    {a : α} (h : List.Forall₂ R l l') (ha : l[i]? = some a) : ∃ b, l'[i]? = some b ∧ R a b := by
  obtain ⟨hi, rfl⟩ := List.getElem?_eq_some_iff.mp ha
  have hi' : i < l'.length := h.length_eq ▸ hi
  exact ⟨l'[i], List.getElem?_eq_getElem hi', h.get hi hi'⟩

theorem mapM_eq_ok_of_forall₂ {ε α β : Type} {f : α → Except ε β} {l : List α} {l' : List β}
    (h : List.Forall₂ (fun a b => f a = .ok b) l l') : l.mapM f = .ok l' := by
  induction h with
  | nil => rfl
  | cons hab _ ih =>
    rw [List.mapM_cons, hab, ok_bind, ih]
    rfl

/-- A list of which nothing is filtered out keeps its places. -/
theorem getElem?_filterMap {α β : Type} {f : α → Option β} {l : List α}
    (h : ∀ a ∈ l, ∃ b, f a = some b) (i : Nat) : (l.filterMap f)[i]? = l[i]?.bind f := by
  induction l generalizing i with
  | nil => rfl
  | cons a l ih =>
    obtain ⟨⟨b, hb⟩, hrest⟩ := List.forall_mem_cons.mp h
    rw [List.filterMap_cons_some hb]
    cases i with
    | zero => exact hb.symm
    | succ i => exact ih hrest i

theorem exists_forall₂ {α β : Type} {R : α → β → Prop} {l : List α} (h : ∀ a ∈ l, ∃ b, R a b) :
    ∃ l', List.Forall₂ R l l' := by
  induction l with
  | nil => exact ⟨[], .nil⟩
  | cons a l ih =>
    obtain ⟨⟨b, hab⟩, hl⟩ := List.forall_mem_cons.mp h
    obtain ⟨l', hl'⟩ := ih hl
    exact ⟨b :: l', .cons hab hl'⟩

end Saci
