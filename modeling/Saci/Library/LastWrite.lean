import Mathlib

/-!
# Last-writer-wins cells

A cell that keeps the value with the largest stamp it has been given, where a write without a value
deletes it. The cell forgets the stamp of a deletion, so it is a join only of the writes it still
holds: an older value that arrives after a deletion stays. `fold_eq_none_iff` says exactly when a
log of writes leaves a cell empty, and `fold_eq_newest` that a newest write with a value always
wins.
-/

universe u v

namespace LastWrite

/-- A write: its stamp, and the value or a deletion. -/
structure Write (ω : Type u) (ν : Type v) where
  stamp : ω
  value : Option ν

/-- What a cell holds. -/
structure Held (ω : Type u) (ν : Type v) where
  stamp : ω
  value : ν

variable {ω : Type u} {ν : Type v} [LinearOrder ω]

/-- Give a cell one write; it applies when the cell holds no larger stamp. -/
def apply (held : Option (Held ω ν)) (write : Write ω ν) : Option (Held ω ν) :=
  match write.value, held with
  | some value, some current =>
    if current.stamp ≤ write.stamp then some ⟨write.stamp, value⟩ else some current
  | some value, none => some ⟨write.stamp, value⟩
  | none, some current => if current.stamp ≤ write.stamp then none else some current
  | none, none => none

/-- Give a cell a log of writes. -/
def fold (held : Option (Held ω ν)) (log : List (Write ω ν)) : Option (Held ω ν) :=
  log.foldl apply held

@[simp] theorem fold_nil (held : Option (Held ω ν)) : fold held [] = held := rfl

@[simp] theorem fold_cons (held : Option (Held ω ν)) (write : Write ω ν) (log : List (Write ω ν)) :
    fold held (write :: log) = fold (apply held write) log := rfl

theorem fold_append (held : Option (Held ω ν)) (log later : List (Write ω ν)) :
    fold held (log ++ later) = fold (fold held log) later := List.foldl_append

/-! ## Deletions -/

/-- The log deletes what has a stamp: a deletion in it has that stamp or a larger one. -/
def Deletes (log : List (Write ω ν)) (stamp : ω) : Prop :=
  ∃ write ∈ log, write.value = none ∧ stamp ≤ write.stamp

theorem Deletes.cons {log : List (Write ω ν)} {stamp : ω} (h : Deletes log stamp)
    (write : Write ω ν) : Deletes (write :: log) stamp := by
  obtain ⟨deletion, hmem, hnone, hle⟩ := h
  exact ⟨deletion, List.mem_cons_of_mem _ hmem, hnone, hle⟩

theorem Deletes.of_le {log : List (Write ω ν)} {stamp stamp' : ω} (h : Deletes log stamp)
    (hle : stamp' ≤ stamp) : Deletes log stamp' := by
  obtain ⟨deletion, hmem, hnone, hstamp⟩ := h
  exact ⟨deletion, hmem, hnone, hle.trans hstamp⟩

theorem deletes_cons_value {write : Write ω ν} {value : ν} (hvalue : write.value = some value)
    {log : List (Write ω ν)} {stamp : ω} : Deletes (write :: log) stamp ↔ Deletes log stamp := by
  refine ⟨fun ⟨deletion, hmem, hnone, hle⟩ => ?_, fun h => h.cons write⟩
  rcases List.mem_cons.mp hmem with rfl | hmem
  · rw [hvalue] at hnone
    cases hnone
  · exact ⟨deletion, hmem, hnone, hle⟩

theorem deletes_cons_deletion {write : Write ω ν} (hnone : write.value = none)
    {log : List (Write ω ν)} {stamp : ω} :
    Deletes (write :: log) stamp ↔ stamp ≤ write.stamp ∨ Deletes log stamp := by
  constructor
  · rintro ⟨deletion, hmem, hvalue, hle⟩
    rcases List.mem_cons.mp hmem with rfl | hmem
    · exact .inl hle
    · exact .inr ⟨deletion, hmem, hvalue, hle⟩
  · rintro (hle | h)
    · exact ⟨write, List.mem_cons_self, hnone, hle⟩
    · exact h.cons write

/-- Each write with a value is deleted by what comes after it. -/
def Emptied : List (Write ω ν) → Prop
  | [] => True
  | write :: log => (write.value ≠ none → Deletes log write.stamp) ∧ Emptied log

/-- A log leaves a cell empty exactly when it deletes what the cell held and each value it brings.
The induction is on the log: a value that replaces the held one has the larger stamp, so whatever
deletes it would have deleted the other. -/
theorem fold_eq_none_iff (held : Option (Held ω ν)) (log : List (Write ω ν)) :
    fold held log = none ↔ Emptied log ∧ ∀ current, held = some current →
      Deletes log current.stamp := by
  induction log generalizing held with
  | nil =>
    cases held with
    | none => simp [Emptied]
    | some current => simp [Emptied, Deletes]
  | cons write log ih =>
    rw [fold_cons, ih, Emptied]
    cases hvalue : write.value with
    | some value =>
      cases held with
      | none => simp [apply, hvalue, and_comm]
      | some current =>
        by_cases hle : current.stamp ≤ write.stamp
        · simp only [apply, hvalue, if_pos hle, Option.some.injEq, forall_eq', deletes_cons_value hvalue,
            ne_eq, reduceCtorEq, not_false_eq_true, forall_const]
          exact ⟨fun ⟨htail, hhead⟩ => ⟨⟨hhead, htail⟩, hhead.of_le hle⟩,
            fun ⟨⟨hhead, htail⟩, _⟩ => ⟨htail, hhead⟩⟩
        · simp only [apply, hvalue, if_neg hle, Option.some.injEq, forall_eq', deletes_cons_value hvalue,
            ne_eq, reduceCtorEq, not_false_eq_true, forall_const]
          exact ⟨fun ⟨htail, hcurrent⟩ => ⟨⟨hcurrent.of_le (not_le.mp hle).le, htail⟩, hcurrent⟩,
            fun ⟨⟨_, htail⟩, hcurrent⟩ => ⟨htail, hcurrent⟩⟩
    | none =>
      cases held with
      | none => simp [apply, hvalue]
      | some current =>
        by_cases hle : current.stamp ≤ write.stamp
        · simp [apply, hvalue, hle, deletes_cons_deletion hvalue]
        · simp [apply, hvalue, hle, deletes_cons_deletion hvalue]

/-! ## The newest write -/

/-- No stamp in the cell is larger than the bound. -/
def Below (bound : ω) (held : Option (Held ω ν)) : Prop :=
  ∀ current, held = some current → current.stamp ≤ bound

theorem below_apply {bound : ω} {held : Option (Held ω ν)} {write : Write ω ν}
    (hheld : Below bound held) (hwrite : write.stamp ≤ bound) : Below bound (apply held write) := by
  unfold apply
  split
  · next value current _ =>
    split_ifs with hle
    · rintro _ ⟨⟩
      exact hwrite
    · exact hheld
  · rintro _ ⟨⟩
    exact hwrite
  · split_ifs
    · exact nofun
    · exact hheld
  · exact nofun

theorem below_fold {bound : ω} {held : Option (Held ω ν)} {log : List (Write ω ν)}
    (hheld : Below bound held) (hlog : ∀ write ∈ log, write.stamp ≤ bound) :
    Below bound (fold held log) := by
  induction log generalizing held with
  | nil => exact hheld
  | cons write log ih =>
    refine ih (below_apply hheld (hlog write List.mem_cons_self)) ?_
    exact fun later hmem => hlog later (List.mem_cons_of_mem _ hmem)

/-- Writes with smaller stamps leave the cell as it is. -/
theorem fold_eq_self {current : Held ω ν} {log : List (Write ω ν)}
    (h : ∀ write ∈ log, write.stamp < current.stamp) : fold (some current) log = some current := by
  induction log with
  | nil => rfl
  | cons write log ih =>
    have hlt : ¬current.stamp ≤ write.stamp := not_le.mpr (h write List.mem_cons_self)
    have happly : apply (some current) write = some current := by
      cases hvalue : write.value <;> simp [apply, hvalue, hlt]
    rw [fold_cons, happly]
    exact ih fun later hmem => h later (List.mem_cons_of_mem _ hmem)

/-- A newest write with a value is what the cell holds in the end, wherever it stands in the log. -/
theorem fold_eq_newest {before after : List (Write ω ν)} {write : Write ω ν} {value : ν}
    (hvalue : write.value = some value) (hbefore : ∀ w ∈ before, w.stamp ≤ write.stamp)
    (hafter : ∀ w ∈ after, w.stamp < write.stamp) :
    fold none (before ++ write :: after) = some ⟨write.stamp, value⟩ := by
  have hbelow : Below write.stamp (fold none before) := below_fold nofun hbefore
  have happly : apply (fold none before) write = some ⟨write.stamp, value⟩ := by
    cases hheld : fold none before with
    | none => simp [apply, hvalue]
    | some current => simp [apply, hvalue, hbelow current hheld]
  rw [fold_append, fold_cons, happly]
  exact fold_eq_self hafter

end LastWrite
