import Mathlib.Data.List.Induction

/-!
# Joined fields

Fields one behind the other, with a separator between them. Lists of as many fields, of which only one and
the same may hold the separator, are told apart once they are joined (`join_injective`). Two fields that
may hold it can trade places unseen (`join_swap`).
-/

namespace Joined

variable {α : Type*} {sep : α} {fields fields' : List (List α)}

/-- The fields, with a separator between them. -/
def join (sep : α) (fields : List (List α)) : List α := (fields.intersperse [sep]).flatten

theorem join_cons (field : List α) (fields : List (List α)) :
    join sep (field :: fields) = field ++ fields.flatMap (sep :: ·) := by
  induction fields generalizing field with
  | nil => simp [join]
  | cons next fields ih =>
    have hjoin : join sep (field :: next :: fields) = field ++ sep :: join sep (next :: fields) := rfl
    rw [hjoin, ih, List.flatMap_cons, List.cons_append]

/-- What the fields behind some others are joined to decides what all of them are. -/
theorem join_append_congr {rest rest' : List (List α)} (hne : rest ≠ []) (hne' : rest' ≠ [])
    (h : join sep rest = join sep rest') (front : List (List α)) :
    join sep (front ++ rest) = join sep (front ++ rest') := by
  cases rest with
  | nil => exact absurd rfl hne
  | cons field rest =>
    cases rest' with
    | nil => exact absurd rfl hne'
    | cons field' rest' =>
      rw [join_cons, join_cons] at h
      cases front with
      | nil => rw [List.nil_append, List.nil_append, join_cons, join_cons, h]
      | cons first front =>
        rw [List.cons_append, List.cons_append, join_cons, join_cons]
        simp only [List.flatMap_append, List.flatMap_cons, List.cons_append, h]

/-- No field but that at a position holds the separator. -/
def OnlyAt (sep : α) (j : Nat) (fields : List (List α)) : Prop :=
  ∀ i field, i ≠ j → fields[i]? = some field → sep ∉ field

/-- The first separator is found again. -/
theorem first_injective {front front' back back' : List α} (hfree : sep ∉ front) (hfree' : sep ∉ front')
    (h : front ++ sep :: back = front' ++ sep :: back') : front = front' ∧ back = back' := by
  rcases List.append_eq_append_iff.mp h with ⟨more, rfl, hmore⟩ | ⟨more, rfl, hmore⟩
  all_goals
    cases more with
    | nil => simpa [eq_comm] using hmore
    | cons a more =>
      obtain ⟨rfl, -⟩ := List.cons.inj hmore
      simp at hfree hfree'

/-- Fields without the separator are read back from the end. -/
theorem behind_injective (hlen : fields.length = fields'.length) (hfree : ∀ field ∈ fields, sep ∉ field)
    (hfree' : ∀ field ∈ fields', sep ∉ field) {first first' : List α}
    (h : first ++ fields.flatMap (sep :: ·) = first' ++ fields'.flatMap (sep :: ·)) :
    first = first' ∧ fields = fields' := by
  induction fields using List.reverseRecOn generalizing fields' with
  | nil =>
    obtain rfl := List.length_eq_zero_iff.mp hlen.symm
    simpa using h
  | append_singleton fields last ih =>
    rcases List.eq_nil_or_concat fields' with rfl | ⟨fields', last', rfl⟩
    · simp at hlen
    · rw [List.concat_eq_append] at *
      have hlast : sep ∉ last := hfree last (List.mem_append_right _ List.mem_cons_self)
      have hlast' : sep ∉ last' := hfree' last' (List.mem_append_right _ List.mem_cons_self)
      simp only [List.flatMap_append, List.flatMap_cons, List.flatMap_nil, List.append_nil,
        ← List.append_assoc] at h
      -- from the end, the first separator is the one before the last field
      have hreverse := congrArg List.reverse h
      simp only [List.reverse_append, List.reverse_cons, List.append_assoc, List.singleton_append]
        at hreverse
      obtain ⟨hback, hfront⟩ := first_injective (by rwa [List.mem_reverse]) (by rwa [List.mem_reverse])
        hreverse
      have hfields := ih (by simpa using hlen) (fun f hf => hfree f (List.mem_append_left _ hf))
        (fun f hf => hfree' f (List.mem_append_left _ hf))
        (List.reverse_inj.mp (by rw [List.reverse_append, List.reverse_append]; exact hfront))
      exact ⟨hfields.1, by rw [hfields.2, List.reverse_inj.mp hback]⟩

/-- **Where only one field may hold the separator, the fields are told apart.** -/
theorem join_injective {j : Nat} (hlen : fields.length = fields'.length) (h : OnlyAt sep j fields)
    (h' : OnlyAt sep j fields') (hjoin : join sep fields = join sep fields') : fields = fields' := by
  induction fields generalizing fields' j with
  | nil => exact (List.length_eq_zero_iff.mp hlen.symm).symm
  | cons field fields ih =>
    cases fields' with
    | nil => cases hlen
    | cons field' fields' =>
      have hlen' := Nat.succ.inj hlen
      cases j with
      | zero =>
        rw [join_cons, join_cons] at hjoin
        have hfree : ∀ {l : List (List α)} {first : List α}, OnlyAt sep 0 (first :: l) →
            ∀ f ∈ l, sep ∉ f := by
          intro l first honly f hf
          obtain ⟨i, hi⟩ := List.mem_iff_getElem?.mp hf
          exact honly (i + 1) f (Nat.succ_ne_zero i) hi
        obtain ⟨rfl, rfl⟩ := behind_injective hlen' (hfree h) (hfree h') hjoin
        rfl
      | succ j =>
        have hfield : sep ∉ field := h 0 field (Nat.succ_ne_zero j).symm rfl
        have hfield' : sep ∉ field' := h' 0 field' (Nat.succ_ne_zero j).symm rfl
        have hrest : ∀ {l : List (List α)} {first : List α}, OnlyAt sep (j + 1) (first :: l) →
            OnlyAt sep j l := fun honly i f hi hf => honly (i + 1) f (by omega) hf
        cases fields with
        | nil =>
          obtain rfl := List.length_eq_zero_iff.mp hlen'.symm
          rw [join_cons, join_cons, List.flatMap_nil, List.append_nil, List.append_nil] at hjoin
          rw [hjoin]
        | cons next fields =>
          cases fields' with
          | nil => cases hlen'
          | cons next' fields' =>
            have hcons : ∀ f n (l : List (List α)),
                join sep (f :: n :: l) = f ++ sep :: join sep (n :: l) := fun _ _ _ => rfl
            rw [hcons, hcons] at hjoin
            obtain ⟨rfl, hbehind⟩ := first_injective hfield hfield' hjoin
            rw [ih hlen' (hrest h) (hrest h') hbehind]

/-- A field and its prolongation by what stands between trade places unseen. -/
theorem join_swap (front mid back : List (List α)) (field : List α) :
    let long := field ++ (mid.flatMap (sep :: ·) ++ sep :: field)
    join sep (front ++ field :: (mid ++ long :: back)) =
      join sep (front ++ long :: (mid ++ field :: back)) := by
  refine join_append_congr (List.cons_ne_nil _ _) (List.cons_ne_nil _ _) ?_ front
  rw [join_cons, join_cons]
  simp only [List.flatMap_append, List.flatMap_cons, List.append_assoc, List.cons_append]

end Joined
