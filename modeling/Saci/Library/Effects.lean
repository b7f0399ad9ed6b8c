import Mathlib

/-!
# Effects and what they touch

An effect takes a state to the state it leaves and to a failure or a value; the values of a
sequence of effects are added up. States are looked at through locations. An effect that stays
within the locations it reads and writes can change places with another one where neither writes
what the other touches, and so the order of a sequence matters only where two effects are not
apart.
-/

namespace Effects

variable {S E M L I : Type*} {V : L → Type*}

/-- Run effects in turn, up to the first that fails. -/
def runAll [AddCommMonoid M] : List (S → S × Except E M) → S → S × Except E M
  | [], s => (s, .ok 0)
  | f :: fs, s =>
    match f s with
    | (s', .error e) => (s', .error e)
    | (s', .ok m) =>
      match runAll fs s' with
      | (s'', .error e) => (s'', .error e)
      | (s'', .ok m') => (s'', .ok (m + m'))

section Run
variable [AddCommMonoid M] {f : S → S × Except E M} {fs gs : List (S → S × Except E M)}
  {s s' : S} {m : M}

@[simp] theorem runAll_nil : runAll ([] : List (S → S × Except E M)) s = (s, .ok 0) := rfl

theorem runAll_cons_eq_ok :
    runAll (f :: fs) s = (s', .ok m) ↔
      ∃ s₁ m₁ m₂, f s = (s₁, .ok m₁) ∧ runAll fs s₁ = (s', .ok m₂) ∧ m = m₁ + m₂ := by
  rw [runAll]
  constructor
  · intro h
    rcases hf : f s with ⟨s₁, e | m₁⟩
    · simp [hf] at h
    · rcases hfs : runAll fs s₁ with ⟨s₂, e | m₂⟩
      · simp [hf, hfs] at h
      · simp only [hf, hfs, Prod.mk.injEq, Except.ok.injEq] at h
        obtain ⟨rfl, rfl⟩ := h
        exact ⟨s₁, m₁, m₂, rfl, hfs, rfl⟩
  · rintro ⟨s₁, m₁, m₂, hf, hfs, rfl⟩
    simp only [hf, hfs]

theorem runAll_append_eq_ok :
    runAll (fs ++ gs) s = (s', .ok m) ↔
      ∃ s₁ m₁ m₂, runAll fs s = (s₁, .ok m₁) ∧ runAll gs s₁ = (s', .ok m₂) ∧ m = m₁ + m₂ := by
  induction fs generalizing s m with
  | nil => simp [eq_comm]
  | cons f fs ih =>
    rw [List.cons_append, runAll_cons_eq_ok]
    constructor
    · rintro ⟨s₁, m₁, m₂, hf, hrest, rfl⟩
      obtain ⟨s₂, m₃, m₄, hfs, hgs, rfl⟩ := ih.mp hrest
      exact ⟨s₂, m₁ + m₃, m₄, runAll_cons_eq_ok.mpr ⟨s₁, m₁, m₃, hf, hfs, rfl⟩, hgs,
        (add_assoc _ _ _).symm⟩
    · rintro ⟨s₂, m₁, m₄, hall, hgs, rfl⟩
      obtain ⟨s₁, m₂, m₃, hf, hfs, rfl⟩ := runAll_cons_eq_ok.mp hall
      exact ⟨s₁, m₂, m₃ + m₄, hf, ih.mpr ⟨s₂, m₃, m₄, hfs, hgs, rfl⟩, add_assoc _ _ _⟩

/-- Running the effects of each part in turn is running them all. -/
theorem runAll_flatten_eq_ok {parts : List (List (S → S × Except E M))} :
    runAll (parts.map runAll) s = (s', .ok m) ↔ runAll parts.flatten s = (s', .ok m) := by
  induction parts generalizing s m with
  | nil => rfl
  | cons part parts ih =>
    rw [List.map_cons, List.flatten_cons, runAll_cons_eq_ok, runAll_append_eq_ok]
    simp only [ih]

end Run

/-! ## Footprints -/

/-- Two states look the same at every location. -/
def Alike (look : S → ∀ l, V l) (s t : S) : Prop := ∀ l, look s l = look t l

/-- On the states that meet `inv`, the effect changes only what is in `writes`, and its value and
what it writes depend only on what is in `reads` or `writes`. -/
structure Within (look : S → ∀ l, V l) (inv : S → Prop) (reads writes : Set L)
    (f : S → S × Except E M) : Prop where
  keeps : ∀ {s}, inv s → inv (f s).1
  frame : ∀ {s l}, inv s → l ∉ writes → look (f s).1 l = look s l
  value : ∀ {s t}, inv s → inv t → (∀ l ∈ reads ∪ writes, look s l = look t l) →
    (f s).2 = (f t).2
  written : ∀ {s t}, inv s → inv t → (∀ l ∈ reads ∪ writes, look s l = look t l) →
    ∀ l ∈ writes, look (f s).1 l = look (f t).1 l

/-- Neither of two effects writes what the other touches. -/
def Apart (reads writes : I → Set L) (i j : I) : Prop :=
  Disjoint (writes i) (reads j ∪ writes j) ∧ Disjoint (writes j) (reads i ∪ writes i)

theorem Apart.symm {reads writes : I → Set L} {i j : I} (h : Apart reads writes i j) :
    Apart reads writes j i := ⟨h.2, h.1⟩

section Order
variable {look : S → ∀ l, V l} {inv : S → Prop} {r w r₁ w₁ r₂ w₂ : Set L}
  {f g : S → S × Except E M} {s t s₁ s₂ : S} {m a b : M}

namespace Within

/-- An effect does the same from states that look alike. -/
theorem alike (hf : Within look inv r w f) (hs : inv s) (ht : inv t) (h : Alike look s t)
    (hrun : f s = (s₁, .ok m)) :
    ∃ t₁, f t = (t₁, .ok m) ∧ Alike look s₁ t₁ := by
  have hvalue := hf.value hs ht fun l _ => h l
  refine ⟨(f t).1, Prod.ext rfl ?_, fun l => ?_⟩
  · rw [← hvalue, hrun]
  · rw [show s₁ = (f s).1 by rw [hrun]]
    by_cases hl : l ∈ w
    · exact hf.written hs ht (fun l _ => h l) l hl
    · rw [hf.frame hs hl, hf.frame ht hl, h l]

theorem keeps_of_eq (hf : Within look inv r w f) (hs : inv s) {x : Except E M}
    (hrun : f s = (s₁, x)) : inv s₁ := by
  have := hf.keeps hs
  rwa [hrun] at this

theorem congr (h : ∀ s, f s = g s) (hf : Within look inv r w f) : Within look inv r w g :=
  (funext h : f = g) ▸ hf

/-- Answering without touching anything. -/
theorem answer (x : Except E M) : Within look inv r w fun s : S => (s, x) where
  keeps hs := hs
  frame _ _ := rfl
  value _ _ _ := rfl
  written _ _ h l hl := h l (.inr hl)

/-- What follows an effect may depend on its value, and starts from the state it leaves. -/
theorem bind {M' : Type*} {next : Except E M → S → S × Except E M'}
    (hf : Within look inv r w f) (hnext : ∀ x, Within look inv r w (next x)) :
    Within look inv r w fun s => next (f s).2 (f s).1 := by
  have hagree {s t : S} (hs : inv s) (ht : inv t) (h : ∀ l ∈ r ∪ w, look s l = look t l) :
      ∀ l ∈ r ∪ w, look (f s).1 l = look (f t).1 l := by
    intro l hl
    by_cases hw : l ∈ w
    · exact hf.written hs ht h l hw
    · rw [hf.frame hs hw, hf.frame ht hw]
      exact h l hl
  refine ⟨fun hs => ?_, fun hs hl => ?_, fun hs ht h => ?_, fun hs ht h => ?_⟩
  · exact (hnext _).keeps (hf.keeps hs)
  · rw [(hnext _).frame (hf.keeps hs) hl, hf.frame hs hl]
  · rw [hf.value hs ht h]
    exact (hnext _).value (hf.keeps hs) (hf.keeps ht) (hagree hs ht h)
  · rw [hf.value hs ht h]
    exact (hnext _).written (hf.keeps hs) (hf.keeps ht) (hagree hs ht h)

/-- Two effects that are apart can change places. -/
theorem swap (hf : Within look inv r₁ w₁ f) (hg : Within look inv r₂ w₂ g)
    (hfg : Disjoint w₁ (r₂ ∪ w₂)) (hgf : Disjoint w₂ (r₁ ∪ w₁)) (hs : inv s)
    (hrunf : f s = (s₁, .ok a)) (hrung : g s₁ = (s₂, .ok b)) :
    ∃ t₁ t₂, g s = (t₁, .ok b) ∧ f t₁ = (t₂, .ok a) ∧ Alike look s₂ t₂ := by
  have hs₁ := hf.keeps_of_eq hs hrunf
  have hframef {l : L} (hl : l ∉ w₁) : look s₁ l = look s l := by
    have := hf.frame hs hl
    rwa [hrunf] at this
  have hframeg {l : L} (hl : l ∉ w₂) : look s₂ l = look s₁ l := by
    have := hg.frame hs₁ hl
    rwa [hrung] at this
  -- the second effect sees the same before and after the first
  have hsame : ∀ l ∈ r₂ ∪ w₂, look s l = look s₁ l := fun l hl =>
    (hframef fun hw => Set.disjoint_left.mp hfg hw hl).symm
  have ht₁ := hg.keeps hs
  have hback : ∀ l ∈ r₁ ∪ w₁, look (g s).1 l = look s l := fun l hl =>
    hg.frame hs fun hw => Set.disjoint_left.mp hgf hw hl
  refine ⟨(g s).1, (f (g s).1).1, Prod.ext rfl ?_, Prod.ext rfl ?_, fun l => ?_⟩
  · rw [hg.value hs hs₁ hsame, hrung]
  · rw [hf.value ht₁ hs hback, hrunf]
  · by_cases hl₁ : l ∈ w₁
    · have hl₂ : l ∉ w₂ := fun hw => Set.disjoint_left.mp hgf hw (.inr hl₁)
      rw [hframeg hl₂, hf.written ht₁ hs hback l hl₁, hrunf]
    · rw [hf.frame ht₁ hl₁]
      by_cases hl₂ : l ∈ w₂
      · rw [hg.written hs hs₁ hsame l hl₂, hrung]
      · rw [hg.frame hs hl₂, hframeg hl₂, hframef hl₁]

end Within

variable [AddCommMonoid M] {effect : I → S → S × Except E M} {reads writes : I → Set L}
  {l l' p q : List I} {i : I}

/-- A sequence does the same from states that look alike. -/
theorem runAll_alike (hwithin : ∀ i ∈ l, Within look inv (reads i) (writes i) (effect i))
    (hs : inv s) (ht : inv t) (h : Alike look s t)
    (hrun : runAll (l.map effect) s = (s₁, .ok m)) :
    ∃ t₁, runAll (l.map effect) t = (t₁, .ok m) ∧ Alike look s₁ t₁ := by
  induction l generalizing s t m with
  | nil =>
    obtain ⟨rfl, hm⟩ := Prod.mk.inj hrun
    cases hm
    exact ⟨t, rfl, h⟩
  | cons i l ih =>
    obtain ⟨hi, hl⟩ := List.forall_mem_cons.mp hwithin
    obtain ⟨s', a, b, hf, hfs, rfl⟩ := runAll_cons_eq_ok.mp hrun
    obtain ⟨t', hf', h'⟩ := hi.alike hs ht h hf
    obtain ⟨t₁, hfs', h₁⟩ :=
      ih hl (hi.keeps_of_eq hs hf) (hi.keeps_of_eq ht hf') h' hfs
    exact ⟨t₁, runAll_cons_eq_ok.mpr ⟨t', a, b, hf', hfs', rfl⟩, h₁⟩

/-- An effect can go before a sequence that it is apart from. -/
theorem runAll_to_front
    (hwithin : ∀ j ∈ p ++ i :: q, Within look inv (reads j) (writes j) (effect j))
    (hapart : ∀ j ∈ p, Apart reads writes j i) (hs : inv s)
    (hrun : runAll ((p ++ i :: q).map effect) s = (s₁, .ok m)) :
    ∃ t₁, runAll ((i :: (p ++ q)).map effect) s = (t₁, .ok m) ∧ Alike look s₁ t₁ := by
  induction p generalizing s m with
  | nil => exact ⟨s₁, hrun, fun l => rfl⟩
  | cons j p ih =>
    obtain ⟨hj, hrest⟩ := List.forall_mem_cons.mp hwithin
    obtain ⟨hji, hp⟩ := List.forall_mem_cons.mp hapart
    have hi := hrest i (List.mem_append_right _ List.mem_cons_self)
    obtain ⟨s', b, _, hf, hfs, rfl⟩ := runAll_cons_eq_ok.mp hrun
    obtain ⟨t', hfront, ht'⟩ := ih hrest hp (hj.keeps_of_eq hs hf) hfs
    obtain ⟨s₂, a, c, hfi, hpq, rfl⟩ := runAll_cons_eq_ok.mp hfront
    obtain ⟨u₁, u₂, hfi', hf', hu⟩ := hj.swap hi hji.1 hji.2 hs hf hfi
    have hu₁ := hi.keeps_of_eq hs hfi'
    have hpqwithin : ∀ k ∈ p ++ q, Within look inv (reads k) (writes k) (effect k) :=
      fun k hk => hrest k <| by
        rcases List.mem_append.mp hk with hk | hk
        · exact List.mem_append_left _ hk
        · exact List.mem_append_right _ (List.mem_cons_of_mem _ hk)
    obtain ⟨t₁, hpq', ht₁⟩ := runAll_alike hpqwithin
      (hi.keeps_of_eq (hj.keeps_of_eq hs hf) hfi) (hj.keeps_of_eq hu₁ hf') hu hpq
    refine ⟨t₁, runAll_cons_eq_ok.mpr ⟨u₁, a, b + c, hfi', ?_, add_left_comm b a c⟩, ?_⟩
    · exact runAll_cons_eq_ok.mpr ⟨u₂, b, c, hf', hpq', rfl⟩
    · exact fun l => (ht' l).trans (ht₁ l)

/-- Two orders of the same effects that put all effects which are not apart in the same order come
to the same. -/
theorem runAll_perm {R : I → I → Prop} (hasymm : ∀ i j, R i j → ¬ R j i) (hperm : l.Perm l')
    (hwithin : ∀ i ∈ l, Within look inv (reads i) (writes i) (effect i))
    (hl : l.Pairwise fun i j => Apart reads writes i j ∨ R i j)
    (hl' : l'.Pairwise fun i j => Apart reads writes i j ∨ R i j) (hs : inv s)
    (hrun : runAll (l'.map effect) s = (s₁, .ok m)) :
    ∃ t₁, runAll (l.map effect) s = (t₁, .ok m) ∧ Alike look s₁ t₁ := by
  induction l generalizing l' s m s₁ with
  | nil =>
    rw [List.nil_perm.mp hperm] at hrun
    exact ⟨s₁, hrun, fun l => rfl⟩
  | cons i l ih =>
    obtain ⟨p, q, rfl⟩ := List.append_of_mem (hperm.mem_iff.mp List.mem_cons_self)
    have hrest : l.Perm (p ++ q) :=
      List.Perm.cons_inv (hperm.trans List.perm_middle)
    obtain ⟨hi, htail⟩ := List.pairwise_cons.mp hl
    obtain ⟨-, hiq, hcross⟩ := List.pairwise_append.mp hl'
    have hapart : ∀ j ∈ p, Apart reads writes j i := by
      intro j hj
      rcases hcross j hj i List.mem_cons_self with h | hji
      · exact h
      · rcases hi j (hrest.mem_iff.mpr (List.mem_append_left _ hj)) with h | hij
        · exact h.symm
        · exact absurd hij (hasymm _ _ hji)
    obtain ⟨t', hfront, ht'⟩ :=
      runAll_to_front (fun j hj => hwithin j (hperm.mem_iff.mpr hj)) hapart hs hrun
    obtain ⟨s', a, b, hf, hfs, rfl⟩ := runAll_cons_eq_ok.mp hfront
    have hsub : (p ++ q).Pairwise fun i j => Apart reads writes i j ∨ R i j :=
      hl'.sublist (List.Sublist.append_left (List.sublist_cons_self i q) p)
    obtain ⟨t₁, hfs', ht₁⟩ := ih hrest (fun j hj => hwithin j (List.mem_cons_of_mem _ hj)) htail
      hsub ((hwithin i List.mem_cons_self).keeps_of_eq hs hf) hfs
    exact ⟨t₁, runAll_cons_eq_ok.mpr ⟨s', a, b, hf, hfs', rfl⟩,
      fun l => (ht' l).trans (ht₁ l)⟩

end Order
end Effects
