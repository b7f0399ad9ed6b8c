import Saci.Consensus.Refinement

/-! # The pending scans

What `find_first_pending_claim` and `find_first_pending_batch` answer, over the ledger: the first
stretch of rows of a batch that no active span holds, and the first offered batch that has one. -/

namespace Saci

namespace Ledger
variable {σ : Ledger}

/-- The row lies in an active span of the batch. -/
def Taken (σ : Ledger) (b : UInt64) (x : UInt32) : Prop :=
  ∃ c s e st, σ.span b c = some (s, e, st) ∧ st.active = true ∧ s ≤ x ∧ x < e

/-- An active span of the batch starts at the row. -/
def SpanAt (σ : Ledger) (b : UInt64) (x : UInt32) : Prop :=
  ∃ c e st, σ.span b c = some (x, e, st) ∧ st.active = true

/-- Some row below the row count, or below an active span, is not taken. -/
def HasGap (σ : Ledger) (b : UInt64) : Prop :=
  ∃ m, σ.batch b = some m ∧ ∃ x, ¬ σ.Taken b x ∧ (x < m.totalRows ∨ ∃ y, σ.SpanAt b y ∧ x < y)

/-- `[lo, hi)` is the first stretch of free rows: it ends at the row count, with no active span
beyond it, or where an active span starts. -/
structure IsGap (σ : Ledger) (b : UInt64) (m : MasterBatchRecord) (lo hi : UInt32) : Prop where
  batch : σ.batch b = some m
  lt : lo < hi
  before : ∀ x < lo, σ.Taken b x
  free : σ.Free b lo hi
  stop : (hi = m.totalRows ∧ ∀ y, σ.SpanAt b y → y ≤ lo) ∨ σ.SpanAt b hi

theorem IsGap.not_taken (H : σ.IsGap b m lo hi) : ¬ σ.Taken b lo := by
  intro ⟨c, s, e, st, hspan, hactive, hs, he⟩
  have hlt := H.lt
  rcases H.free c s e st hspan hactive with h | h <;> order

theorem IsGap.hasGap (H : σ.IsGap b m lo hi) : σ.HasGap b := by
  refine ⟨m, H.batch, lo, H.not_taken, ?_⟩
  rcases H.stop with ⟨h, _⟩ | h
  · exact .inl (h ▸ H.lt)
  · exact .inr ⟨hi, h, H.lt⟩

end Ledger

variable {db : Database}

theorem mem_sortByStart {claimed : List (UInt32 × UInt32)} {x : UInt32 × UInt32} :
    x ∈ sortByStart claimed ↔ x ∈ claimed := by
  rw [sortByStart, List.mem_insertionSort]

theorem sortByStart_sorted (claimed : List (UInt32 × UInt32)) :
    (sortByStart claimed).Pairwise fun a b => a.1 ≤ b.1 :=
  List.pairwise_insertionSort ..

/-- The scan of one batch is a walk over its active spans in the order of their starts. -/
theorem findFirstPendingClaim_eq (H : db.WellFormed) (hbatch : db.ledger.batch b = some m) :
    ∃ spans, findFirstPendingClaim db b = .ok (firstGap m.totalRows 0 spans) ∧
      (spans.Pairwise fun x y => x.1 ≤ y.1) ∧ ∀ s e, (s, e) ∈ spans ↔
        ∃ c st, db.ledger.span b c = some (s, e, st) ∧ st.active = true := by
  obtain ⟨decoded, hdec, hmem⟩ := H.encoded.decodes b
  let claimed := (decoded.filter fun row => row.2.2.active).map fun row => (row.1, row.2.1)
  refine ⟨sortByStart claimed, ?_, sortByStart_sorted claimed, fun s e => ?_⟩
  · rw [findFirstPendingClaim, readMasterBatch_eq, hbatch, occupiedLoop_eq hdec]
    dsimp only
    split_ifs with hempty htotal
    · rw [show claimed = [] from List.isEmpty_iff.mp hempty]
      simp [sortByStart, firstGap, htotal]
    · rw [show claimed = [] from List.isEmpty_iff.mp hempty]
      simp [sortByStart, firstGap, htotal]
    · rfl
  · rw [mem_sortByStart, List.mem_map]
    constructor
    · rintro ⟨⟨s', e', st⟩, hin, heq⟩
      cases heq
      obtain ⟨hspan, hactive⟩ := List.mem_filter.mp hin
      obtain ⟨c, hspan⟩ := (hmem _).mp hspan
      exact ⟨c, st, hspan, hactive⟩
    · rintro ⟨c, st, hspan, hactive⟩
      exact ⟨(s, e, st), List.mem_filter.mpr ⟨(hmem _).mpr ⟨c, hspan⟩, hactive⟩, rfl⟩

theorem findFirstPendingClaim_eq_none (h : db.ledger.batch b = none) :
    findFirstPendingClaim db b = .ok none := by
  rw [findFirstPendingClaim, readMasterBatch_eq, h]

/-- The scan of one batch finds its first gap, or there is none. -/
theorem findFirstPendingClaim_spec (H : db.WellFormed) (b : UInt64) :
    (findFirstPendingClaim db b = .ok none ∧ ¬ db.ledger.HasGap b) ∨
      ∃ m lo hi, findFirstPendingClaim db b = .ok (some (lo, hi)) ∧ db.ledger.IsGap b m lo hi := by
  cases hbatch : db.ledger.batch b with
  | none =>
    refine .inl ⟨findFirstPendingClaim_eq_none hbatch, fun ⟨m, hm, _⟩ => ?_⟩
    cases hbatch.symm.trans hm
  | some m =>
    obtain ⟨spans, heq, hsorted, hmem⟩ := findFirstPendingClaim_eq H hbatch
    have htaken : ∀ x, Covered spans x ↔ db.ledger.Taken b x := by
      intro x
      constructor
      · intro ⟨(s, e), hin, hx⟩
        obtain ⟨c, st, hspan, hactive⟩ := (hmem s e).mp hin
        exact ⟨c, s, e, st, hspan, hactive, hx⟩
      · intro ⟨c, s, e, st, hspan, hactive, hx⟩
        exact ⟨(s, e), (hmem s e).mpr ⟨c, st, hspan, hactive⟩, hx⟩
    have hstart : ∀ y, (∃ span ∈ spans, span.1 = y) ↔ db.ledger.SpanAt b y := by
      intro y
      constructor
      · intro ⟨(s, e), hin, hy⟩
        obtain ⟨c, st, hspan, hactive⟩ := (hmem s e).mp hin
        exact ⟨c, e, st, hy ▸ hspan, hactive⟩
      · intro ⟨c, e, st, hspan, hactive⟩
        exact ⟨(y, e), (hmem y e).mpr ⟨c, st, hspan, hactive⟩, rfl⟩
    have hzero : ∀ x : UInt32, 0 ≤ x := fun x => UInt32.le_iff_toNat_le.mpr (Nat.zero_le _)
    cases hgap : firstGap m.totalRows 0 spans with
    | none =>
      refine .inl ⟨by rw [heq, hgap], fun ⟨m', hm', x, hfree, hlt⟩ => hfree ?_⟩
      cases hbatch.symm.trans hm'
      refine (htaken x).mp (firstGap_eq_none hsorted hgap (hzero x) (hlt.imp_right ?_))
      intro ⟨y, hy, hxy⟩
      obtain ⟨span, hin, rfl⟩ := (hstart y).mpr hy
      exact ⟨span, hin, hxy⟩
    | some gap =>
      obtain ⟨lo, hi⟩ := gap
      obtain ⟨_, hlt, hbefore, hfree, hstop⟩ := firstGap_eq_some hsorted hgap
      refine .inr ⟨m, lo, hi, by rw [heq, hgap], hbatch, hlt,
        fun x hx => (htaken x).mp (hbefore x (hzero x) hx), ?_, ?_⟩
      · intro c s e st hspan hactive
        exact hfree (s, e) ((hmem s e).mpr ⟨c, st, hspan, hactive⟩)
      · refine hstop.imp (fun ⟨hhi, hle⟩ => ⟨hhi, fun y hy => ?_⟩) (hstart hi).mp
        obtain ⟨span, hin, rfl⟩ := (hstart y).mpr hy
        exact hle span hin

theorem pendingBatchLoop_spec (H : db.WellFormed) {l : List UInt64} (hl : l.Pairwise (· < ·)) :
    (pendingBatchLoop db l = .ok none ∧ ∀ b ∈ l, ¬ db.ledger.HasGap b) ∨
      ∃ b m lo hi, pendingBatchLoop db l = .ok (some (b, (lo, hi))) ∧ b ∈ l ∧
        db.ledger.IsGap b m lo hi ∧ ∀ b' ∈ l, b' < b → ¬ db.ledger.HasGap b' := by
  induction l with
  | nil => exact .inl ⟨rfl, nofun⟩
  | cons b l ih =>
    obtain ⟨hhead, htail⟩ := List.pairwise_cons.mp hl
    rw [pendingBatchLoop]
    rcases findFirstPendingClaim_spec H b with ⟨heq, hno⟩ | ⟨m, lo, hi, heq, hgap⟩
    · rw [heq]
      rcases ih htail with ⟨hloop, hnone⟩ | ⟨b', m, lo, hi, hloop, hin, hgap, hfirst⟩
      · exact .inl ⟨hloop, List.forall_mem_cons.mpr ⟨hno, hnone⟩⟩
      · exact .inr ⟨b', m, lo, hi, hloop, List.mem_cons_of_mem _ hin, hgap,
          List.forall_mem_cons.mpr ⟨fun _ => hno, hfirst⟩⟩
    · rw [heq]
      refine .inr ⟨b, m, lo, hi, rfl, List.mem_cons_self, hgap, fun b' hb' hlt => ?_⟩
      rcases List.mem_cons.mp hb' with rfl | hb'
      · exact absurd hlt (lt_irrefl _)
      · exact absurd hlt (hhead b' hb').not_gt

/-- **The pending scan** answers the first offered batch with a gap, and its first gap. -/
theorem findFirstPendingBatch_spec (H : db.WellFormed) :
    (findFirstPendingBatch db = .ok none ∧ ∀ b ∈ db.ledger.pending, ¬ db.ledger.HasGap b) ∨
      ∃ b m lo hi, findFirstPendingBatch db = .ok (some (b, (lo, hi))) ∧ b ∈ db.ledger.pending ∧
        db.ledger.IsGap b m lo hi ∧ ∀ b' ∈ db.ledger.pending, b' < b → ¬ db.ledger.HasGap b' := by
  have hkeys : ∀ b, b ∈ (openTable db.pendingBatches).keys ↔ b ∈ db.ledger.pending :=
    fun b => Table.mem_keys
  simpa only [hkeys, findFirstPendingBatch] using
    pendingBatchLoop_spec H (openTable db.pendingBatches).keys_sorted

theorem pendingBatchLoop_claim {l : List UInt64}
    (h : pendingBatchLoop db l = .ok (some (b, range))) :
    findFirstPendingClaim db b = .ok (some range) := by
  induction l with
  | nil => cases h
  | cons b' l ih =>
    rw [pendingBatchLoop] at h
    split at h
    · cases h
    · next hclaim =>
      cases h
      exact hclaim
    · exact ih h

/-- The range that is answered is the one the scan of its batch finds. -/
theorem findFirstPendingBatch_claim (h : findFirstPendingBatch db = .ok (some (b, range))) :
    findFirstPendingClaim db b = .ok (some range) :=
  pendingBatchLoop_claim h

theorem findFirstPendingBatch_eq_none_iff (H : db.WellFormed) :
    findFirstPendingBatch db = .ok none ↔ ∀ b ∈ db.ledger.pending, ¬ db.ledger.HasGap b := by
  rcases findFirstPendingBatch_spec H with ⟨heq, hno⟩ | ⟨b, m, lo, hi, heq, hb, hgap, _⟩
  · exact iff_of_true heq hno
  · refine iff_of_false (fun h => ?_) fun h => h b hb hgap.hasGap
    cases heq.symm.trans h

/-- What an answer of the pending scan means. -/
theorem findFirstPendingBatch_eq_some (H : db.WellFormed)
    (h : findFirstPendingBatch db = .ok (some (b, (lo, hi)))) :
    b ∈ db.ledger.pending ∧ (∃ m, db.ledger.IsGap b m lo hi) ∧
      ∀ b' ∈ db.ledger.pending, b' < b → ¬ db.ledger.HasGap b' := by
  rcases findFirstPendingBatch_spec H with ⟨heq, _⟩ | ⟨b', m, lo', hi', heq, hb, hgap, hfirst⟩
  · cases h.symm.trans heq
  · cases h.symm.trans heq
    exact ⟨hb, ⟨m, hgap⟩, hfirst⟩

/-- A batch is answered exactly when it is offered, has a gap, and is the first that has one. -/
theorem findFirstPendingBatch_answers_iff (H : db.WellFormed) (b : UInt64) :
    (∃ lo hi, findFirstPendingBatch db = .ok (some (b, (lo, hi)))) ↔
      b ∈ db.ledger.pending ∧ db.ledger.HasGap b ∧
        ∀ b' ∈ db.ledger.pending, b' < b → ¬ db.ledger.HasGap b' := by
  constructor
  · intro ⟨lo, hi, heq⟩
    obtain ⟨hb, ⟨m, hgap⟩, hfirst⟩ := findFirstPendingBatch_eq_some H heq
    exact ⟨hb, hgap.hasGap, hfirst⟩
  · intro ⟨hb, hgap, hfirst⟩
    rcases findFirstPendingBatch_spec H with ⟨_, hno⟩ | ⟨b', m, lo, hi, heq, hb', hgap', hfirst'⟩
    · exact absurd hgap (hno b hb)
    · rcases lt_trichotomy b b' with hlt | rfl | hlt
      · exact absurd hgap (hfirst' b hb hlt)
      · exact ⟨lo, hi, heq⟩
      · exact absurd hgap'.hasGap (hfirst b' hb' hlt)

end Saci
