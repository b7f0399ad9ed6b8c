import Saci.Consensus.Scan
import Saci.Consensus.Steps

/-! # Batches with nothing left to claim

A batch without a gap gets a new active span only after a registration, and a new gap only when a
span that holds rows in reach is given up. -/

namespace Saci

namespace Ledger
variable {σ σ' : Ledger}

/-- The row lies below the row count, or below an active span. -/
def InReach (σ : Ledger) (b : UInt64) (x : UInt32) : Prop :=
  ∃ m, σ.batch b = some m ∧ (x < m.totalRows ∨ ∃ y, σ.SpanAt b y ∧ x < y)

theorem hasGap_iff : σ.HasGap b ↔ ∃ x, ¬ σ.Taken b x ∧ σ.InReach b x := by
  constructor
  · intro ⟨m, hm, x, hfree, hreach⟩
    exact ⟨x, hfree, m, hm, hreach⟩
  · intro ⟨x, hfree, m, hm, hreach⟩
    exact ⟨m, hm, x, hfree, hreach⟩

theorem InReach.mono (h : σ.InReach b y) (hle : x ≤ y) : σ.InReach b x := by
  obtain ⟨m, hm, hreach⟩ := h
  refine ⟨m, hm, hreach.imp hle.trans_lt ?_⟩
  intro ⟨z, hz, hyz⟩
  exact ⟨z, hz, hle.trans_lt hyz⟩

/-- Rows that can be claimed are a gap. -/
theorem Claimable.hasGap (H : σ.Claimable b s e) : σ.HasGap b := by
  obtain ⟨hrange, ⟨m, hbatch, hrows⟩, hfree⟩ := H
  refine ⟨m, hbatch, s, ?_, .inl (hrange.trans_le hrows)⟩
  intro ⟨c, s', e', st, hspan, hactive, hs, he⟩
  rcases hfree c s' e' st hspan hactive with h | h <;> order

/-- Where nothing can be claimed, a command makes no new active span. -/
theorem Step.spanAt (H : σ.Inv) (hstep : σ.Step cmd response σ') (hno : ¬ σ.HasGap b)
    (h : σ'.SpanAt b y) : σ.SpanAt b y := by
  obtain ⟨c, e, st, hspan', hactive⟩ := h
  have hchange := hstep.span H hspan'
  generalize hspan : σ.span b c = old at hchange
  cases hchange with
  | kept => exact ⟨c, e, st, hspan, hactive⟩
  | claimed hclaimable => exact absurd hclaimable.hasGap hno
  | acked => exact ⟨c, e, .claimed, hspan, rfl⟩
  | released | reclaimed => cases hactive

/-- A command that does not register the batch brings no row into reach, where nothing can be
claimed. -/
theorem Step.inReach (H : σ.Inv) (hstep : σ.Step cmd response σ') (hno : ¬ σ.HasGap b)
    (hregisters : ¬ cmd.Registers b) (h : σ'.InReach b x) : σ.InReach b x := by
  obtain ⟨m', hm', hreach⟩ := h
  obtain ⟨m, hm, hrows, _⟩ := (hstep.batch hm').of_not_registers hregisters
  rw [hrows] at hreach
  exact ⟨m, hm, hreach.imp_right fun ⟨y, hy, hxy⟩ => ⟨y, hstep.spanAt H hno hy, hxy⟩⟩

/-- A command makes no gap in a batch that it does not register and whose rows in reach it takes
from no holder. -/
theorem Step.hasGap (H : σ.Inv) (hstep : σ.Step cmd response σ') (hno : ¬ σ.HasGap b)
    (hregisters : ¬ cmd.Registers b)
    (hrelease : ∀ c i r, cmd = .releaseClaim c i → σ.claim c = some r → r.batchId = b →
      r.HeldBy i → ¬ σ.InReach b r.rowRangeStart)
    (hreclaim : ∀ now c r, cmd = .reclaimExpired now → σ.claim c = some r → r.batchId = b →
      r.expired now = true → ¬ σ.InReach b r.rowRangeStart) : ¬ σ'.HasGap b := by
  rw [hasGap_iff]
  intro ⟨x, hfree, hreach'⟩
  have hreach := hstep.inReach H hno hregisters hreach'
  -- the row was taken, and no span that is given up holds a row in reach
  obtain ⟨c, s, e, st, hspan, hactive, hs, he⟩ : σ.Taken b x := by
    by_contra hfree₀
    exact hno (hasGap_iff.mpr ⟨x, hfree₀, hreach⟩)
  have hstart : ∀ {r : ClaimRecord}, σ.claim c = some r → r.batchId = b →
      σ.InReach b r.rowRangeStart := by
    intro r hclaim hb
    have heq := Option.some.inj (hspan.symm.trans (hb ▸ H.mirrored hclaim))
    have hrow : s = r.rowRangeStart := congrArg Prod.fst heq
    exact hrow ▸ hreach.mono hs
  obtain ⟨x', hspan'⟩ := hstep.span_isSome hspan
  have hchange := hstep.span H hspan'
  rw [hspan] at hchange
  cases hchange with
  | kept => exact hfree ⟨c, s, e, st, hspan', hactive, hs, he⟩
  | claimed hclaimable => exact hno hclaimable.hasGap
  | acked => exact hfree ⟨c, s, e, .completed, hspan', rfl, hs, he⟩
  | released hclaim hb hheld =>
    exact hrelease _ _ _ rfl hclaim hb hheld (hstart hclaim hb)
  | reclaimed hclaim hb hexpired =>
    exact hreclaim _ _ _ rfl hclaim hb hexpired (hstart hclaim hb)

end Ledger
end Saci
