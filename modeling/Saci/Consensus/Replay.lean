import Saci.Consensus.Steps

/-! # Re-applied commands

A command is settled in a ledger that applying it would leave as it is. Every command is settled by
its own application (`Step.settles`); later commands can unsettle it again. -/

namespace Saci
namespace Ledger

/-- Applying the command changes nothing. -/
def Settled (σ : Ledger) : ConsensusCommand → Prop
  | .registerMasterBatch b component schemaId ipcBytes totalRows now =>
    MAX_LOG_ENTRY_BYTES ≤ ipcBytes.length ∨
      σ.batch b = some (.registered b component schemaId ipcBytes totalRows now) ∧ b ∈ σ.pending
  | .claimRowRange b s e c i ttl now =>
    σ.Refuses (.claimRowRange b s e c i ttl now) ∨ ∃ r, σ.claim c = some r ∧ r.Matches b s e i
  | .renewClaim c i ttl now => ∀ r, σ.claim c = some r → r.HeldBy i →
      r.leaseExpiresAt < now ∨ now + ttl ≤ r.leaseExpiresAt
  | .ackClaim c i | .releaseClaim c i => ∀ r, σ.claim c = some r → ¬ r.HeldBy i
  | .checkpoint c stage ipcBytes _ _ => MAX_LOG_ENTRY_BYTES ≤ ipcBytes.length ∨
      σ.claim c = none ∨ ∃ k, σ.checkpoint c stage = some k ∧
        k.contentHash = checkpointContentHash c stage ipcBytes
  | .heartbeat _ _ => True
  | .reclaimExpired now => ∀ c r, σ.claim c = some r → r.expired now = false
  | .poisonBatch b _ => ∀ m, σ.batch b = some m → m.status = .poisoned

variable {σ σ' : Ledger}

/-- A refused command is settled. -/
theorem Refuses.settled (h : σ.Refuses cmd) : σ.Settled cmd := by
  cases cmd with
  | registerMasterBatch => exact .inl h
  | claimRowRange => exact .inl h
  | renewClaim => exact fun r hclaim hheld => .inl (h r hclaim hheld)
  | ackClaim => exact h
  | releaseClaim => exact h
  | checkpoint => exact h.imp_right .inl
  | heartbeat => trivial
  | reclaimExpired => cases h
  | poisonBatch =>
    intro m hm
    cases hm.symm.trans h

/-- A settled command leaves the ledger as it is. -/
theorem Step.eq_of_settled (hstep : σ.Step cmd response σ') (H : σ.Settled cmd) : σ' = σ := by
  cases hstep with
  | refused | replayed | poisonedAgain | duplicate | heartbeat => rfl
  | registered hlen =>
    obtain ⟨hbatch, hb⟩ := H.resolve_left (not_le.mpr hlen)
    apply Ledger.ext <;> try rfl
    · exact Function.update_eq_self_iff.mpr hbatch.symm
    · exact Set.insert_eq_of_mem hb
  | claimed hrange hfresh hbatch hrows hfree =>
    rcases H with hrefuses | ⟨r, hclaim, hmatch⟩
    · rcases hrefuses with h | ⟨_, h⟩
      · exact absurd hrange (not_lt.mpr h)
      · exact absurd hfree (h _ hbatch hrows)
    · exact absurd hmatch (hfresh r hclaim)
  | renewed hclaim hheld hlease =>
    next c r i now ttl =>
      have hlease' := (H r hclaim hheld).resolve_left (not_lt.mpr hlease)
      have hsame : r.renewed ttl now = r := by rw [ClaimRecord.renewed, max_eq_left hlease']
      apply Ledger.ext <;> try rfl
      change Function.update σ.claim c (some (r.renewed ttl now)) = σ.claim
      rw [hsame]
      exact Function.update_eq_self_iff.mpr hclaim.symm
  | acked hclaim hheld => exact absurd hheld (H _ hclaim)
  | released hclaim hheld => exact absurd hheld (H _ hclaim)
  | reclaimed => exact reclaim_eq_self H
  | poisoned hbatch hactive => exact absurd (H _ hbatch) hactive
  | checkpointed hlen hclaim _ hnew =>
    rcases H with h | h | ⟨k, hk, hhash⟩
    · exact absurd hlen (not_lt.mpr h)
    · cases hclaim.symm.trans h
    · exact absurd hhash (hnew k hk)

/-- A command that leaves the ledger as it is was settled. -/
theorem Step.settled_of_eq (hstep : σ.Step cmd response σ') (heq : σ' = σ) : σ.Settled cmd := by
  have hclaims := congrFun (congrArg Ledger.claim heq)
  have hbatches := congrFun (congrArg Ledger.batch heq)
  have hcheckpoints : ∀ c stage, σ'.checkpoint c stage = σ.checkpoint c stage := by rw [heq]; simp
  cases hstep with
  | refused hrefuses => exact hrefuses.settled
  | registered =>
    refine .inr ⟨?_, heq ▸ Set.mem_insert _ σ.pending⟩
    exact (hbatches _).symm.trans (Function.update_self ..)
  | replayed _ hclaim hmatch => exact .inr ⟨_, hclaim, hmatch⟩
  | claimed => exact .inr ⟨_, (hclaims _).symm.trans (Function.update_self ..), rfl, rfl, rfl, rfl⟩
  | renewed hclaim =>
    intro r' hclaim' _
    cases hclaim.symm.trans hclaim'
    have hsame := (hclaims _).trans hclaim
    rw [renew_claim, if_pos rfl] at hsame
    refine .inr (max_eq_left_iff.mp ?_)
    exact congrArg ClaimRecord.leaseExpiresAt (Option.some.inj hsame)
  | acked hclaim hheld =>
    have hsame := (hclaims _).trans hclaim
    rw [ack_claim, if_pos rfl] at hsame
    have hstatus := congrArg ClaimRecord.status (Option.some.inj hsame)
    cases hstatus.trans hheld.1
  | released hclaim hheld =>
    have hsame := (hclaims _).trans hclaim
    rw [release_claim, if_pos rfl] at hsame
    have hstatus := congrArg ClaimRecord.status (Option.some.inj hsame)
    cases hstatus.trans hheld.1
  | reclaimed =>
    intro c r hclaim
    rw [Bool.eq_false_iff]
    intro hexpired
    obtain ⟨r', hclaim', hr⟩ := reclaim_claim_eq_some.mp ((hclaims c).trans hclaim)
    cases hclaim.symm.trans hclaim'
    rw [if_pos hexpired] at hr
    cases (congrArg ClaimRecord.status hr).symm.trans (expired_status hexpired)
  | poisoned hbatch hactive =>
    have hsame := (hbatches _).trans hbatch
    rw [poison_batch, hbatch, Option.map_some, if_pos rfl] at hsame
    exact absurd (congrArg MasterBatchRecord.status (Option.some.inj hsame)).symm hactive
  | poisonedAgain hbatch hpoisoned =>
    intro m hm
    cases hbatch.symm.trans hm
    exact hpoisoned
  | checkpointed =>
    exact .inr (.inr ⟨_, (hcheckpoints _ _).symm.trans (if_pos ⟨rfl, rfl⟩), rfl⟩)
  | duplicate _ _ _ hstored hhash => exact .inr (.inr ⟨_, hstored, hhash⟩)
  | heartbeat => trivial

/-- Every command is settled by its own application. -/
theorem Step.settles (hstep : σ.Step cmd response σ') : σ'.Settled cmd := by
  cases hstep with
  | refused hrefuses => exact hrefuses.settled
  | registered => exact .inr ⟨Function.update_self .., Set.mem_insert ..⟩
  | replayed _ hclaim hmatch => exact .inr ⟨_, hclaim, hmatch⟩
  | claimed => exact .inr ⟨_, Function.update_self .., rfl, rfl, rfl, rfl⟩
  | renewed =>
    intro r hclaim _
    rw [renew_claim, if_pos rfl] at hclaim
    cases hclaim
    exact .inr (le_max_right ..)
  | acked =>
    intro r hclaim hheld
    rw [ack_claim, if_pos rfl] at hclaim
    cases hclaim
    cases hheld.1
  | released =>
    intro r hclaim hheld
    rw [release_claim, if_pos rfl] at hclaim
    cases hclaim
    cases hheld.1
  | reclaimed =>
    intro c r' hclaim
    obtain ⟨r, _, rfl⟩ := reclaim_claim_eq_some.mp hclaim
    split_ifs with hexpired
    · rfl
    · exact Bool.eq_false_iff.mpr hexpired
  | poisoned hbatch =>
    intro m hm
    rw [poison_batch, hbatch, Option.map_some, if_pos rfl] at hm
    cases hm
    rfl
  | poisonedAgain hbatch hpoisoned =>
    intro m hm
    cases hbatch.symm.trans hm
    exact hpoisoned
  | checkpointed => exact .inr (.inr ⟨_, if_pos ⟨rfl, rfl⟩, rfl⟩)
  | duplicate _ _ _ hstored hhash => exact .inr (.inr ⟨_, hstored, hhash⟩)
  | heartbeat => trivial

/-- What a command makes of the ledger does not depend on its answer. -/
theorem Step.unique (h₁ : σ.Step cmd response₁ σ₁) (h₂ : σ.Step cmd response₂ σ₂) : σ₁ = σ₂ := by
  by_cases H : σ.Settled cmd
  · exact (h₁.eq_of_settled H).trans (h₂.eq_of_settled H).symm
  have hchanges₁ : σ₁ ≠ σ := fun heq => H (h₁.settled_of_eq heq)
  have hchanges₂ : σ₂ ≠ σ := fun heq => H (h₂.settled_of_eq heq)
  cases h₁ with
  | refused | replayed | poisonedAgain | duplicate | heartbeat => exact absurd rfl hchanges₁
  | registered => cases h₂ with
    | refused => exact absurd rfl hchanges₂
    | registered => rfl
  | claimed => cases h₂ with
    | refused | replayed => exact absurd rfl hchanges₂
    | claimed => rfl
  | renewed hclaim => cases h₂ with
    | refused => exact absurd rfl hchanges₂
    | renewed hclaim' => cases hclaim.symm.trans hclaim'; rfl
  | acked hclaim => cases h₂ with
    | refused => exact absurd rfl hchanges₂
    | acked hclaim' => cases hclaim.symm.trans hclaim'; rfl
  | released hclaim => cases h₂ with
    | refused => exact absurd rfl hchanges₂
    | released hclaim' => cases hclaim.symm.trans hclaim'; rfl
  | reclaimed => cases h₂ with
    | refused => exact absurd rfl hchanges₂
    | reclaimed => rfl
  | poisoned => cases h₂ with
    | refused | poisonedAgain => exact absurd rfl hchanges₂
    | poisoned => rfl
  | checkpointed _ hclaim => cases h₂ with
    | refused | duplicate => exact absurd rfl hchanges₂
    | checkpointed _ hclaim' => cases hclaim.symm.trans hclaim'; rfl

end Ledger
end Saci
