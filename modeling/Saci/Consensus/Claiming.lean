import Saci.Consensus.Exclusivity

/-! # What a claim answer promises

A `BatchClaimed` answer is honoured when the claim is then held by the caller, with the lease the
answer carries, on rows that no other active claim overlaps. The first delivery always is; a replay
answers from the stored record and does not look at its status. -/

namespace Saci

variable {db db' : Database}

/-- The claim is held by the instance until the lease expiry, on rows of its own. -/
def Honoured (db : Database) (c i : Uuid) (lease : UInt64) : Prop :=
  ∃ r, readClaim db c = some r ∧ r.status = .claimed ∧ r.instanceId = i ∧
    r.leaseExpiresAt = lease ∧ ∀ c' r', c' ≠ c → readClaim db c' = some r' →
      r'.batchId = r.batchId → r'.status.active = true →
      Disjoint (Set.Ico r.rowRangeStart r.rowRangeEnd) (Set.Ico r'.rowRangeStart r'.rowRangeEnd)

theorem honoured_of_claimed (H : db.WellFormed) (hclaim : db.ledger.claim c = some r)
    (hstatus : r.status = .claimed) : Honoured db c r.instanceId r.leaseExpiresAt := by
  rw [← readClaim_eq] at hclaim
  refine ⟨r, hclaim, hstatus, rfl, rfl, ?_⟩
  intro c' r' hne hclaim' hbatch hactive
  exact H.exclusiveRows c c' r r' hne.symm hclaim hclaim' hbatch.symm (by rw [hstatus]; rfl) hactive

/-- A stored claim for the same rows and instance is answered from its record. -/
theorem applyClaimRowRange_replays (H : db.WellFormed) (hclaim : readClaim db c = some r)
    (hmatch : r.Matches b s e i) (ttl now : UInt64) :
    ∃ component schemaId, apply db (.claimRowRange b s e c i ttl now) =
      .ok (db, .batchClaimed b component s e schemaId c i r.leaseExpiresAt) := by
  rw [readClaim_eq] at hclaim
  have hrange : s < e := by
    obtain ⟨_, rfl, rfl, _⟩ := hmatch
    exact H.inv.nonempty (H.inv.mirrored hclaim)
  rcases idempotentReplay_eq H b s e c i with ⟨r', m, hclaim', _, _, heq⟩ | ⟨hfresh, _⟩
  · cases hclaim.symm.trans hclaim'
    refine ⟨m.component, m.schemaId, ?_⟩
    rw [apply, applyClaimRowRange, if_neg (not_le.mpr hrange), heq]
  · exact absurd hmatch (hfresh r hclaim)

/-- Free rows of a batch are given to a claim that is not stored for them already. -/
theorem applyClaimRowRange_claims (H : db.WellFormed) (hclaimable : db.ledger.Claimable b s e)
    (hfresh : ∀ r, readClaim db c = some r → ¬ r.Matches b s e i) (ttl now : UInt64) :
    ∃ db' component schemaId, apply db (.claimRowRange b s e c i ttl now) =
        .ok (db', .batchClaimed b component s e schemaId c i (now + ttl)) ∧
      db'.ledger = db.ledger.file c (.claimed b s e i ttl now) := by
  simp only [readClaim_eq] at hfresh
  obtain ⟨hrange, ⟨m, hbatch, hrows⟩, hfree⟩ := hclaimable
  obtain ⟨db', response, happly, _, hstep⟩ := apply_refines H (.claimRowRange b s e c i ttl now)
  generalize hσ : db'.ledger = σ at hstep
  cases hstep with
  | refused hrefuses =>
    rcases hrefuses with h | ⟨_, h⟩
    · exact absurd h (not_le.mpr hrange)
    · exact absurd hfree (h m hbatch hrows)
  | replayed _ hclaim hmatch => exact absurd hmatch (hfresh _ hclaim)
  | claimed => exact ⟨db', _, _, happly, hσ⟩

/-- **Claim answers.** A `BatchClaimed` answer is honoured unless the same claim is stored already
and is no longer Claimed. -/
theorem batchClaimed_honoured_iff (H : Reachable db) (b : UInt64) (s e : UInt32) (c i : Uuid)
    (ttl now : UInt64) :
    (∀ db' b' component s' e' schemaId c' i' lease,
      apply db (.claimRowRange b s e c i ttl now) =
        .ok (db', .batchClaimed b' component s' e' schemaId c' i' lease) →
      Honoured db' c i lease) ↔
    ¬ ∃ r, readClaim db c = some r ∧ r.Matches b s e i ∧ r.status ≠ .claimed := by
  constructor
  · intro hhonoured ⟨r, hclaim, hmatch, hstatus⟩
    obtain ⟨component, schemaId, happly⟩ :=
      applyClaimRowRange_replays H.wellFormed hclaim hmatch ttl now
    obtain ⟨r', hclaim', hstatus', _⟩ := hhonoured _ _ _ _ _ _ _ _ _ happly
    cases hclaim.symm.trans hclaim'
    exact hstatus hstatus'
  · intro hstale db' b' component s' e' schemaId c' i' lease happly
    have hstep := apply_step H.wellFormed happly
    have hdb' := apply_wellFormed H.wellFormed happly
    generalize hσ : db'.ledger = σ at hstep
    cases hstep with
    | @replayed _ _ _ r _ m _ _ _ hrange hclaim hmatch hbatch =>
      have hstatus : r.status = .claimed := by
        by_contra hne
        exact hstale ⟨r, by rw [readClaim_eq]; exact hclaim, hmatch, hne⟩
      rw [← hσ] at hclaim
      exact hmatch.2.2.2 ▸ honoured_of_claimed hdb' hclaim hstatus
    | claimed =>
      refine honoured_of_claimed (r := .claimed b s e i ttl now) hdb' ?_ rfl
      rw [hσ, Ledger.file_claim, if_pos rfl]

theorem batchClaimed_honoured_iff_registered :
    ∃ db responses, run apply .empty [.registerMasterBatch 1 "orders" 1 [] 100 0] =
        .ok (db, responses) ∧
      ((∀ db' b' component s' e' schemaId c' i' lease,
        apply db (.claimRowRange 1 0 50 (.fromU128 1) (.fromU128 7) 10 0) =
          .ok (db', .batchClaimed b' component s' e' schemaId c' i' lease) →
        Honoured db' (.fromU128 1) (.fromU128 7) lease) ↔
      ¬ ∃ r, readClaim db (.fromU128 1) = some r ∧ r.Matches 1 0 50 (.fromU128 7) ∧
        r.status ≠ .claimed) := by
  obtain ⟨db, responses, hrun, _⟩ := run_apply_total Database.empty_wellFormed
    [.registerMasterBatch 1 "orders" 1 [] 100 0]
  exact ⟨db, responses, hrun,
    batchClaimed_honoured_iff ⟨_, _, hrun⟩ 1 0 50 (.fromU128 1) (.fromU128 7) 10 0⟩

/-- A sweep takes the claim back, another instance claims its rows, and the retry is answered as if
the claim were still held. -/
theorem batchClaimed_not_honoured :
    ∃ db responses db', run apply .empty
        [.registerMasterBatch 1 "orders" 1 [] 100 0,
          .claimRowRange 1 0 50 (.fromU128 1) (.fromU128 7) 10 0,
          .reclaimExpired 11,
          .claimRowRange 1 0 50 (.fromU128 2) (.fromU128 8) 10 11] = .ok (db, responses) ∧
      apply db (.claimRowRange 1 0 50 (.fromU128 1) (.fromU128 7) 10 0) =
        .ok (db', .batchClaimed 1 "orders" 0 50 1 (.fromU128 1) (.fromU128 7) 0) ∧
      ¬ Honoured db' (.fromU128 1) (.fromU128 7) 0 := by
  refine ⟨_, _, _, rfl, rfl, ?_⟩
  intro ⟨r, hclaim, hstatus, _⟩
  cases hclaim
  cases hstatus

end Saci
