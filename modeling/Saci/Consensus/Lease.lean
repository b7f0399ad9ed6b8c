import Saci.Consensus.Exclusivity

/-! # Lease laws

What the commands can do to the lease and the status of a claim, for every clock reading and every
ttl. The sums `now + ttl` wrap, and the laws hold all the same. -/

namespace Saci

namespace Ledger
variable {σ σ' : Ledger}

/-- The rows of an active claim are not free. -/
theorem Inv.not_claimable (H : σ.Inv) (hclaim : σ.claim c = some r)
    (hactive : r.status.active = true) :
    ¬ σ.Claimable r.batchId r.rowRangeStart r.rowRangeEnd := by
  intro ⟨hrange, _, hfree⟩
  rcases hfree c _ _ _ (H.mirrored hclaim) hactive with h | h <;> order

/-- Under a claim id that keeps its rows an active claim is not claimed over. -/
theorem Step.claim_of_active (H : σ.Inv) (hstep : σ.Step cmd response σ')
    (hkeeps : ∀ x ∈ cmd.claimedRows, ∀ r ∈ σ.claim x.1, r.rows = x.2)
    (hclaim : σ.claim c = some r) (hactive : r.status.active = true)
    (hclaim' : σ'.claim c = some r') : r'.rows = r.rows ∧
      (r' = r ∨ r.status = .claimed ∧ (r'.status = .claimed →
        r'.instanceId = r.instanceId ∧ r.leaseExpiresAt ≤ r'.leaseExpiresAt)) := by
  have hchange := hstep.claim hclaim'
  rw [hclaim] at hchange
  cases hchange with
  | kept => exact ⟨rfl, .inl rfl⟩
  | @claimed b s e _ _ _ _ hclaimable =>
    have hrows := hkeeps (c, b, s, e) rfl r hclaim
    cases hrows
    exact absurd hclaimable (H.not_claimable hclaim hactive)
  | renewed hheld => exact ⟨rfl, .inr ⟨hheld.1, fun _ => ⟨rfl, le_max_left ..⟩⟩⟩
  | acked hheld => exact ⟨rfl, .inr ⟨hheld.1, fun h => nomatch h⟩⟩
  | released hheld => exact ⟨rfl, .inr ⟨hheld.1, fun h => nomatch h⟩⟩
  | reclaimed hexpired => exact ⟨rfl, .inr ⟨expired_status hexpired, fun h => nomatch h⟩⟩

/-- A Completed claim stays as it is. -/
theorem Step.completed (H : σ.Inv) (hstep : σ.Step cmd response σ')
    (hkeeps : ∀ x ∈ cmd.claimedRows, ∀ r ∈ σ.claim x.1, r.rows = x.2)
    (hclaim : σ.claim c = some r) (hcompleted : r.status = .completed) :
    σ'.claim c = some r := by
  obtain ⟨r', hclaim'⟩ := hstep.claim_isSome hclaim
  rcases (hstep.claim_of_active H hkeeps hclaim (by rw [hcompleted]; rfl) hclaim').2 with
    rfl | ⟨hclaimed, _⟩
  · exact hclaim'
  · cases hcompleted.symm.trans hclaimed

end Ledger

variable {db db' : Database}

/-- The claim is Claimed, by the instance. -/
def HeldClaim (db : Database) (c i : Uuid) : Prop := ∃ r, readClaim db c = some r ∧ r.HeldBy i

/-- The step took the claim from Claimed back to Pending. -/
def TakenBack (db db' : Database) (c : Uuid) : Prop :=
  ∃ r r', readClaim db c = some r ∧ r.status = .claimed ∧ readClaim db' c = some r' ∧
    r'.status = .pending

/-- The run goes from `db` to `db'` under claim ids that keep their rows, and the claim is Claimed
by the instance all along. -/
def Tenure (c i : Uuid) (db : Database) (cmds : List ConsensusCommand) (db' : Database) : Prop :=
  ∃ responses, run apply db cmds = .ok (db', responses) ∧ EachStep apply KeepsRows db cmds ∧
    EachStep apply (fun db _ => HeldClaim db c i) db cmds ∧ HeldClaim db' c i

theorem Tenure.lease_le (H : db.WellFormed) (ht : Tenure c i db cmds db')
    (hclaim : readClaim db c = some r) (hclaim' : readClaim db' c = some r') :
    r.leaseExpiresAt ≤ r'.leaseExpiresAt := by
  obtain ⟨responses, hrun, hkeeps, hheld, hend⟩ := ht
  induction cmds generalizing db r responses with
  | nil =>
    obtain ⟨rfl, -⟩ := run_nil_eq_ok_iff.mp hrun
    cases hclaim.symm.trans hclaim'
    exact le_rfl
  | cons cmd cmds ih =>
    obtain ⟨db₁, response, responses', happly, hrun, -⟩ := run_cons_eq_ok_iff.mp hrun
    obtain ⟨r₀, hr₀, hstatus, _⟩ := hheld.1
    cases hclaim.symm.trans hr₀
    -- the claim is held after this step too: either the run goes on, or it ends here
    have hheld₁ : HeldClaim db₁ c i := by
      cases cmds with
      | nil =>
        obtain ⟨rfl, -⟩ := run_nil_eq_ok_iff.mp hrun
        exact hend
      | cons => exact (hheld.2 db₁ response happly).1
    obtain ⟨r₁, hr₁, hstatus₁, _⟩ := hheld₁
    have hle : r.leaseExpiresAt ≤ r₁.leaseExpiresAt := by
      have hstep := apply_step H happly
      rw [readClaim_eq] at hclaim hr₁
      rcases (hstep.claim_of_active H.inv hkeeps.1.ledger hclaim (by rw [hstatus]; rfl) hr₁).2 with
        rfl | ⟨_, h⟩
      · exact le_rfl
      · exact (h hstatus₁).2
    exact hle.trans (ih (apply_wellFormed H happly) hr₁ _ hrun (hkeeps.2 db₁ response happly)
      (hheld.2 db₁ response happly))

theorem run_completed (H : db.WellFormed) (hkeeps : EachStep apply KeepsRows db cmds)
    (hrun : run apply db cmds = .ok (db', responses)) (hclaim : readClaim db c = some r)
    (hcompleted : r.status = .completed) : readClaim db' c = some r := by
  refine (run_invariant_of_eachStep
    (I := fun db => db.WellFormed ∧ readClaim db c = some r) ?_ hrun hkeeps ⟨H, hclaim⟩).2
  intro db cmd db' response ⟨H, hclaim⟩ hkeeps happly
  refine ⟨apply_wellFormed H happly, ?_⟩
  rw [readClaim_eq] at hclaim ⊢
  exact (apply_step H happly).completed H.inv hkeeps.ledger hclaim hcompleted

/-- A sweep at a time that is not past the expiry leaves the claim alone. -/
theorem reclaim_keeps (H : db.WellFormed) (hclaim : readClaim db c = some r)
    (hlease : now ≤ r.leaseExpiresAt)
    (happly : apply db (.reclaimExpired now) = .ok (db', response)) :
    readClaim db' c = readClaim db c := by
  have hstep := apply_step H happly
  simp only [readClaim_eq] at hclaim ⊢
  obtain ⟨r', hclaim'⟩ := hstep.claim_isSome hclaim
  have hchange := hstep.claim hclaim'
  rw [hclaim] at hchange ⊢
  cases hchange with
  | kept => exact hclaim'
  | reclaimed hexpired => exact absurd hlease (not_le.mpr (Ledger.expired_lt hexpired))

theorem not_takenBack_of_eq (h : readClaim db' c = readClaim db c) : ¬ TakenBack db db' c := by
  intro ⟨r, r', hclaim, hclaimed, hclaim', hpending⟩
  rw [h, hclaim] at hclaim'
  cases hclaim'
  cases hclaimed.symm.trans hpending

/-- A renewal that succeeds finds the claim held and its lease not past, and leaves a lease that is
not past either. -/
theorem renewed_lease (H : db.WellFormed)
    (happly : apply db (.renewClaim c i ttl now) = .ok (db', .claimRenewed expiresAt)) :
    (∃ r, readClaim db c = some r ∧ r.HeldBy i ∧ now ≤ r.leaseExpiresAt) ∧
      ∃ r', readClaim db' c = some r' ∧ r'.HeldBy i ∧ now ≤ r'.leaseExpiresAt := by
  have hstep := apply_step H happly
  simp only [readClaim_eq]
  generalize hσ : db'.ledger = σ at hstep
  cases hstep with
  | @renewed _ r _ _ _ hclaim hheld hlease =>
    refine ⟨⟨r, hclaim, hheld, hlease⟩, r.renewed ttl now, ?_, hheld,
      hlease.trans (le_max_left ..)⟩
    simp [Ledger.renew]

/-- The lease laws at a state and everything that can follow it. -/
structure LeaseLaws (db : Database) : Prop where
  /-- The expiry never decreases while the claim stays Claimed by one instance. -/
  monotone : ∀ cmds db' c i r r', Tenure c i db cmds db' → readClaim db c = some r →
    readClaim db' c = some r' → r.leaseExpiresAt ≤ r'.leaseExpiresAt
  /-- A claim goes back to Pending only through its holder or a sweep past its expiry. -/
  takenBack : ∀ cmd db' response c r r', apply db cmd = .ok (db', response) →
    readClaim db c = some r → r.status = .claimed → readClaim db' c = some r' →
      r'.status = .pending → cmd = .releaseClaim c r.instanceId ∨
        ∃ now, cmd = .reclaimExpired now ∧ r.leaseExpiresAt < now
  /-- Where a renewal succeeds a sweep at the same time does not take the claim, neither instead of
  the renewal nor later in the tenure. -/
  renewal : ∀ c i ttl now db₁ expiresAt,
    apply db (.renewClaim c i ttl now) = .ok (db₁, .claimRenewed expiresAt) →
      (∀ db' response, apply db (.reclaimExpired now) = .ok (db', response) →
        ¬ TakenBack db db' c) ∧
      ∀ cmds db₂ db' response, Tenure c i db₁ cmds db₂ →
        apply db₂ (.reclaimExpired now) = .ok (db', response) → ¬ TakenBack db₂ db' c
  /-- Where a sweep takes the claim a renewal at the same time fails, instead of it or after it. -/
  sweep : ∀ c now db₁ response, apply db (.reclaimExpired now) = .ok (db₁, response) →
    TakenBack db db₁ c → ∀ i ttl,
      (∀ db' expiresAt, apply db (.renewClaim c i ttl now) ≠ .ok (db', .claimRenewed expiresAt)) ∧
      ∀ db' expiresAt, apply db₁ (.renewClaim c i ttl now) ≠ .ok (db', .claimRenewed expiresAt)
  /-- A Completed claim is never changed. -/
  final : ∀ cmds db' responses c r, EachStep apply KeepsRows db cmds →
    run apply db cmds = .ok (db', responses) → readClaim db c = some r →
      r.status = .completed → readClaim db' c = some r

/-- **Lease laws**, at every reachable state. -/
theorem lease_laws (H : Reachable db) : LeaseLaws db where
  monotone cmds db' c i r r' ht hclaim hclaim' := ht.lease_le H.wellFormed hclaim hclaim'
  takenBack cmd db' response c r r' happly hclaim hclaimed hclaim' hpending := by
    rw [readClaim_eq] at hclaim hclaim'
    have hchange := (apply_step H.wellFormed happly).claim hclaim'
    rw [hclaim] at hchange
    exact hchange.takesBack hclaimed hpending
  renewal c i ttl now db₁ expiresAt hrenew := by
    obtain ⟨⟨r, hclaim, _, hlease⟩, r₁, hclaim₁, _, hlease₁⟩ := renewed_lease H.wellFormed hrenew
    have hdb₁ := apply_wellFormed H.wellFormed hrenew
    refine ⟨fun db' response happly => ?_, fun cmds db₂ db' response ht happly => ?_⟩
    · exact not_takenBack_of_eq (reclaim_keeps H.wellFormed hclaim hlease happly)
    · have hdb₂ : db₂.WellFormed := by
        obtain ⟨_, hrun, _⟩ := ht
        exact run_wellFormed hdb₁ hrun
      obtain ⟨r₂, hclaim₂, _⟩ := ht.choose_spec.2.2.2
      have hlease₂ := hlease₁.trans (ht.lease_le hdb₁ hclaim₁ hclaim₂)
      exact not_takenBack_of_eq (reclaim_keeps hdb₂ hclaim₂ hlease₂ happly)
  sweep c now db₁ response hsweep htaken i ttl := by
    refine ⟨fun db' expiresAt hrenew => ?_, fun db' expiresAt hrenew => ?_⟩
    · obtain ⟨⟨r, hclaim, _, hlease⟩, _⟩ := renewed_lease H.wellFormed hrenew
      exact not_takenBack_of_eq (reclaim_keeps H.wellFormed hclaim hlease hsweep) htaken
    · have hdb₁ := apply_wellFormed H.wellFormed hsweep
      obtain ⟨⟨r, hclaim, hheld, _⟩, _⟩ := renewed_lease hdb₁ hrenew
      obtain ⟨_, r', _, _, hclaim', hpending⟩ := htaken
      cases hclaim.symm.trans hclaim'
      cases hheld.1.symm.trans hpending
  final cmds db' responses c r hkeeps hrun hclaim hcompleted :=
    run_completed H.wellFormed hkeeps hrun hclaim hcompleted

theorem lease_laws_claimed :
    ∃ db responses, run apply .empty
        [.registerMasterBatch 1 "orders" 1 [] 100 0,
          .claimRowRange 1 0 50 (.fromU128 1) (.fromU128 7) 10 0] = .ok (db, responses) ∧
      LeaseLaws db := by
  have hrun : run apply .empty
      [.registerMasterBatch 1 "orders" 1 [] 100 0,
        .claimRowRange 1 0 50 (.fromU128 1) (.fromU128 7) 10 0] = .ok (_, _) := rfl
  exact ⟨_, _, hrun, lease_laws ⟨_, _, hrun⟩⟩

/-- A claim id that comes back with other rows overwrites the Completed claim stored under it. -/
theorem completed_claim_overwritten :
    ∃ db responses db' response r, run apply .empty
        [.registerMasterBatch 1 "orders" 1 [] 100 0,
          .claimRowRange 1 0 50 (.fromU128 1) (.fromU128 7) 10 0,
          .ackClaim (.fromU128 1) (.fromU128 7)] = .ok (db, responses) ∧
      apply db (.claimRowRange 1 50 100 (.fromU128 1) (.fromU128 7) 10 0) = .ok (db', response) ∧
      readClaim db (.fromU128 1) = some r ∧ r.status = .completed ∧
      readClaim db' (.fromU128 1) ≠ some r :=
  ⟨_, _, _, _, _, rfl, rfl, rfl, rfl, by decide +kernel⟩

end Saci
