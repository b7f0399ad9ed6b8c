import Saci.Consensus.Refinement
import Saci.Consensus.Steps

/-! # Counting release attempts

`release_attempts` of a batch against a ghost count of the run: the claims of the batch that went
from Claimed back to Pending since its last acknowledgement or registration. -/

namespace Saci

namespace Ledger
variable {σ σ' : Ledger}

/-- The number of claims of the batch that a step takes from Claimed back to Pending. -/
noncomputable def takenBack (σ σ' : Ledger) (b : UInt64) : Nat :=
  Set.ncard {c | ∃ r r', σ.claim c = some r ∧ σ'.claim c = some r' ∧ r.batchId = b ∧
    r.status = .claimed ∧ r'.status = .pending}

/-- The step acknowledged a claim of the batch, or registered the batch. -/
def StartsAfresh (σ : Ledger) (cmd : ConsensusCommand) (response : ConsensusResponse)
    (b : UInt64) : Prop :=
  match cmd, response with
  | .ackClaim c _, .claimAcked => ∃ r, σ.claim c = some r ∧ r.batchId = b
  | .registerMasterBatch b' _ _ _ _ _, .masterBatchRegistered _ => b' = b
  | _, _ => False

theorem takenBack_eq_zero (h : ∀ c r r', σ.claim c = some r → σ'.claim c = some r' →
    r.status = .claimed → r'.status ≠ .pending) : σ.takenBack σ' b = 0 := by
  refine (congrArg Set.ncard (Set.eq_empty_of_forall_notMem ?_)).trans (Set.ncard_empty _)
  intro c ⟨r, r', hclaim, hclaim', _, hclaimed, hpending⟩
  exact h c r r' hclaim hclaim' hclaimed hpending

theorem takenBack_of_claim_eq (h : σ'.claim = σ.claim) : σ.takenBack σ' b = 0 := by
  refine takenBack_eq_zero fun c r r' hclaim hclaim' hclaimed hpending => ?_
  rw [h, hclaim] at hclaim'
  cases hclaim'
  cases hclaimed.symm.trans hpending

/-- Only a release and a sweep take claims back. -/
theorem Step.takenBack_eq_zero (hstep : σ.Step cmd response σ')
    (hrelease : ∀ c i, cmd ≠ .releaseClaim c i) (hreclaim : ∀ now, cmd ≠ .reclaimExpired now) :
    σ.takenBack σ' b = 0 := by
  refine Ledger.takenBack_eq_zero fun c r r' hclaim hclaim' hclaimed hpending => ?_
  have hchange := hstep.claim hclaim'
  rw [hclaim] at hchange
  rcases hchange.takesBack hclaimed hpending with h | ⟨now, h, _⟩
  · exact hrelease _ _ h
  · exact hreclaim _ h

theorem takenBack_release (hclaim : σ.claim c = some r) (hheld : r.HeldBy i) :
    σ.takenBack (σ.release c r) b = if b = r.batchId then 1 else 0 := by
  split_ifs with hb
  · rw [← Set.ncard_singleton c, takenBack]
    congr 1
    ext c'
    constructor
    · intro ⟨r₀, r', hclaim₀, hclaim', _, hclaimed, hpending⟩
      by_contra hne
      rw [release_claim, if_neg (show ¬ c' = c from hne), hclaim₀] at hclaim'
      cases hclaim'
      cases hclaimed.symm.trans hpending
    · intro hc
      cases hc
      refine ⟨r, r.released, hclaim, ?_, hb.symm, hheld.1, rfl⟩
      rw [release_claim, if_pos rfl]
  · refine (congrArg Set.ncard (Set.eq_empty_of_forall_notMem ?_)).trans (Set.ncard_empty _)
    intro c' ⟨r₀, r', hclaim₀, hclaim', hbatch, hclaimed, hpending⟩
    rw [release_claim] at hclaim'
    split_ifs at hclaim' with hc
    · cases hc
      cases hclaim.symm.trans hclaim₀
      exact hb hbatch.symm
    · cases hclaim₀.symm.trans hclaim'
      cases hclaimed.symm.trans hpending

theorem takenBack_reclaim (σ : Ledger) (now b : UInt64) :
    σ.takenBack (σ.reclaim now) b = σ.expiredIn now b := by
  rw [takenBack, expiredIn]
  congr 1
  ext c
  constructor
  · rintro ⟨r, r', hclaim, hclaim', hb, hclaimed, hpending⟩
    obtain ⟨r₀, hclaim₀, rfl⟩ := reclaim_claim_eq_some.mp hclaim'
    cases hclaim.symm.trans hclaim₀
    split_ifs at hpending with hexpired
    · exact ⟨r, hclaim, hexpired, hb⟩
    · cases hclaimed.symm.trans hpending
  · rintro ⟨r, hclaim, hexpired, hb⟩
    refine ⟨r, r.reclaimed, hclaim, reclaim_claim_eq_some.mpr ⟨r, hclaim, ?_⟩, hb,
      expired_status hexpired, rfl⟩
    rw [if_pos hexpired]

/-- **One step of the counter**: back to zero where the count starts afresh, else one more for each
claim taken back. -/
theorem Step.releaseAttempts (hstep : σ.Step cmd response σ') (hbatch' : σ'.batch b = some m') :
    (StartsAfresh σ cmd response b ∧ m'.releaseAttempts = 0) ∨
    ¬ StartsAfresh σ cmd response b ∧ ∃ m, σ.batch b = some m ∧
      m'.releaseAttempts = saturatingSucc^[σ.takenBack σ' b] m.releaseAttempts := by
  have hkept : ∀ m, σ.takenBack σ' b = 0 → σ.batch b = some m →
      m'.releaseAttempts = m.releaseAttempts → ∃ m, σ.batch b = some m ∧
        m'.releaseAttempts = saturatingSucc^[σ.takenBack σ' b] m.releaseAttempts := by
    intro m hzero hbatch hsame
    exact ⟨m, hbatch, by rw [hzero, hsame]; rfl⟩
  have hnone := hstep.takenBack_eq_zero (b := b)
  cases hstep with
  | refused =>
    exact .inr ⟨by cases cmd <;> exact id, hkept m' (takenBack_of_claim_eq rfl) hbatch' rfl⟩
  | replayed | claimed | renewed | poisonedAgain | duplicate | heartbeat =>
    exact .inr ⟨id, hkept m' (hnone (by rintro _ _ ⟨⟩) (by rintro _ ⟨⟩)) hbatch' rfl⟩
  | registered =>
    simp only [register, Function.update_apply] at hbatch'
    split_ifs at hbatch' with hb
    · cases hbatch'
      exact .inl ⟨Eq.symm hb, rfl⟩
    · exact .inr ⟨fun h => hb (Eq.symm h),
        hkept m' (hnone (by rintro _ _ ⟨⟩) (by rintro _ ⟨⟩)) hbatch' rfl⟩
  | @acked c r i hclaim hheld =>
    rw [ack_batch] at hbatch'
    obtain ⟨m, hm, rfl⟩ := Option.map_eq_some_iff.mp hbatch'
    split_ifs with hb
    · exact .inl ⟨⟨r, hclaim, hb.symm⟩, rfl⟩
    · refine .inr ⟨?_, m, hm, by rw [hnone (by rintro _ _ ⟨⟩) (by rintro _ ⟨⟩)]; rfl⟩
      rintro ⟨r', hclaim', hb'⟩
      cases hclaim.symm.trans hclaim'
      exact hb hb'.symm
  | @released c r i hclaim hheld =>
    rw [release_batch] at hbatch'
    obtain ⟨m, hm, rfl⟩ := Option.map_eq_some_iff.mp hbatch'
    refine .inr ⟨id, m, hm, ?_⟩
    rw [takenBack_release hclaim hheld]
    split_ifs <;> rfl
  | @reclaimed now =>
    rw [reclaim_batch] at hbatch'
    obtain ⟨m, hm, rfl⟩ := Option.map_eq_some_iff.mp hbatch'
    exact .inr ⟨id, m, hm, by rw [takenBack_reclaim]; rfl⟩
  | poisoned =>
    rw [poison_batch] at hbatch'
    obtain ⟨m, hm, rfl⟩ := Option.map_eq_some_iff.mp hbatch'
    refine .inr ⟨id, hkept m (hnone (by rintro _ _ ⟨⟩) (by rintro _ ⟨⟩)) hm ?_⟩
    split_ifs <;> rfl
  | checkpointed =>
    rw [writeCheckpoint_batch] at hbatch'
    obtain ⟨m, hm, rfl⟩ := Option.map_eq_some_iff.mp hbatch'
    refine .inr ⟨id, hkept m (hnone (by rintro _ _ ⟨⟩) (by rintro _ ⟨⟩)) hm ?_⟩
    split_ifs <;> rfl

end Ledger

theorem toNat_saturatingSucc (n : UInt32) :
    (saturatingSucc n).toNat = min (n.toNat + 1) (UInt32.size - 1) := by
  have hlt := n.toNat_lt_size
  rw [saturatingSucc]
  split_ifs with hfits
  · have hsum : (n + 1).toNat = n.toNat + 1 := (UInt32.toNat_add n 1).trans (Nat.mod_eq_of_lt hfits)
    omega
  · omega

theorem toNat_iterate_saturatingSucc (k : Nat) (n : UInt32) :
    (saturatingSucc^[k] n).toNat = min (n.toNat + k) (UInt32.size - 1) := by
  have hlt := n.toNat_lt_size
  induction k with
  | zero => simp only [Function.iterate_zero, id, Nat.add_zero]; omega
  | succ k ih =>
    rw [Function.iterate_succ_apply', toNat_saturatingSucc, ih]
    omega

variable {db db' : Database}

/-- The ghost count of a run: how many claims of the batch went from Claimed back to Pending since
the count last started afresh. -/
noncomputable def attemptsSince (b : UInt64) : Database → Nat → List ConsensusCommand → Nat
  | _, n, [] => n
  | db, n, cmd :: cmds =>
    match apply db cmd with
    | .error _ => n
    | .ok (db', response) =>
      open Classical in
      attemptsSince b db' (if db.ledger.StartsAfresh cmd response b then 0
        else n + db.ledger.takenBack db'.ledger b) cmds

theorem releaseAttempts_run (H : db.WellFormed) (n : Nat)
    (hcount : ∀ m, readMasterBatch db b = some m →
      m.releaseAttempts.toNat = min n (UInt32.size - 1))
    (hrun : run apply db cmds = .ok (db', responses)) (hbatch : readMasterBatch db' b = some m) :
    m.releaseAttempts.toNat = min (attemptsSince b db n cmds) (UInt32.size - 1) := by
  induction cmds generalizing db n responses with
  | nil =>
    obtain ⟨rfl, -⟩ := run_nil_eq_ok_iff.mp hrun
    exact hcount m hbatch
  | cons cmd cmds ih =>
    obtain ⟨db₁, response, responses', happly, hrun, -⟩ := run_cons_eq_ok_iff.mp hrun
    have hstep := apply_step H happly
    rw [attemptsSince, happly]
    refine ih (apply_wellFormed H happly) _ (fun m₁ hm₁ => ?_) hrun
    rw [readMasterBatch_eq] at hm₁
    rcases hstep.releaseAttempts hm₁ with ⟨hafresh, hzero⟩ | ⟨hnot, m₀, hm₀, hsum⟩
    · rw [if_pos hafresh, hzero]; rfl
    · rw [if_neg hnot, hsum, toNat_iterate_saturatingSucc,
        hcount m₀ (by rw [readMasterBatch_eq]; exact hm₀)]
      omega

/-- **The release-attempt counter** of a batch is the ghost count, saturating at `u32::MAX`; and a
release that finds its claim no longer Claimed counts nothing. -/
theorem releaseAttempts_eq_attemptsSince (cmds : List ConsensusCommand) :
    ∃ db responses, run apply .empty cmds = .ok (db, responses) ∧
      (∀ b m, readMasterBatch db b = some m →
        m.releaseAttempts.toNat = min (attemptsSince b .empty 0 cmds) (UInt32.size - 1)) ∧
      ∀ c i, (∀ r, readClaim db c = some r → r.status ≠ .claimed) →
        ∃ db' message, apply db (.releaseClaim c i) = .ok (db', .error message) ∧
          ∀ b, readMasterBatch db' b = readMasterBatch db b := by
  obtain ⟨db, responses, hrun, hdb⟩ := run_apply_total Database.empty_wellFormed cmds
  refine ⟨db, responses, hrun, fun b m hbatch => ?_, fun c i hnot => ?_⟩
  · refine releaseAttempts_run Database.empty_wellFormed 0 (fun m₀ hm₀ => ?_) hrun hbatch
    cases hm₀
  · obtain ⟨db', response, happly, _, hstep⟩ := apply_refines hdb (.releaseClaim c i)
    generalize hσ : db'.ledger = σ at hstep
    cases hstep with
    | refused =>
      refine ⟨db', _, happly, fun b => ?_⟩
      rw [readMasterBatch_eq, readMasterBatch_eq, hσ]
    | released hclaim hheld =>
      exact absurd hheld.1 (hnot _ (by rw [readClaim_eq]; exact hclaim))

end Saci
