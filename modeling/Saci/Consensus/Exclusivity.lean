import Mathlib
import Saci.Consensus.Steps
import Saci.Consensus.Refinement

/-! # Exclusive row ranges

Claim ids are minted per attempt, so a claim id names one row range of one batch for good
(`KeepsRows`). Then the secondary index is in lockstep with the claims, and the active claims of a
batch are disjoint at every point of every run. -/

namespace Saci

/-- The batch and rows a record claims. -/
def ClaimRecord.rows (r : ClaimRecord) : UInt64 × UInt32 × UInt32 :=
  (r.batchId, r.rowRangeStart, r.rowRangeEnd)

/-- The claim id of a `ClaimRowRange`, and the batch and rows it asks for. -/
def ConsensusCommand.claimedRows : ConsensusCommand → Option (Uuid × UInt64 × UInt32 × UInt32)
  | .claimRowRange b s e c _ _ _ => some (c, b, s, e)
  | _ => none

/-- Any two `ClaimRowRange` commands that carry the same claim id agree on batch and rows. -/
def ConsistentClaimIds (cmds : List ConsensusCommand) : Prop :=
  ∀ cmd ∈ cmds, ∀ cmd' ∈ cmds, ∀ x ∈ cmd.claimedRows, ∀ x' ∈ cmd'.claimedRows,
    x.1 = x'.1 → x.2 = x'.2

instance (cmds : List ConsensusCommand) : Decidable (ConsistentClaimIds cmds) :=
  inferInstanceAs (Decidable (∀ cmd ∈ cmds, ∀ cmd' ∈ cmds, ∀ x ∈ cmd.claimedRows,
    ∀ x' ∈ cmd'.claimedRows, x.1 = x'.1 → x.2 = x'.2))

/-- A `ClaimRowRange` whose claim id is stored asks for the rows stored under it. -/
def KeepsRows (db : Database) (cmd : ConsensusCommand) : Prop :=
  ∀ x ∈ cmd.claimedRows, ∀ r ∈ readClaim db x.1, r.rows = x.2

instance (db : Database) (cmd : ConsensusCommand) : Decidable (KeepsRows db cmd) :=
  inferInstanceAs (Decidable (∀ x ∈ cmd.claimedRows, ∀ r ∈ readClaim db x.1, r.rows = x.2))

/-- No span is left without its claim. -/
def Ledger.Filed (σ : Ledger) : Prop :=
  ∀ b c x, σ.span b c = some x → ∃ r, σ.claim c = some r ∧ r.batchId = b ∧
    x = (r.rowRangeStart, r.rowRangeEnd, r.status)

variable {db db' : Database}

/-- A record keeps its rows, or takes those the command asks for. -/
theorem Ledger.ClaimStep.rows (h : Ledger.ClaimStep σ c cmd old r') :
    (∃ r, old = some r ∧ r.rows = r'.rows) ∨ cmd.claimedRows = some (c, r'.rows) := by
  cases h with
  | claimed => exact .inr rfl
  | kept | renewed | acked | released | reclaimed => exact .inl ⟨_, rfl, rfl⟩

/-- Every claim record was asked for by a command of the run. -/
theorem claim_of_history (hrun : run apply .empty cmds = .ok (db, responses)) :
    ∀ c r, readClaim db c = some r → ∃ cmd ∈ cmds, cmd.claimedRows = some (c, r.rows) := by
  refine run_induction (P := fun done db => ∀ c r, readClaim db c = some r →
    ∃ cmd ∈ done, cmd.claimedRows = some (c, r.rows)) ?_ ?_ hrun
  · intro c r hclaim
    cases hclaim
  intro done cmd db db' response responses hrun ih happly c r' hclaim'
  have hstep := apply_step (run_wellFormed Database.empty_wellFormed hrun) happly
  rw [readClaim_eq] at hclaim'
  rcases (hstep.claim hclaim').rows with ⟨r, hclaim, hrows⟩ | hcmd
  · obtain ⟨cmd', hin, hcmd'⟩ := ih c r (by rw [readClaim_eq]; exact hclaim)
    exact ⟨cmd', List.mem_append_left _ hin, hrows ▸ hcmd'⟩
  · exact ⟨cmd, List.mem_append_right _ List.mem_cons_self, hcmd⟩

theorem ConsistentClaimIds.eachStep (H : ConsistentClaimIds cmds) :
    EachStep apply KeepsRows .empty cmds := by
  refine eachStep_of_history fun done cmd rest db responses heq hrun x hcmd r hclaim => ?_
  obtain ⟨cmd', hin, hcmd'⟩ := claim_of_history hrun x.1 r hclaim
  subst heq
  exact H cmd' (List.mem_append_left _ hin) cmd (by simp) _ hcmd' x hcmd rfl

namespace Ledger
variable {σ σ' : Ledger}

/-- A step that keeps the rows of its claim id leaves no span behind. -/
theorem Filed.step (H : σ.Filed) (hinv : σ.Inv) (hstep : σ.Step cmd response σ')
    (hkeeps : ∀ x ∈ cmd.claimedRows, ∀ r ∈ σ.claim x.1, r.rows = x.2) :
    σ'.Filed := by
  intro b c x hspan'
  have hinv' := hstep.inv hinv
  -- the record under the claim id is still filed under this batch, and `mirrored` does the rest
  suffices hbatch : ∃ r', σ'.claim c = some r' ∧ r'.batchId = b by
    obtain ⟨r', hclaim', rfl⟩ := hbatch
    cases (hinv'.mirrored hclaim').symm.trans hspan'
    exact ⟨r', hclaim', rfl, rfl⟩
  have hold : (∃ x, σ.span b c = some x) → ∃ r', σ'.claim c = some r' ∧ r'.batchId = b := by
    intro ⟨x, hspan⟩
    obtain ⟨r, hclaim, rfl, _⟩ := H b c x hspan
    obtain ⟨r', hclaim'⟩ := hstep.claim_isSome hclaim
    refine ⟨r', hclaim', ?_⟩
    rcases (hstep.claim hclaim').rows with ⟨r₀, hr₀, hrows⟩ | hcmd
    · cases hclaim.symm.trans hr₀
      exact (congrArg Prod.fst hrows).symm
    · exact (congrArg Prod.fst (hkeeps _ hcmd r hclaim)).symm
  generalize hspan : σ.span b c = old at hold
  have hchange := hstep.span hinv hspan'
  rw [hspan] at hchange
  cases hchange with
  | kept | acked | released | reclaimed => exact hold ⟨_, rfl⟩
  | claimed =>
    cases hstep with
    | refused | replayed => exact hold ⟨_, hspan.symm.trans hspan'⟩
    | claimed => exact ⟨_, by rw [file_claim, if_pos rfl], rfl⟩

theorem Filed.span_iff (H : σ.Filed) (hinv : σ.Inv) :
    σ.span b c = some x ↔ ∃ r, σ.claim c = some r ∧ r.batchId = b ∧
      x = (r.rowRangeStart, r.rowRangeEnd, r.status) := by
  refine ⟨H b c x, ?_⟩
  intro ⟨r, hclaim, hb, hx⟩
  rw [hx, ← hb]
  exact hinv.mirrored hclaim

end Ledger

theorem KeepsRows.ledger (h : KeepsRows db cmd) :
    ∀ x ∈ cmd.claimedRows, ∀ r ∈ db.ledger.claim x.1, r.rows = x.2 := by
  simpa only [KeepsRows, readClaim_eq] using h

theorem apply_filed (H : db.WellFormed) (hfiled : db.ledger.Filed) (hkeeps : KeepsRows db cmd)
    (happly : apply db cmd = .ok (db', response)) : db'.ledger.Filed :=
  hfiled.step H.inv (apply_step H happly) hkeeps.ledger

theorem run_filed (H : db.WellFormed) (hfiled : db.ledger.Filed)
    (hkeeps : EachStep apply KeepsRows db cmds) (hrun : run apply db cmds = .ok (db', responses)) :
    db'.ledger.Filed := by
  refine (run_invariant_of_eachStep (I := fun db => db.WellFormed ∧ db.ledger.Filed)
    (fun db cmd db' response H hkeeps happly => ?_) hrun hkeeps ⟨H, hfiled⟩).2
  exact ⟨apply_wellFormed H.1 happly, apply_filed H.1 H.2 hkeeps happly⟩

theorem empty_filed : Database.empty.ledger.Filed := by
  rw [Database.empty_ledger]
  exact fun _ _ _ h => nomatch h

/-! ## The index in lockstep -/

/-- Distinct active claims of one batch have disjoint rows. -/
def ExclusiveRows (db : Database) : Prop :=
  ∀ c c' r r', c ≠ c' → readClaim db c = some r → readClaim db c' = some r' →
    r.batchId = r'.batchId → r.status.active = true → r'.status.active = true →
    Disjoint (Set.Ico r.rowRangeStart r.rowRangeEnd) (Set.Ico r'.rowRangeStart r'.rowRangeEnd)

/-- The rows of the index are those of the claims: batch, row range and status. -/
def IndexLockstep (db : Database) : Prop :=
  ∀ k v, (openTable db.claimsByBatch).get k = some v ↔ ∃ c r, readClaim db c = some r ∧
    k = claimsByBatchKey r.batchId c ∧
      v = claimsByBatchValue r.rowRangeStart r.rowRangeEnd r.status

theorem disjoint_Ico {s e s' e' : UInt32} (h : e ≤ s' ∨ e' ≤ s) :
    Disjoint (Set.Ico s e) (Set.Ico s' e') := by
  rw [Set.disjoint_left]
  intro x ⟨hs, he⟩ ⟨hs', he'⟩
  rcases h with h | h <;> order

theorem Database.WellFormed.exclusiveRows (H : db.WellFormed) : ExclusiveRows db := by
  intro c c' r r' hne hclaim hclaim' hbatch hactive hactive'
  rw [readClaim_eq] at hclaim hclaim'
  have hspan := H.inv.mirrored hclaim
  rw [hbatch] at hspan
  exact disjoint_Ico (H.inv.exclusive hne hspan hactive (H.inv.mirrored hclaim') hactive')

theorem Database.WellFormed.indexLockstep (H : db.WellFormed) (hfiled : db.ledger.Filed) :
    IndexLockstep db := by
  have hdecode : ∀ b c s e st, (openTable db.claimsByBatch).get (claimsByBatchKey b c) =
      some (claimsByBatchValue s e st) → db.ledger.span b c = some (s, e, st) := by
    intro b c s e st hget
    rw [Database.ledger_span, indexSpan, hget]
    exact decodeClaimsByBatchValue_claimsByBatchValue ..
  intro k v
  constructor
  · intro hget
    obtain ⟨b, c, s, e, st, rfl, rfl⟩ := H.encoded k v hget
    obtain ⟨r, hclaim, rfl, hx⟩ := hfiled b c _ (hdecode b c s e st hget)
    cases hx
    exact ⟨c, r, by rw [readClaim_eq]; exact hclaim, rfl, rfl⟩
  · rintro ⟨c, r, hclaim, hk, hv⟩
    rw [readClaim_eq] at hclaim
    have hspan := H.inv.mirrored hclaim
    obtain ⟨v', hget, hdec⟩ := Option.bind_eq_some_iff.mp hspan
    obtain ⟨b, c', s, e, st, hkey, rfl⟩ := H.encoded _ v' hget
    rw [decodeClaimsByBatchValue_claimsByBatchValue] at hdec
    cases hdec
    rw [hk, hv]
    exact hget

/-- An index in lockstep holds no span without its claim. -/
theorem IndexLockstep.filed (H : IndexLockstep db) : db.ledger.Filed := by
  intro b c x hspan
  obtain ⟨v, hget, hdec⟩ := Option.bind_eq_some_iff.mp hspan
  obtain ⟨c', r, hclaim, hkey, rfl⟩ := (H _ v).mp hget
  obtain ⟨rfl, rfl⟩ := claimsByBatchKey_inj.mp hkey
  rw [decodeClaimsByBatchValue_claimsByBatchValue] at hdec
  exact ⟨r, by rw [← readClaim_eq]; exact hclaim, rfl, (Option.some.inj hdec).symm⟩

/-- **Exclusive claims.** Under claim ids that are minted per attempt, every run succeeds and leaves
the active claims of each batch disjoint, and the index in lockstep with the claims. -/
theorem run_exclusive_lockstep (hids : ConsistentClaimIds cmds) :
    ∃ db responses, run apply .empty cmds = .ok (db, responses) ∧
      ExclusiveRows db ∧ IndexLockstep db := by
  obtain ⟨db, responses, hrun, hdb⟩ := run_apply_total Database.empty_wellFormed cmds
  have hfiled := run_filed Database.empty_wellFormed empty_filed hids.eachStep hrun
  exact ⟨db, responses, hrun, hdb.exclusiveRows, hdb.indexLockstep hfiled⟩

theorem run_exclusive_lockstep_two_claims :
    ∃ db responses, run apply .empty
        [.registerMasterBatch 1 "orders" 1 [] 100 0,
          .claimRowRange 1 0 50 (.fromU128 1) (.fromU128 7) 10 0,
          .claimRowRange 1 50 100 (.fromU128 2) (.fromU128 8) 10 0,
          .ackClaim (.fromU128 1) (.fromU128 7)] = .ok (db, responses) ∧
      ExclusiveRows db ∧ IndexLockstep db :=
  run_exclusive_lockstep (by decide +kernel)

end Saci
