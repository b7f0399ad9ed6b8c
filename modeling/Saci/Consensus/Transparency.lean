import Saci.Consensus.Gaps
import Saci.Consensus.Reopened
import Saci.Consensus.Snapshot

/-! # Snapshot transparency

A replica restored from a dump differs from the one that kept its state in the pending index alone,
which lists every batch. The difference cannot be seen on a batch that is done for good
(`Ledger.Solid`), and the two replicas then answer every later command and query alike. -/

namespace Saci

namespace Ledger
variable {σ σ' : Ledger}

/-- Every row of the batch in reach lies in a Completed span. -/
def Solid (σ : Ledger) (b : UInt64) : Prop :=
  ∀ x, σ.InReach b x → ∃ c s e, σ.span b c = some (s, e, .completed) ∧ s ≤ x ∧ x < e

theorem Solid.not_hasGap (H : σ.Solid b) : ¬ σ.HasGap b := by
  rw [hasGap_iff]
  intro ⟨x, hfree, hreach⟩
  obtain ⟨c, s, e, hspan, hrow⟩ := H x hreach
  exact hfree ⟨c, s, e, .completed, hspan, rfl, hrow⟩

/-- A batch that is done stays so until it is registered again. -/
theorem Solid.step (H : σ.Solid b) (hinv : σ.Inv) (hstep : σ.Step cmd response σ')
    (hregisters : ¬ cmd.Registers b) : σ'.Solid b := by
  intro x hreach'
  obtain ⟨c, s, e, hspan, hrow⟩ := H x (hstep.inReach hinv H.not_hasGap hregisters hreach')
  obtain ⟨x', hspan'⟩ := hstep.span_isSome hspan
  have hchange := hstep.span hinv hspan'
  rw [hspan] at hchange
  cases hchange with
  | kept => exact ⟨c, s, e, hspan', hrow⟩
  | claimed hclaimable => exact absurd hclaimable.hasGap H.not_hasGap

end Ledger

variable {db db' : Database} {pending : Table UInt64 Unit} {smMeta : Option (Table String Bytes)}

/-! ## Queries of a reopened replica -/

theorem findFirstPendingClaim_reopened (b : UInt64) :
    findFirstPendingClaim (db.reopened pending smMeta) b = findFirstPendingClaim db b := by
  unfold findFirstPendingClaim
  rw [readMasterBatch_eq, readMasterBatch_eq]
  rfl

/-- The pending indexes agree on every batch that is not done. -/
def PendingAgrees (db : Database) (pending : Table UInt64 Unit) : Prop :=
  ∀ b, pending.get b = (openTable db.pendingBatches).get b ∨ db.ledger.Solid b

theorem findFirstPendingBatch_reopened (H : db.WellFormed)
    (H' : (db.reopened pending smMeta).WellFormed) (hagree : PendingAgrees db pending) :
    findFirstPendingBatch (db.reopened pending smMeta) = findFirstPendingBatch db := by
  have hgaps : ∀ b, (db.reopened pending smMeta).ledger.HasGap b ↔ db.ledger.HasGap b :=
    fun _ => .rfl
  have hoffered : ∀ b, db.ledger.HasGap b →
      (b ∈ (db.reopened pending smMeta).ledger.pending ↔ b ∈ db.ledger.pending) := by
    intro b hgap
    have heq := (hagree b).resolve_right fun hsolid => hsolid.not_hasGap hgap
    rw [Database.mem_ledger_pending, Database.mem_ledger_pending, ← heq]
    rfl
  cases hfind : findFirstPendingBatch db with
  | error e =>
    rcases findFirstPendingBatch_spec H with ⟨heq, _⟩ | ⟨_, _, _, _, heq, _⟩
    · cases hfind.symm.trans heq
    · cases hfind.symm.trans heq
  | ok answer =>
    cases answer with
    | none =>
      rw [findFirstPendingBatch_eq_none_iff H']
      intro b hb hgap
      have hnone := (findFirstPendingBatch_eq_none_iff H).mp hfind
      exact hnone b ((hoffered b hgap).mp hb) hgap
    | some answer =>
      obtain ⟨b, lo, hi⟩ := answer
      obtain ⟨hb, hgap, hfirst⟩ := (findFirstPendingBatch_answers_iff H b).mp ⟨lo, hi, hfind⟩
      have hfirst' : ∀ b' ∈ (db.reopened pending smMeta).ledger.pending, b' < b →
          ¬ (db.reopened pending smMeta).ledger.HasGap b' :=
        fun b' hb' hlt hgap' => hfirst b' ((hoffered b' hgap').mp hb') hlt hgap'
      obtain ⟨lo', hi', hfind'⟩ := (findFirstPendingBatch_answers_iff H' b).mpr
        ⟨(hoffered b hgap).mpr hb, hgap, hfirst'⟩
      have hclaim := findFirstPendingBatch_claim hfind'
      rw [findFirstPendingClaim_reopened, findFirstPendingBatch_claim hfind] at hclaim
      cases hclaim
      exact hfind'

/-- The queries of the two databases answer alike. -/
structure SameAnswers (db db' : Database) : Prop where
  pendingBatch : findFirstPendingBatch db' = findFirstPendingBatch db
  pendingClaim : ∀ b, findFirstPendingClaim db' b = findFirstPendingClaim db b
  masterBatch : ∀ b, readMasterBatch db' b = readMasterBatch db b
  claim : ∀ c, readClaim db' c = readClaim db c
  checkpoint : ∀ c stage, readCheckpoint db' c stage = readCheckpoint db c stage
  dataSchema : findDataCheckpointSchemaId db' = findDataCheckpointSchemaId db
  completed : countCompletedClaims db' = countCompletedClaims db
  dump : dumpState db' = dumpState db

theorem sameAnswers_reopened (H : db.WellFormed) (H' : (db.reopened pending smMeta).WellFormed)
    (hagree : PendingAgrees db pending) : SameAnswers db (db.reopened pending smMeta) where
  pendingBatch := findFirstPendingBatch_reopened H H' hagree
  pendingClaim := findFirstPendingClaim_reopened
  masterBatch b := by rw [readMasterBatch_eq, readMasterBatch_eq]; rfl
  claim c := by rw [readClaim_eq, readClaim_eq]; rfl
  checkpoint c stage := by rw [readCheckpoint_eq, readCheckpoint_eq]; rfl
  dataSchema := rfl
  completed := rfl
  dump := rfl

/-! ## Restored replicas -/

/-- The replica differs from the database in the pending index alone, and only on batches that are
done. -/
def Mirrors (smMeta : Option (Table String Bytes)) (db replica : Database) : Prop :=
  db.WellFormed ∧ replica.WellFormed ∧ db.claims.isSome ∧
    ∃ pending, replica = db.reopened pending smMeta ∧ PendingAgrees db pending

theorem Mirrors.step (H : Mirrors smMeta db replica) (happly : apply db cmd = .ok (db', response)) :
    ∃ replica', apply replica cmd = .ok (replica', response) ∧ Mirrors smMeta db' replica' := by
  obtain ⟨hdb, hreplica, hclaims, pending, rfl, hagree⟩ := H
  have hboth : Follows db cmd pending smMeta _ _ := apply_follows hdb hclaims cmd
  obtain ⟨db'', response', pending', heq, heq', hclaims', hfollows⟩ := hboth
  cases happly.symm.trans heq
  refine ⟨_, heq', apply_wellFormed hdb heq, apply_wellFormed hreplica heq', hclaims', pending',
    rfl, fun b => ?_⟩
  by_cases hregisters : cmd.Registers b
  · exact .inl (hfollows b (.inl hregisters))
  · rcases hagree b with hsame | hsolid
    · exact .inl (hfollows b (.inr hsame))
    · exact .inr (hsolid.step hdb.inv (apply_step hdb heq) hregisters)

/-- The state comes back from its dump: the claims table is there, the index is in lockstep with
it, and a batch that is not offered is done. -/
structure Restorable (db : Database) : Prop where
  opened : db.claims.isSome
  lockstep : IndexLockstep db
  done : ∀ b m, readMasterBatch db b = some m → b ∉ db.ledger.pending → db.ledger.Solid b

/-- An index in lockstep with the claims is rebuilt from their dump. -/
theorem insertAll_claimsByBatch (H : IndexLockstep db) :
    (∅ : Table Bytes Bytes).insertAll (fun row => claimsByBatchKey row.2.batchId row.1)
      (fun row => claimsByBatchValue row.2.rowRangeStart row.2.rowRangeEnd row.2.status)
      (dumpState db).claims = openTable db.claimsByBatch := by
  have hrows : ∀ c r, (c, r) ∈ (dumpState db).claims ↔ readClaim db c = some r := by
    intro c r
    rw [readClaim_eq]
    exact Table.get_eq_some_iff.symm
  refine Table.ext_get fun k => ?_
  cases hget : (openTable db.claimsByBatch).get k with
  | some v =>
    obtain ⟨c, r, hclaim, rfl, rfl⟩ := (H k v).mp hget
    exact Table.get_insertAll_of_mem
      (fun row : Uuid × ClaimRecord => claimsByBatchKey row.2.batchId row.1)
      (fun row => claimsByBatchValue row.2.rowRangeStart row.2.rowRangeEnd row.2.status)
      (claimsByBatchKey_nodup (openTable db.claims).keys_nodup) ((hrows c r).mpr hclaim)
  | none =>
    refine Table.get_insertAll_of_forall_ne _ _ fun (c, r) hrow hkey => ?_
    have hsome := (H k _).mpr ⟨c, r, (hrows c r).mp hrow, hkey.symm, rfl⟩
    cases hget.symm.trans hsome

theorem restoreState_eq_reopened (H : db.WellFormed) (hindex : IndexLockstep db) (into : Database)
    (watermarks : Option (Bytes × Bytes)) :
    restoreState into (dumpState db) watermarks = db.reopened
      ((∅ : Table UInt64 Unit).insertAll (·.batchId) (fun _ => ()) (dumpState db).batches)
      (restoreState into (dumpState db) watermarks).smMeta := by
  have hclaims : (∅ : Table _ _).insertAll (·.1) (·.2) (dumpState db).claims =
      openTable db.claims := Table.insertAll_rows _
  have hcheckpoints : (∅ : Table _ _).insertAll (·.1) (·.2) (dumpState db).checkpoints =
      openTable db.checkpoints := Table.insertAll_rows _
  have hinstances : (∅ : Table _ _).insertAll (·.1) (·.2) (dumpState db).instances =
      openTable db.instances := Table.insertAll_rows _
  simp only [restoreState, Database.reopened, insertAll_batches H, hclaims,
    insertAll_claimsByBatch hindex, hcheckpoints, hinstances]

/-- A restored replica mirrors a state that comes back from its dump. -/
theorem restoreState_mirrors (H : db.WellFormed) (hrestorable : Restorable db) (into : Database)
    (watermarks : Option (Bytes × Bytes)) :
    Mirrors (restoreState into (dumpState db) watermarks).smMeta db
      (restoreState into (dumpState db) watermarks) := by
  refine ⟨H, restoreState_wellFormed H into watermarks, hrestorable.opened, _,
    restoreState_eq_reopened H hrestorable.lockstep into watermarks, fun b => ?_⟩
  have hlisted := mem_insertAll_pending H b
  by_cases hb : b ∈ db.ledger.pending
  · obtain ⟨u, hu⟩ := hlisted.mpr (H.inv.listed hb)
    obtain ⟨u', hu'⟩ := hb
    exact .inl (hu.trans hu'.symm)
  · cases hbatch : db.ledger.batch b with
    | some m =>
      rw [← readMasterBatch_eq] at hbatch
      exact .inr (hrestorable.done b m hbatch hb)
    | none =>
      refine .inl ?_
      have hnone : (openTable db.pendingBatches).get b = none :=
        Option.eq_none_iff_forall_ne_some.mpr fun u hu => hb ⟨u, hu⟩
      rw [hnone]
      refine Option.eq_none_iff_forall_ne_some.mpr fun u hu => ?_
      obtain ⟨m, hm⟩ := hlisted.mp ⟨u, hu⟩
      cases hbatch.symm.trans hm

/-- A replica restored from the dump of the database answers every later command, and every query
after them, as the database does. -/
def Transparent (db into : Database) (watermarks : Option (Bytes × Bytes)) : Prop :=
  ∀ cmds : List ConsensusCommand, ∃ db' replica' responses,
    run apply db cmds = .ok (db', responses) ∧
      run apply (restoreState into (dumpState db) watermarks) cmds = .ok (replica', responses) ∧
        SameAnswers db' replica'

theorem transparent_of_restorable (H : db.WellFormed) (hrestorable : Restorable db)
    (into : Database) (watermarks : Option (Bytes × Bytes)) : Transparent db into watermarks := by
  intro cmds
  obtain ⟨db', responses, hrun, _⟩ := run_apply_total H cmds
  obtain ⟨replica', hrun', hmirrors⟩ := run_simulation
    (fun _ _ _ _ _ H happly => H.step happly)
    (restoreState_mirrors H hrestorable into watermarks) hrun
  obtain ⟨hdb', hreplica', _, pending, rfl, hagree⟩ := hmirrors
  exact ⟨db', _, responses, hrun, hrun', sameAnswers_reopened hdb' hreplica' hagree⟩

end Saci
