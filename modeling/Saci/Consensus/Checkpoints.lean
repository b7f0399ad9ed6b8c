import Saci.Consensus.Refinement
import Saci.Consensus.Steps

/-! # Checkpoint writes

What an answered `Checkpoint` leaves behind. The duplicate test compares a 64-bit hash of the claim,
the stage and the body, so it does not see the schema id, nor two bodies with one hash. -/

namespace Saci

/-- The body and schema id a reader of the stage gets. -/
def storedBody (db : Database) (c : Uuid) (stage : UInt32) : Option (Bytes × UInt32) :=
  (readCheckpoint db c stage).map fun k => (k.ipcBytes, k.schemaId)

/-- What a `Checkpoint` that was answered must have done: the reader gets its body and schema id,
`checkpoint_seq` grew by one exactly when what is stored changed, and a skipped write was a
duplicate. -/
structure CheckpointKept (db db' : Database) (c : Uuid) (stage : UInt32) (ipcBytes : Bytes)
    (schemaId : UInt32) : Prop where
  reads : storedBody db' c stage = some (ipcBytes, schemaId)
  counts : ∀ r m m', readClaim db c = some r → readMasterBatch db r.batchId = some m →
    readMasterBatch db' r.batchId = some m' →
      (m'.checkpointSeq.toNat = m.checkpointSeq.toNat + 1 ↔
        storedBody db' c stage ≠ storedBody db c stage)
  skips : db' = db → storedBody db c stage = some (ipcBytes, schemaId)

variable {db db' : Database}

theorem storedBody_eq (db : Database) (c : Uuid) (stage : UInt32) :
    storedBody db c stage =
      (db.ledger.checkpoint c stage).map fun k => (k.ipcBytes, k.schemaId) := by
  rw [storedBody, readCheckpoint_eq]

theorem toNat_add_one_iff (n : UInt64) : (n + 1).toNat = n.toNat + 1 ↔ n.toNat + 1 < UInt64.size := by
  have hlt := n.toNat_lt_size
  have hsum : (n + 1).toNat = (n.toNat + 1) % UInt64.size := UInt64.toNat_add n 1
  rw [hsum]
  constructor
  · intro h
    have := Nat.mod_lt (n.toNat + 1) (show 0 < UInt64.size by decide)
    omega
  · exact Nat.mod_eq_of_lt

/-- **Checkpoint writes.** An answered `Checkpoint` is kept exactly when the stored checkpoint of the
stage, if it has the hash of the new one, is the new one, and the counter of the batch has room for
a write. -/
theorem checkpointKept_iff (H : Reachable db)
    (happly : apply db (.checkpoint c stage ipcBytes schemaId now) =
      .ok (db', .checkpointWritten seq)) :
    CheckpointKept db db' c stage ipcBytes schemaId ↔
      (∀ k, readCheckpoint db c stage = some k →
        k.contentHash = checkpointContentHash c stage ipcBytes →
          k.ipcBytes = ipcBytes ∧ k.schemaId = schemaId) ∧
      ((∀ k, readCheckpoint db c stage = some k →
        k.contentHash ≠ checkpointContentHash c stage ipcBytes) →
          ∀ r m, readClaim db c = some r → readMasterBatch db r.batchId = some m →
            m.checkpointSeq.toNat + 1 < UInt64.size) := by
  have hstep := apply_step H.wellFormed happly
  simp only [readCheckpoint_eq, readClaim_eq, readMasterBatch_eq]
  generalize hσ : db'.ledger = σ at hstep
  cases hstep with
  | @checkpointed _ r m _ _ _ _ hlen hclaim hbatch hnew =>
    have hstored : storedBody db' c stage = some (ipcBytes, schemaId) := by
      rw [storedBody_eq, hσ]
      simp [Ledger.writeCheckpoint, CheckpointRecord.written]
    have hchanged : storedBody db' c stage ≠ storedBody db c stage := by
      rw [hstored, storedBody_eq]
      intro heq
      obtain ⟨k, hk, hbody⟩ := Option.map_eq_some_iff.mp heq.symm
      -- a checkpoint carries the hash of its own body
      refine hnew k hk ?_
      rw [H.inv.hashed hk, (Prod.mk.inj hbody).1]
    have hseq : ∀ m', readMasterBatch db' r.batchId = some m' →
        m'.checkpointSeq = m.checkpointSeq + 1 := by
      intro m' hm'
      rw [readMasterBatch_eq, hσ] at hm'
      simp only [Ledger.writeCheckpoint, CheckpointRecord.written, Function.update_self, hbatch,
        Option.map_some, Option.some.injEq] at hm'
      rw [← hm']; rfl
    have hskips : db' ≠ db := by
      intro heq
      rw [heq] at hchanged
      exact hchanged rfl
    constructor
    · intro hkept
      refine ⟨fun k hk hhash => absurd hhash (hnew k hk), fun _ r' m₀ hclaim' hbatch' => ?_⟩
      cases hclaim.symm.trans hclaim'
      cases hbatch.symm.trans hbatch'
      obtain ⟨m', hm'⟩ := (apply_step H.wellFormed happly).batch_isSome hbatch
      rw [← readMasterBatch_eq] at hm'
      have hcount := (hkept.counts r m m' (by rw [readClaim_eq]; exact hclaim)
        (by rw [readMasterBatch_eq]; exact hbatch) hm').mpr hchanged
      rw [hseq m' hm'] at hcount
      exact (toNat_add_one_iff _).mp hcount
    · rintro ⟨_, hroom⟩
      refine ⟨hstored, fun r' m₀ m' hclaim' hbatch' hm' => ?_, fun heq => absurd heq hskips⟩
      rw [readClaim_eq] at hclaim'
      cases hclaim.symm.trans hclaim'
      rw [readMasterBatch_eq] at hbatch'
      cases hbatch.symm.trans hbatch'
      refine iff_of_true ?_ hchanged
      rw [hseq m' hm']
      exact (toNat_add_one_iff _).mpr (hroom hnew r m hclaim hbatch)
  | @duplicate _ _ _ _ k _ _ _ hlen hclaim hbatch hstored hhash =>
    have hbody : ∀ db₀ : Database, db₀.ledger = db.ledger →
        storedBody db₀ c stage = some (k.ipcBytes, k.schemaId) := by
      intro db₀ hledger
      rw [storedBody_eq, hledger, hstored]; rfl
    constructor
    · intro hkept
      have hsame := (hbody db' hσ).symm.trans hkept.reads
      refine ⟨fun k' hk' _ => ?_, fun hnew => absurd hhash (hnew k hstored)⟩
      cases hstored.symm.trans hk'
      exact Prod.mk.inj (Option.some.inj hsame)
    · rintro ⟨hsame, _⟩
      obtain ⟨hipc, hschema⟩ := hsame k hstored hhash
      rw [hipc, hschema] at hbody
      refine ⟨hbody db' hσ, fun r m m' _ hm hm' => ?_, fun _ => hbody db rfl⟩
      rw [readMasterBatch_eq] at hm hm'
      rw [hσ, hm] at hm'
      cases hm'
      refine iff_of_false (by omega) ?_
      rw [hbody db' hσ, hbody db rfl]
      exact fun h => h rfl

theorem checkpointKept_iff_first_write :
    ∃ db responses db' seq, run apply .empty
        [.registerMasterBatch 1 "orders" 1 [] 100 0,
          .claimRowRange 1 0 50 (.fromU128 1) (.fromU128 7) 10 0] = .ok (db, responses) ∧
      apply db (.checkpoint (.fromU128 1) 3 [1, 2] 5 0) = .ok (db', .checkpointWritten seq) ∧
      (CheckpointKept db db' (.fromU128 1) 3 [1, 2] 5 ↔
        (∀ k, readCheckpoint db (.fromU128 1) 3 = some k →
          k.contentHash = checkpointContentHash (.fromU128 1) 3 [1, 2] →
            k.ipcBytes = [1, 2] ∧ k.schemaId = 5) ∧
        ((∀ k, readCheckpoint db (.fromU128 1) 3 = some k →
          k.contentHash ≠ checkpointContentHash (.fromU128 1) 3 [1, 2]) →
            ∀ r m, readClaim db (.fromU128 1) = some r → readMasterBatch db r.batchId = some m →
              m.checkpointSeq.toNat + 1 < UInt64.size)) := by
  have hrun : run apply .empty
      [.registerMasterBatch 1 "orders" 1 [] 100 0,
        .claimRowRange 1 0 50 (.fromU128 1) (.fromU128 7) 10 0] = .ok (_, _) := rfl
  exact ⟨_, _, _, _, hrun, rfl, checkpointKept_iff ⟨_, _, hrun⟩ rfl⟩

/-- The same body under another schema id is taken for a duplicate: the reader keeps getting the
first schema id. -/
theorem checkpoint_not_kept :
    ∃ db responses db', run apply .empty
        [.registerMasterBatch 1 "orders" 1 [] 100 0,
          .claimRowRange 1 0 50 (.fromU128 1) (.fromU128 7) 10 0,
          .checkpoint (.fromU128 1) 3 [1, 2] 5 0] = .ok (db, responses) ∧
      apply db (.checkpoint (.fromU128 1) 3 [1, 2] 6 0) = .ok (db', .checkpointWritten 1) ∧
      ¬ CheckpointKept db db' (.fromU128 1) 3 [1, 2] 6 := by
  refine ⟨_, _, _, rfl, rfl, ?_⟩
  intro hkept
  have hreads := hkept.reads
  revert hreads
  decide +kernel

end Saci
