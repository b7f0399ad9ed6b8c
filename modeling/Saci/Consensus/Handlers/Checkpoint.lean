import Saci.Consensus.Handlers.Batch

/-!
# Checkpoint write handler

A stage checkpoint and the owning batch's `checkpoint_seq`, written in one transaction, with
content-hash idempotency (`handlers/checkpoint.rs`).
-/

namespace Saci

def applyCheckpoint (db : Database) (claimId : Uuid) (stageIdx : UInt32) (ipcBytes : Bytes)
    (schemaId : UInt32) (nowAtPropose : UInt64) : SaciResult (Database × ConsensusResponse) :=
  if MAX_LOG_ENTRY_BYTES ≤ ipcBytes.length then
    .ok (db, .error s!"Checkpoint ipc_bytes ({ipcBytes.length} bytes) exceeds MAX_LOG_ENTRY_BYTES ({MAX_LOG_ENTRY_BYTES})")
  else
    match db.claims with
    | none => .ok (db, .error s!"claim_id {claimId} not found (table missing)")
    | some claims =>
      match claims.get claimId with
      | none => .ok (db, .error s!"claim_id {claimId} not found")
      | some claim =>
        let contentHash := checkpointContentHash claimId stageIdx ipcBytes
        let record : CheckpointRecord :=
          { batchId := claim.batchId, stageIdx, ipcBytes, schemaId
            createdAt := nowAtPropose, contentHash }
        let key := checkpointKey claimId stageIdx
        let cpTable := openTable db.checkpoints
        let batchTable := openTable db.masterBatches
        if (cpTable.get key).any (fun existing => existing.contentHash = contentHash) then
          -- a duplicate: the current checkpoint_seq, and the transaction is dropped
          .ok (db, .checkpointWritten ((batchTable.get claim.batchId).elim 0 (·.checkpointSeq)))
        else
          let checkpoints := some (cpTable.insert key record)
          match batchTable.get claim.batchId with
          | none =>
            .ok ({ db with masterBatches := some batchTable, checkpoints }, .checkpointWritten 0)
          | some batch =>
            let seq := batch.checkpointSeq + 1
            .ok ({ db with
                    masterBatches :=
                      some (batchTable.insert claim.batchId { batch with checkpointSeq := seq })
                    checkpoints },
                  .checkpointWritten seq)

end Saci
