import Saci.Consensus.Records

/-!
# Master-batch handlers

Registration, poisoning and the `release_attempts` counter (`handlers/batch.rs`). A handler that
returns before its commit leaves the database as it was; one that commits has created every table
it opened for writing.
-/

namespace Saci

/-- 1 MiB. -/
def MAX_LOG_ENTRY_BYTES : Nat := 1024 * 1024

/-- The record a registration stores. -/
def MasterBatchRecord.registered (batchId : UInt64) (component : String) (schemaId : UInt32)
    (ipcBytes : Bytes) (totalRows : UInt32) (nowAtPropose : UInt64) : MasterBatchRecord where
  batchId
  component
  schemaId
  ipcBytes
  totalRows
  createdAt := nowAtPropose
  checkpointSeq := 0
  releaseAttempts := 0
  status := .active
  poisonedAt := none

def applyRegisterMasterBatch (db : Database) (batchId : UInt64) (component : String)
    (schemaId : UInt32) (ipcBytes : Bytes) (totalRows : UInt32) (nowAtPropose : UInt64) :
    SaciResult (Database × ConsensusResponse) :=
  if MAX_LOG_ENTRY_BYTES ≤ ipcBytes.length then
    .ok (db, .error s!"RegisterMasterBatch: ipc_bytes ({ipcBytes.length} bytes) exceeds MAX_LOG_ENTRY_BYTES ({MAX_LOG_ENTRY_BYTES})")
  else
    let record :=
      MasterBatchRecord.registered batchId component schemaId ipcBytes totalRows nowAtPropose
    .ok ({ db with
            masterBatches := some ((openTable db.masterBatches).insert batchId record)
            pendingBatches := some ((openTable db.pendingBatches).insert batchId ()) },
          .masterBatchRegistered batchId)

/-- Permanently disqualify a master batch. A batch that is already poisoned keeps the timestamp
of its first poisoning. -/
def applyPoisonBatch (db : Database) (batchId nowAtPropose : UInt64) :
    SaciResult (Database × ConsensusResponse) :=
  let table := openTable db.masterBatches
  match table.get batchId with
  | none =>
    .ok ({ db with masterBatches := some table },
          .error s!"PoisonBatch: batch_id {batchId} not found")
  | some record =>
    if record.status = .poisoned then
      .ok ({ db with masterBatches := some table },
            .batchPoisoned batchId (record.poisonedAt.getD nowAtPropose))
    else
      let record := { record with status := .poisoned, poisonedAt := some nowAtPropose }
      .ok ({ db with
              masterBatches := some (table.insert batchId record)
              pendingBatches := some ((openTable db.pendingBatches).remove batchId) },
            .batchPoisoned batchId nowAtPropose)

/-- `u32::saturating_add(1)`. -/
def saturatingSucc (n : UInt32) : UInt32 := if n.toNat + 1 < UInt32.size then n + 1 else n

/-- Count one more release attempt; a missing batch is a silent no-op. -/
def incrementReleaseAttempts (table : Table UInt64 MasterBatchRecord) (batchId : UInt64) :
    Table UInt64 MasterBatchRecord :=
  match table.get batchId with
  | none => table
  | some record =>
    table.insert batchId { record with releaseAttempts := saturatingSucc record.releaseAttempts }

/-- Start counting release attempts afresh; a missing batch is a silent no-op. -/
def resetReleaseAttempts (table : Table UInt64 MasterBatchRecord) (batchId : UInt64) :
    Table UInt64 MasterBatchRecord :=
  match table.get batchId with
  | none => table
  | some record =>
    if record.releaseAttempts ≠ 0 then table.insert batchId { record with releaseAttempts := 0 }
    else table

end Saci
