import Mathlib.Data.List.Sort
import Saci.Library.Span
import Saci.Consensus.Records

/-!
# Read-only queries

Point reads of the stored records and the scans that pick the next claimable row range
(`state_machine/queries.rs`).
-/

namespace Saci

def readMasterBatch (db : Database) (batchId : UInt64) : Option MasterBatchRecord :=
  db.masterBatches.bind (·.get batchId)

def readClaim (db : Database) (claimId : Uuid) : Option ClaimRecord :=
  db.claims.bind (·.get claimId)

def readCheckpoint (db : Database) (claimId : Uuid) (stageIdx : UInt32) :
    Option CheckpointRecord :=
  db.checkpoints.bind (·.get (checkpointKey claimId stageIdx))

/-- `u32::MAX - 1`. -/
def PROCESSOR_STATE_STAGE_SENTINEL : UInt32 := 0xFFFFFFFE

/-- The `schema_id` of the first persisted data checkpoint, in key order. -/
def findDataCheckpointSchemaId (db : Database) : Option UInt32 :=
  (openTable db.checkpoints).rows.findSome? fun row =>
    if row.2.stageIdx < PROCESSOR_STATE_STAGE_SENTINEL then some row.2.schemaId else none

/-- The loop of `find_first_pending_claim` that collects the occupied ranges of a batch. -/
def occupiedLoop : List (Bytes × Bytes) → SaciResult (List (UInt32 × UInt32))
  | [] => .ok []
  | (_, v) :: rest =>
    match decodeClaimsByBatchValue v with
    | none => .error (.generic "claims_by_batch: malformed value")
    | some (start, stop, status) =>
      match occupiedLoop rest with
      | .error e => .error e
      | .ok claimed => .ok (if status.active then (start, stop) :: claimed else claimed)

/-- `claimed.sort_by_key(|&(s, _)| s)`, a stable sort. -/
def sortByStart (claimed : List (UInt32 × UInt32)) : List (UInt32 × UInt32) :=
  claimed.insertionSort fun a b => a.1 ≤ b.1

/-- The first row range of the batch that no Claimed or Completed claim covers. -/
def findFirstPendingClaim (db : Database) (batchId : UInt64) :
    SaciResult (Option (UInt32 × UInt32)) :=
  match readMasterBatch db batchId with
  | none => .ok none
  | some batch =>
    match occupiedLoop (batchEntries (openTable db.claimsByBatch) batchId) with
    | .error e => .error e
    | .ok claimed =>
      if claimed.isEmpty then
        if 0 < batch.totalRows then .ok (some (0, batch.totalRows)) else .ok none
      else .ok (firstGap batch.totalRows 0 (sortByStart claimed))

/-- The number of index rows marked Completed; a row that does not decode is not counted. -/
def countCompletedClaims (db : Database) : Nat :=
  ((openTable db.claimsByBatch).rows.filter fun row =>
    (decodeClaimsByBatchValue row.2).any fun (_, _, status) => status = .completed).length

/-- The loop of `find_first_pending_batch` over the candidate batches. -/
def pendingBatchLoop (db : Database) :
    List UInt64 → SaciResult (Option (UInt64 × (UInt32 × UInt32)))
  | [] => .ok none
  | batchId :: rest =>
    match findFirstPendingClaim db batchId with
    | .error e => .error e
    | .ok (some range) => .ok (some (batchId, range))
    | .ok none => pendingBatchLoop db rest

/-- The first batch in the pending index that still has a claimable row range. -/
def findFirstPendingBatch (db : Database) : SaciResult (Option (UInt64 × (UInt32 × UInt32))) :=
  pendingBatchLoop db (openTable db.pendingBatches).keys

end Saci
