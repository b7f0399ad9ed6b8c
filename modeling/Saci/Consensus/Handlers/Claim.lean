import Saci.Consensus.Handlers.Batch

/-!
# Claim lifecycle handlers

Acquire, renew, ack, release, reclaim and the per-instance heartbeat (`handlers/claim.rs`). These
handlers own `arrow_claims` and keep `arrow_claims_by_batch` in step with it.
-/

namespace Saci

/-- The loop of `has_batch_overlap`; it returns at the first taken row range it meets. -/
def overlapLoop (rowRangeStart rowRangeEnd : UInt32) : List (Bytes × Bytes) → SaciResult Bool
  | [] => .ok false
  | (_, v) :: rest =>
    match decodeClaimsByBatchValue v with
    | none => .error (.generic "claims_by_batch: malformed value (not 9 bytes)")
    | some (start, stop, status) =>
      if status.active && (rowRangeStart < stop && start < rowRangeEnd) then .ok true
      else overlapLoop rowRangeStart rowRangeEnd rest

/-- Whether the range overlaps a Claimed or Completed entry of the batch. -/
def hasBatchOverlap (table : Table Bytes Bytes) (batchId : UInt64)
    (rowRangeStart rowRangeEnd : UInt32) : SaciResult Bool :=
  overlapLoop rowRangeStart rowRangeEnd (batchEntries table batchId)

/-- The answer to a `ClaimRowRange` whose claim is already stored, if it is: the stored record
must name the same batch, rows and instance. -/
def idempotentReplay (db : Database) (batchId : UInt64) (rowRangeStart rowRangeEnd : UInt32)
    (claimId instanceId : Uuid) : SaciResult (Option ConsensusResponse) :=
  match db.claims.bind (·.get claimId) with
  | none => .ok none
  | some existing =>
    if existing.batchId = batchId ∧ existing.rowRangeStart = rowRangeStart ∧
        existing.rowRangeEnd = rowRangeEnd ∧ existing.instanceId = instanceId then
      match db.masterBatches with
      | none => .error (.generic "open batches (idempotency): table does not exist")
      | some table =>
        match table.get batchId with
        | none => .ok (some (.error s!"batch_id {batchId} not found on idempotent replay"))
        | some batch =>
          .ok (some (.batchClaimed batchId batch.component rowRangeStart rowRangeEnd batch.schemaId
            claimId instanceId existing.leaseExpiresAt))
    else .ok none

def overlapError (rowRangeStart rowRangeEnd : UInt32) : ConsensusResponse :=
  .error s!"row_range [{rowRangeStart}, {rowRangeEnd}) overlaps an existing active claim"

/-- The read-only precheck: the batch to claim from, or the early rejection. -/
def precheckClaim (db : Database) (batchId : UInt64) (rowRangeStart rowRangeEnd : UInt32) :
    SaciResult (ConsensusResponse ⊕ MasterBatchRecord) :=
  match db.masterBatches.bind (·.get batchId) with
  | none => .ok (.inl (.error s!"batch_id {batchId} not found"))
  | some batch =>
    if batch.totalRows < rowRangeEnd then
      .ok (.inl (.error s!"row_range [{rowRangeStart}, {rowRangeEnd}) exceeds total_rows {batch.totalRows}"))
    else
      match db.claimsByBatch with
      -- no table, so no claims exist and nothing can overlap
      | none => .ok (.inr batch)
      | some table =>
        match hasBatchOverlap table batchId rowRangeStart rowRangeEnd with
        | .error e => .error e
        | .ok true => .ok (.inl (overlapError rowRangeStart rowRangeEnd))
        | .ok false => .ok (.inr batch)

/-- The write transaction of `apply_claim_row_range`: the overlap check again, under the write
lock, and then the insert. `now_at_propose + lease_ttl_millis` wraps, as a release build does. -/
def confirmClaim (db : Database) (batch : MasterBatchRecord) (batchId : UInt64)
    (rowRangeStart rowRangeEnd : UInt32) (claimId instanceId : Uuid)
    (leaseTtlMillis nowAtPropose : UInt64) : SaciResult (Database × ConsensusResponse) :=
  let idxTable := openTable db.claimsByBatch
  match hasBatchOverlap idxTable batchId rowRangeStart rowRangeEnd with
  | .error e => .error e
  | .ok true => .ok (db, overlapError rowRangeStart rowRangeEnd)
  | .ok false =>
    let record : ClaimRecord :=
      { batchId, rowRangeStart, rowRangeEnd, instanceId
        leaseExpiresAt := nowAtPropose + leaseTtlMillis
        status := .claimed }
    .ok ({ db with
            claims := some ((openTable db.claims).insert claimId record)
            claimsByBatch := some (idxTable.insert (claimsByBatchKey batchId claimId)
              (claimsByBatchValue rowRangeStart rowRangeEnd .claimed)) },
          .batchClaimed batchId batch.component rowRangeStart rowRangeEnd batch.schemaId claimId
            instanceId record.leaseExpiresAt)

def applyClaimRowRange (db : Database) (batchId : UInt64) (rowRangeStart rowRangeEnd : UInt32)
    (claimId instanceId : Uuid) (leaseTtlMillis nowAtPropose : UInt64) :
    SaciResult (Database × ConsensusResponse) :=
  if rowRangeEnd ≤ rowRangeStart then
    .ok (db, .error s!"invalid row_range: start {rowRangeStart} >= end {rowRangeEnd}")
  else
    match idempotentReplay db batchId rowRangeStart rowRangeEnd claimId instanceId with
    | .error e => .error e
    | .ok (some response) => .ok (db, response)
    | .ok none =>
      match precheckClaim db batchId rowRangeStart rowRangeEnd with
      | .error e => .error e
      | .ok (.inl response) => .ok (db, response)
      | .ok (.inr batch) =>
        confirmClaim db batch batchId rowRangeStart rowRangeEnd claimId instanceId leaseTtlMillis
          nowAtPropose

def applyRenewClaim (db : Database) (claimId instanceId : Uuid)
    (leaseTtlMillis nowAtPropose : UInt64) : SaciResult (Database × ConsensusResponse) :=
  let table := openTable db.claims
  let opened := { db with claims := some table }
  match table.get claimId with
  | none => .ok (opened, .error s!"claim {claimId} not found")
  | some record =>
    if record.status ≠ .claimed then
      .ok (opened, .error s!"claim {claimId} is not in Claimed state")
    else if record.instanceId ≠ instanceId then
      .ok (opened, .error s!"claim {claimId} held by different instance")
    else if record.leaseExpiresAt < nowAtPropose then
      .ok (opened, .error s!"claim {claimId} lease has already expired")
    else
      -- the maximum keeps the expiry monotone against out-of-order proposals
      let expiresAt := max record.leaseExpiresAt (nowAtPropose + leaseTtlMillis)
      .ok ({ db with
              claims := some (table.insert claimId { record with leaseExpiresAt := expiresAt }) },
            .claimRenewed expiresAt)

/-- The loop of `apply_ack_claim` over the batch's index rows: are all of them Completed? -/
def allCompleteLoop : List (Bytes × Bytes) → SaciResult Bool
  | [] => .ok true
  | (_, v) :: rest =>
    match decodeClaimsByBatchValue v with
    | none => .error (.generic "claims_by_batch: malformed value (ack)")
    | some (_, _, status) => if status ≠ .completed then .ok false else allCompleteLoop rest

def applyAckClaim (db : Database) (claimId instanceId : Uuid) :
    SaciResult (Database × ConsensusResponse) :=
  let table := openTable db.claims
  let opened := { db with claims := some table }
  match table.get claimId with
  | none => .ok (opened, .error s!"claim {claimId} not found")
  | some record =>
    if record.status ≠ .claimed then
      .ok (opened, .error s!"claim {claimId} not in Claimed state")
    else if record.instanceId ≠ instanceId then
      .ok (opened, .error s!"claim {claimId} held by different instance")
    else
      let batchId := record.batchId
      let completed := { record with status := .completed, leaseExpiresAt := 0 }
      let idxTable := (openTable db.claimsByBatch).insert (claimsByBatchKey batchId claimId)
        (claimsByBatchValue record.rowRangeStart record.rowRangeEnd .completed)
      match allCompleteLoop (batchEntries idxTable batchId) with
      | .error e => .error e
      | .ok allComplete =>
        .ok ({ db with
                claims := some (table.insert claimId completed)
                claimsByBatch := some idxTable
                pendingBatches :=
                  if allComplete then some ((openTable db.pendingBatches).remove batchId)
                  else db.pendingBatches
                masterBatches :=
                  some (resetReleaseAttempts (openTable db.masterBatches) batchId) },
              .claimAcked)

def applyReleaseClaim (db : Database) (claimId instanceId : Uuid) :
    SaciResult (Database × ConsensusResponse) :=
  let table := openTable db.claims
  let opened := { db with claims := some table }
  match table.get claimId with
  | none => .ok (opened, .error s!"claim {claimId} not found")
  | some record =>
    if record.status ≠ .claimed then
      .ok (opened, .error s!"claim {claimId} not in Claimed state")
    else if record.instanceId ≠ instanceId then
      .ok (opened, .error s!"claim {claimId} held by different instance")
    else
      let batchId := record.batchId
      let released :=
        { record with status := .pending, leaseExpiresAt := 0, instanceId := Uuid.zero }
      .ok ({ db with
              claims := some (table.insert claimId released)
              claimsByBatch := some ((openTable db.claimsByBatch).insert
                (claimsByBatchKey batchId claimId)
                (claimsByBatchValue record.rowRangeStart record.rowRangeEnd .pending))
              masterBatches :=
                some (incrementReleaseAttempts (openTable db.masterBatches) batchId) },
            .claimReleased)

def applyHeartbeat (db : Database) (instanceId : Uuid) (at_ : UInt64) :
    SaciResult (Database × ConsensusResponse) :=
  .ok ({ db with
          instances := some ((openTable db.instances).insert instanceId { lastHeartbeatAt := at_ }) },
        .heartbeatRecorded)

/-- The claims a sweep at `nowAtPropose` takes back. -/
def ClaimRecord.expired (record : ClaimRecord) (nowAtPropose : UInt64) : Bool :=
  record.status = .claimed && record.leaseExpiresAt < nowAtPropose

/-- What a sweep stores for a claim it takes back; the instance stays on the record. -/
def ClaimRecord.reclaimed (record : ClaimRecord) : ClaimRecord :=
  { record with status := .pending, leaseExpiresAt := 0 }

/-- Sweep expired leases: `Claimed → Pending` for every claim with `lease_expires_at < now`. -/
def applyReclaimExpired (db : Database) (nowAtPropose : UInt64) :
    SaciResult (Database × ConsensusResponse) :=
  match db.claims with
  | none => .ok (db, .expiredReclaimed 0)
  | some table =>
    let expired := table.rows.filter fun row => row.2.expired nowAtPropose
    if expired.isEmpty then .ok (db, .expiredReclaimed 0)
    else
      .ok ({ db with
              claims := some (table.insertAll (fun row => row.1) (fun row => row.2.reclaimed) expired)
              claimsByBatch := some ((openTable db.claimsByBatch).insertAll
                (fun row => claimsByBatchKey row.2.batchId row.1)
                (fun row => claimsByBatchValue row.2.rowRangeStart row.2.rowRangeEnd .pending)
                expired)
              masterBatches := some ((expired.map fun row => row.2.batchId).foldl
                incrementReleaseAttempts (openTable db.masterBatches)) },
            .expiredReclaimed (UInt32.ofNat expired.length))

end Saci
