import Saci.Library.Run
import Saci.Consensus.Handlers.Claim
import Saci.Consensus.Handlers.Checkpoint
import Saci.Consensus.Queries
import Saci.Consensus.SnapshotIo

/-!
# The deterministic state machine

`apply` is the single entry point (`state_machine/mod.rs`). It is a function of the database and
the command, which is the module's determinism invariant.
-/

namespace Saci

def apply (db : Database) : ConsensusCommand → SaciResult (Database × ConsensusResponse)
  | .registerMasterBatch batchId component schemaId ipcBytes totalRows nowAtPropose =>
    applyRegisterMasterBatch db batchId component schemaId ipcBytes totalRows nowAtPropose
  | .claimRowRange batchId rowRangeStart rowRangeEnd claimId instanceId leaseTtlMillis
      nowAtPropose =>
    applyClaimRowRange db batchId rowRangeStart rowRangeEnd claimId instanceId leaseTtlMillis
      nowAtPropose
  | .renewClaim claimId instanceId leaseTtlMillis nowAtPropose =>
    applyRenewClaim db claimId instanceId leaseTtlMillis nowAtPropose
  | .ackClaim claimId instanceId => applyAckClaim db claimId instanceId
  | .releaseClaim claimId instanceId => applyReleaseClaim db claimId instanceId
  | .checkpoint claimId stageIdx ipcBytes schemaId nowAtPropose =>
    applyCheckpoint db claimId stageIdx ipcBytes schemaId nowAtPropose
  | .heartbeat instanceId at_ => applyHeartbeat db instanceId at_
  | .reclaimExpired nowAtPropose => applyReclaimExpired db nowAtPropose
  | .poisonBatch batchId nowAtPropose => applyPoisonBatch db batchId nowAtPropose

end Saci
