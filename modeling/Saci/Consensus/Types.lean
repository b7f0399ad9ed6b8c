import Saci.Library.BigEndian
import Saci.Core.Error

/-!
# Consensus commands and responses

The commands that are committed through Raft and applied to the state machine, and the answers
applying them gives (`consensus/types.rs`).
-/

namespace Saci

/-- A 128-bit identifier, through the sixteen bytes it is stored and ordered by. -/
structure Uuid where
  asBytes : Bytes
  length_asBytes : asBytes.length = 16

namespace Uuid

theorem asBytes_injective : Function.Injective asBytes := by
  rintro ⟨_, _⟩ ⟨_, _⟩ rfl; rfl

instance : LinearOrder Uuid := LinearOrder.lift' asBytes asBytes_injective

/-- The identifier with the given number as its big-endian value. -/
def fromU128 (n : Nat) : Uuid := ⟨beBytes 16 n, length_beBytes 16 n⟩

/-- `[0u8; 16]`, which stands for no instance. -/
def zero : Uuid := fromU128 0

def hexDigit (n : Nat) : Char := if n < 10 then Char.ofNat (48 + n) else Char.ofNat (87 + n)

def hex (l : Bytes) : String :=
  String.ofList (l.flatMap fun b => [hexDigit (b.toNat / 16), hexDigit (b.toNat % 16)])

/-- The hyphenated lower-case form the error messages print. -/
instance : ToString Uuid where
  toString u := "-".intercalate [hex (u.asBytes.take 4), hex ((u.asBytes.drop 4).take 2),
    hex ((u.asBytes.drop 6).take 2), hex ((u.asBytes.drop 8).take 2), hex (u.asBytes.drop 10)]

end Uuid

/-- Lifecycle state of a row-range claim. -/
inductive ClaimStatus
  | pending
  | claimed
  | completed
  deriving DecidableEq

/-- `matches!(status, ClaimStatus::Claimed | ClaimStatus::Completed)`: the rows are taken. -/
def ClaimStatus.active : ClaimStatus → Bool
  | .pending => false
  | .claimed | .completed => true

/-- A command that can be committed through Raft and applied to the state machine. Every clock
reading rides on the command. -/
inductive ConsensusCommand
  | registerMasterBatch (batchId : UInt64) (component : String) (schemaId : UInt32)
      (ipcBytes : Bytes) (totalRows : UInt32) (nowAtPropose : UInt64)
  | claimRowRange (batchId : UInt64) (rowRangeStart rowRangeEnd : UInt32)
      (claimId instanceId : Uuid) (leaseTtlMillis nowAtPropose : UInt64)
  | renewClaim (claimId instanceId : Uuid) (leaseTtlMillis nowAtPropose : UInt64)
  | ackClaim (claimId instanceId : Uuid)
  | releaseClaim (claimId instanceId : Uuid)
  | checkpoint (claimId : Uuid) (stageIdx : UInt32) (ipcBytes : Bytes) (schemaId : UInt32)
      (nowAtPropose : UInt64)
  | heartbeat (instanceId : Uuid) (at_ : UInt64)
  | reclaimExpired (nowAtPropose : UInt64)
  | poisonBatch (batchId nowAtPropose : UInt64)
  deriving DecidableEq

/-- What applying a `ConsensusCommand` answers. -/
inductive ConsensusResponse
  | masterBatchRegistered (batchId : UInt64)
  | batchClaimed (batchId : UInt64) (component : String) (rowRangeStart rowRangeEnd : UInt32)
      (schemaId : UInt32) (claimId instanceId : Uuid) (leaseExpiresAt : UInt64)
  | claimRenewed (expiresAt : UInt64)
  | claimAcked
  | claimReleased
  | checkpointWritten (checkpointId : UInt64)
  | heartbeatRecorded
  | noBatchAvailable
  | expiredReclaimed (reclaimedCount : UInt32)
  | batchPoisoned (batchId poisonedAt : UInt64)
  | error (message : String)
  deriving DecidableEq

end Saci
