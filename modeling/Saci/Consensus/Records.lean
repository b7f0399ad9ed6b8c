import Mathlib.Data.String.Basic
import Saci.Library.Table
import Saci.Consensus.Keys

/-!
# Tables and stored records

Every table of the state machine and the records it holds (`state_machine/records.rs`). A table
stores its records decoded. `arrow_claims_by_batch` is the exception: its packed keys and values
are what the range scans and their error paths are about.
-/

namespace Saci

/-- Eligibility status of a master batch. -/
inductive BatchStatus
  | active
  | poisoned
  deriving DecidableEq

/-- Stored master batch record. -/
structure MasterBatchRecord where
  batchId : UInt64
  component : String
  schemaId : UInt32
  ipcBytes : Bytes
  totalRows : UInt32
  createdAt : UInt64
  /-- Next checkpoint counter, incremented on each successful Checkpoint apply. -/
  checkpointSeq : UInt64
  /-- Consecutive release-attempt counter. -/
  releaseAttempts : UInt32 := 0
  status : BatchStatus := .active
  poisonedAt : Option UInt64 := none
  deriving DecidableEq

/-- Stored claim record. -/
structure ClaimRecord where
  batchId : UInt64
  rowRangeStart : UInt32
  rowRangeEnd : UInt32
  instanceId : Uuid
  leaseExpiresAt : UInt64
  status : ClaimStatus
  deriving DecidableEq

/-- Stored checkpoint record. -/
structure CheckpointRecord where
  batchId : UInt64
  stageIdx : UInt32
  ipcBytes : Bytes
  schemaId : UInt32
  createdAt : UInt64
  contentHash : UInt64
  deriving DecidableEq

/-- Per-instance heartbeat record. -/
structure InstanceRecord where
  lastHeartbeatAt : UInt64
  deriving DecidableEq

/-- The application database; a table is `none` until a write transaction first opens it. -/
structure Database where
  masterBatches : Option (Table UInt64 MasterBatchRecord) := none
  claims : Option (Table Uuid ClaimRecord) := none
  claimsByBatch : Option (Table Bytes Bytes) := none
  checkpoints : Option (Table CheckpointKey CheckpointRecord) := none
  instances : Option (Table Uuid InstanceRecord) := none
  pendingBatches : Option (Table UInt64 Unit) := none
  smMeta : Option (Table String Bytes) := none
  deriving DecidableEq

/-- The database in which no table has been opened. -/
def Database.empty : Database := {}

/-- `WriteTransaction::open_table`, which creates the table when it is missing. -/
def openTable {κ ν : Type} [LinearOrder κ] (t : Option (Table κ ν)) : Table κ ν := t.getD ∅

@[simp] theorem openTable_none {κ ν : Type} [LinearOrder κ] :
    openTable (none : Option (Table κ ν)) = ∅ := rfl

@[simp] theorem openTable_some {κ ν : Type} [LinearOrder κ] (t : Table κ ν) :
    openTable (some t) = t := rfl

/-- A read transaction sees a missing table as an empty one. -/
@[simp] theorem bind_get {κ ν : Type} [LinearOrder κ] (t : Option (Table κ ν)) (k : κ) :
    (t.bind fun table => table.get k) = (openTable t).get k := by
  cases t <;> rfl

/-- The index rows of one batch, in key order. -/
def batchEntries (table : Table Bytes Bytes) (batchId : UInt64) : List (Bytes × Bytes) :=
  match batchRangeEnd batchId with
  | some hi => table.range (batchRangeStart batchId) hi
  | none => table.rangeFrom (batchRangeStart batchId)

/-- The range scan of a batch sees a claim's row exactly when it was filed under that batch. -/
theorem mem_batchEntries {table : Table Bytes Bytes} {b b' : UInt64} {c : Uuid} {v : Bytes} :
    (claimsByBatchKey b' c, v) ∈ batchEntries table b ↔
      table.get (claimsByBatchKey b' c) = some v ∧ b' = b := by
  unfold batchEntries
  split
  · next hi h =>
    rw [Table.mem_range, batchRangeStart_le_claimsByBatchKey, claimsByBatchKey_lt_batchRangeEnd h]
    exact and_congr_right fun _ => ⟨fun ⟨h₁, h₂⟩ => le_antisymm h₂ h₁, by rintro rfl; simp⟩
  · next h =>
    rw [Table.mem_rangeFrom, batchRangeStart_le_claimsByBatchKey]
    have hle := le_of_batchRangeEnd_eq_none h b'
    exact and_congr_right fun _ => ⟨fun h₁ => le_antisymm hle h₁, by rintro rfl; simp⟩

end Saci
