import Saci.Consensus.Records

/-!
# Snapshot dump and restore

`dump_state` reads the tables into owned records; `restore_state` replaces the current state with
a dump and rebuilds the derived tables (`state_machine/snapshot_io.rs`).
-/

namespace Saci

/-- `(master_batches, claims, checkpoints, instances)`. -/
structure DumpedState where
  batches : List MasterBatchRecord
  claims : List (Uuid × ClaimRecord)
  checkpoints : List (CheckpointKey × CheckpointRecord)
  instances : List (Uuid × InstanceRecord)
  deriving DecidableEq

def dumpState (db : Database) : DumpedState where
  batches := (openTable db.masterBatches).rows.map Prod.snd
  claims := (openTable db.claims).rows
  checkpoints := (openTable db.checkpoints).rows
  instances := (openTable db.instances).rows

def KEY_SM_LAST_APPLIED : String := "sm_last_applied"

def KEY_SM_LAST_MEMBERSHIP : String := "sm_last_membership"

/-- Replace every table with the dump's content. The pending set is refilled with every batch of
the dump, and the secondary index is rebuilt from its claims. -/
def restoreState (db : Database) (dump : DumpedState) (smMeta : Option (Bytes × Bytes)) :
    Database where
  masterBatches := some ((∅ : Table _ _).insertAll (·.batchId) id dump.batches)
  pendingBatches := some ((∅ : Table _ _).insertAll (·.batchId) (fun _ => ()) dump.batches)
  claims := some ((∅ : Table _ _).insertAll (·.1) (·.2) dump.claims)
  claimsByBatch := some ((∅ : Table _ _).insertAll (fun row => claimsByBatchKey row.2.batchId row.1)
    (fun row => claimsByBatchValue row.2.rowRangeStart row.2.rowRangeEnd row.2.status) dump.claims)
  checkpoints := some ((∅ : Table _ _).insertAll (·.1) (·.2) dump.checkpoints)
  instances := some ((∅ : Table _ _).insertAll (·.1) (·.2) dump.instances)
  smMeta :=
    match smMeta with
    | none => db.smMeta
    | some (applied, membership) =>
      some (((openTable db.smMeta).insert KEY_SM_LAST_APPLIED applied).insert
        KEY_SM_LAST_MEMBERSHIP membership)

end Saci
