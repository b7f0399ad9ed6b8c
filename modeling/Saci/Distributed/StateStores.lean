import Saci.Core.Ipc
import Saci.Consensus.Types

/-!
# Persisted state between claims

What a runner keeps in its checkpoint store from one claim to the next: the window accumulator
(`accumulator_store.rs`) and the runtime's opaque state blob (`processor_state_store.rs`), each
under the id of the claim that wrote it and a stage index of its own. The store is read through
`Checkpoints`, and how a save or a load ends is the environment's.
-/

namespace Saci.Distributed

/-- `ACCUMULATOR_STAGE_SENTINEL`: `u32::MAX`. -/
def ACCUMULATOR_STAGE_SENTINEL : UInt32 := 4294967295

/-- `PROCESSOR_STATE_STAGE_SENTINEL`: `u32::MAX - 1`. -/
def PROCESSOR_STATE_STAGE_SENTINEL : UInt32 := 4294967294

/-- 1 MiB, which is also `max_checkpoint_bytes` of every store. -/
def MAX_LOG_ENTRY_BYTES : Nat := 1024 * 1024

def CURRENT_ACCUMULATOR_VERSION : UInt32 := 1

/-- `WindowAccumulator::name()`. -/
def WINDOW_ACCUMULATOR : String := "WindowAccumulator"

/-- A stored checkpoint, through what is read of it. -/
structure Checkpoint where
  payload : Bytes
  schemaId : UInt32
  deriving DecidableEq

/-- What `load_checkpoint` finds under a claim id and a stage index. -/
abbrev Checkpoints := Uuid → UInt32 → Option Checkpoint

/-- How one call of `save_checkpoint` ends. A save that fails may have been written. -/
inductive SaveAnswer
  | saved
  | failed (e : SaciError) (written : Bool)

namespace Checkpoints

def write (cps : Checkpoints) (claimId : Uuid) (stageIdx : UInt32) (cp : Checkpoint) :
    Checkpoints :=
  fun claimId' stageIdx' =>
    if claimId' = claimId ∧ stageIdx' = stageIdx then some cp else cps claimId' stageIdx'

/-- `save_checkpoint`. -/
def save (cps : Checkpoints) (answer : SaveAnswer) (claimId : Uuid) (stageIdx : UInt32)
    (cp : Checkpoint) : Checkpoints × SaciResult Unit :=
  match answer with
  | .saved => (cps.write claimId stageIdx cp, .ok ())
  | .failed e true => (cps.write claimId stageIdx cp, .error e)
  | .failed e false => (cps, .error e)

/-- `load_checkpoint`, which may fail. -/
def load (cps : Checkpoints) (fault : Option SaciError) (claimId : Uuid) (stageIdx : UInt32) :
    SaciResult (Option Checkpoint) :=
  match fault with
  | some e => .error e
  | none => .ok (cps claimId stageIdx)

end Checkpoints

/-- Code the runner calls that is not the repository's: Arrow's encoding of a batch, serde's
conversions between accumulator rows and batches, and the type-indexed resource map. -/
structure Externals (R V : Type) where
  arrow : ArrowIpc
  fromRecordBatch : RecordBatch → SaciResult (List V)
  toRecordBatch : List V → SaciResult RecordBatch
  noResources : R

section
variable {R V : Type} (api : Externals R V)

/-- `migrate_to_current_inner`. -/
def migrateToCurrent (fromVersion : UInt32) (batch : RecordBatch) : SaciResult RecordBatch :=
  if CURRENT_ACCUMULATOR_VERSION < fromVersion then
    .error <| .configuration <|
      s!"WindowAccumulator checkpoint was written by a newer binary (version={fromVersion}); " ++
      "upgrade saci to read this checkpoint"
  else .ok batch

/-- `load_accumulator_state`. -/
def loadAccumulatorState (cps : Checkpoints) (fault : Option SaciError) (claimId : Uuid) :
    SaciResult (Option RecordBatch) := do
  match ← cps.load fault claimId ACCUMULATOR_STAGE_SENTINEL with
  | none => .ok none
  | some cp =>
    if cp.payload.isEmpty then .ok none
    else do
      let dataset ← Dataset.readIpc api.arrow api.noResources cp.payload
      match dataset.batchFor WINDOW_ACCUMULATOR with
      | none => .ok none
      | some batch =>
        if batch.numRows = 0 then .ok none
        else do
          let onDiskVersion := (dataset.getVersion WINDOW_ACCUMULATOR).getD 1
          let migrated ← migrateToCurrent onDiskVersion batch
          .ok (some migrated)

/-- `save_accumulator_state`. -/
def saveAccumulatorState (cps : Checkpoints) (answer : SaveAnswer) (claimId : Uuid)
    (data : Dataset R) : Checkpoints × SaciResult Unit :=
  match data.batchFor WINDOW_ACCUMULATOR with
  | none => (cps, .ok ())
  | some _ =>
    match data.writeComponentIpc api.arrow WINDOW_ACCUMULATOR with
    | .error e => (cps, .error e)
    | .ok buf =>
      if MAX_LOG_ENTRY_BYTES ≤ buf.length then
        (cps, .error <| .configuration <|
          s!"accumulator checkpoint size {buf.length} bytes exceeds the store cap " ++
          s!"{MAX_LOG_ENTRY_BYTES} — reduce the number of open windows or split the pipeline")
      else
        cps.save answer claimId ACCUMULATOR_STAGE_SENTINEL ⟨buf, CURRENT_ACCUMULATOR_VERSION⟩

/-- `load_processor_state`. -/
def loadProcessorState (cps : Checkpoints) (fault : Option SaciError) (priorClaimId : Uuid) :
    SaciResult (Option Bytes) := do
  match ← cps.load fault priorClaimId PROCESSOR_STATE_STAGE_SENTINEL with
  | none => .ok none
  | some cp => if cp.payload.isEmpty then .ok none else .ok (some cp.payload)

/-- `save_processor_state`. -/
def saveProcessorState (cps : Checkpoints) (answer : SaveAnswer) (claimId : Uuid) (blob : Bytes)
    (schemaId : UInt32) : Checkpoints × SaciResult Unit :=
  if blob.isEmpty then (cps, .ok ())
  else if MAX_LOG_ENTRY_BYTES ≤ blob.length then
    (cps, .error <| .configuration <|
      s!"processor state blob size {blob.length} bytes exceeds the store cap " ++
      s!"{MAX_LOG_ENTRY_BYTES} — reduce the runtime's retained state or shorten batches")
  else cps.save answer claimId PROCESSOR_STATE_STAGE_SENTINEL ⟨blob, schemaId⟩

end
end Saci.Distributed
