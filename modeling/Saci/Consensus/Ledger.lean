import Mathlib.Data.Set.Card
import Mathlib.Logic.Function.Iterate
import Saci.Consensus.Handlers.Claim
import Saci.Consensus.Handlers.Checkpoint

/-!
# The claim ledger

What the state machine is for, without its storage: batches of rows, claims on row ranges, the
span each claim files under its batch, stage checkpoints, and the set of batches offered to
runners. `Ledger.Step` says once what a command can do to it. Byte keys, missing tables, scans in
key order and the check repeated under the write lock are the business of the refinement.
-/

namespace Saci

namespace ClaimRecord

/-- The record is held by the instance: Claimed, in its name. -/
def HeldBy (r : ClaimRecord) (i : Uuid) : Prop := r.status = .claimed ∧ r.instanceId = i

/-- The record is the one a `ClaimRowRange` with these fields asks for. -/
def Matches (r : ClaimRecord) (b : UInt64) (s e : UInt32) (i : Uuid) : Prop :=
  r.batchId = b ∧ r.rowRangeStart = s ∧ r.rowRangeEnd = e ∧ r.instanceId = i

/-- The record a successful `ClaimRowRange` stores. -/
def claimed (b : UInt64) (s e : UInt32) (i : Uuid) (ttl now : UInt64) : ClaimRecord where
  batchId := b
  rowRangeStart := s
  rowRangeEnd := e
  instanceId := i
  leaseExpiresAt := now + ttl
  status := .claimed

/-- The record a successful `RenewClaim` stores. -/
def renewed (r : ClaimRecord) (ttl now : UInt64) : ClaimRecord :=
  { r with leaseExpiresAt := max r.leaseExpiresAt (now + ttl) }

/-- The record a successful `AckClaim` stores. -/
def completed (r : ClaimRecord) : ClaimRecord :=
  { r with status := .completed, leaseExpiresAt := 0 }

/-- The record a successful `ReleaseClaim` stores. -/
def released (r : ClaimRecord) : ClaimRecord :=
  { r with status := .pending, leaseExpiresAt := 0, instanceId := Uuid.zero }

end ClaimRecord

namespace MasterBatchRecord

/-- `k` more release attempts. -/
def countAttempts (k : Nat) (m : MasterBatchRecord) : MasterBatchRecord :=
  { m with releaseAttempts := saturatingSucc^[k] m.releaseAttempts }

def resetAttempts (m : MasterBatchRecord) : MasterBatchRecord := { m with releaseAttempts := 0 }

def poison (m : MasterBatchRecord) (now : UInt64) : MasterBatchRecord :=
  { m with status := .poisoned, poisonedAt := some now }

def bumpSeq (m : MasterBatchRecord) : MasterBatchRecord :=
  { m with checkpointSeq := m.checkpointSeq + 1 }

end MasterBatchRecord

/-- The record a `Checkpoint` under a claim of the batch stores. -/
def CheckpointRecord.written (b : UInt64) (c : Uuid) (stage : UInt32) (ipcBytes : Bytes)
    (schemaId : UInt32) (now : UInt64) : CheckpointRecord where
  batchId := b
  stageIdx := stage
  ipcBytes
  schemaId
  createdAt := now
  contentHash := checkpointContentHash c stage ipcBytes

@[ext] structure Ledger where
  batch : UInt64 → Option MasterBatchRecord
  claim : Uuid → Option ClaimRecord
  /-- The row range and status a batch's index shows for a claim. -/
  span : UInt64 → Uuid → Option (UInt32 × UInt32 × ClaimStatus)
  checkpoint : Uuid → UInt32 → Option CheckpointRecord
  pending : Set UInt64

namespace Ledger

/-- No active span of the batch overlaps the range. -/
def Free (σ : Ledger) (b : UInt64) (s e : UInt32) : Prop :=
  ∀ c s' e' st, σ.span b c = some (s', e', st) → st.active = true → e' ≤ s ∨ e ≤ s'

/-- Every span of the batch is Completed. -/
def AllComplete (σ : Ledger) (b : UInt64) : Prop :=
  ∀ c s e st, σ.span b c = some (s, e, st) → st = .completed

def modifyBatch (σ : Ledger) (b : UInt64) (f : MasterBatchRecord → MasterBatchRecord) : Ledger :=
  { σ with batch := Function.update σ.batch b ((σ.batch b).map f) }

/-- Store a claim record and its span under the record's batch. -/
def file (σ : Ledger) (c : Uuid) (r : ClaimRecord) : Ledger :=
  { σ with
    claim := Function.update σ.claim c (some r)
    span := fun b c' => if b = r.batchId ∧ c' = c then
      some (r.rowRangeStart, r.rowRangeEnd, r.status) else σ.span b c' }

/-- Take a batch off the offered set, if the condition holds. -/
def withdraw (σ : Ledger) (b : UInt64) (p : Prop) : Ledger :=
  { σ with pending := {b' | b' ∈ σ.pending ∧ ¬(b' = b ∧ p)} }

def register (σ : Ledger) (m : MasterBatchRecord) : Ledger :=
  { σ with
    batch := Function.update σ.batch m.batchId (some m)
    pending := insert m.batchId σ.pending }

def renew (σ : Ledger) (c : Uuid) (r : ClaimRecord) (ttl now : UInt64) : Ledger :=
  { σ with claim := Function.update σ.claim c (some (r.renewed ttl now)) }

def ack (σ : Ledger) (c : Uuid) (r : ClaimRecord) : Ledger :=
  let σ' := σ.file c r.completed
  (σ'.withdraw r.batchId (σ'.AllComplete r.batchId)).modifyBatch r.batchId .resetAttempts

def release (σ : Ledger) (c : Uuid) (r : ClaimRecord) : Ledger :=
  (σ.file c r.released).modifyBatch r.batchId (.countAttempts 1)

/-- The number of claims of the batch a sweep at `now` takes back. -/
noncomputable def expiredIn (σ : Ledger) (now : UInt64) (b : UInt64) : Nat :=
  Set.ncard {c | ∃ r, σ.claim c = some r ∧ r.expired now = true ∧ r.batchId = b}

noncomputable def expiredCount (σ : Ledger) (now : UInt64) : Nat :=
  Set.ncard {c | ∃ r, σ.claim c = some r ∧ r.expired now = true}

/-- Take every expired claim back. -/
noncomputable def reclaim (σ : Ledger) (now : UInt64) : Ledger :=
  { σ with
    claim := fun c => (σ.claim c).map fun r => if r.expired now then r.reclaimed else r
    span := fun b c => match σ.claim c with
      | none => σ.span b c
      | some r => if r.expired now ∧ r.batchId = b then
          some (r.rowRangeStart, r.rowRangeEnd, .pending) else σ.span b c
    batch := fun b => (σ.batch b).map (.countAttempts (σ.expiredIn now b)) }

def poison (σ : Ledger) (b now : UInt64) : Ledger :=
  (σ.modifyBatch b (·.poison now)).withdraw b True

def writeCheckpoint (σ : Ledger) (c : Uuid) (i : UInt32) (k : CheckpointRecord) : Ledger :=
  { σ with
    checkpoint := fun c' i' => if c' = c ∧ i' = i then some k else σ.checkpoint c' i'
    batch := Function.update σ.batch k.batchId ((σ.batch k.batchId).map .bumpSeq) }

/-- What a command is answered with an error for; nothing changes then. -/
def Refuses (σ : Ledger) : ConsensusCommand → Prop
  | .registerMasterBatch _ _ _ ipcBytes _ _ => MAX_LOG_ENTRY_BYTES ≤ ipcBytes.length
  | .claimRowRange b s e c i _ _ => e ≤ s ∨
      (∀ r, σ.claim c = some r → ¬ r.Matches b s e i) ∧
        ∀ m, σ.batch b = some m → e ≤ m.totalRows → ¬ σ.Free b s e
  | .renewClaim c i _ now => ∀ r, σ.claim c = some r → r.HeldBy i → r.leaseExpiresAt < now
  | .ackClaim c i | .releaseClaim c i => ∀ r, σ.claim c = some r → ¬ r.HeldBy i
  | .checkpoint c _ ipcBytes _ _ => MAX_LOG_ENTRY_BYTES ≤ ipcBytes.length ∨ σ.claim c = none
  | .poisonBatch b _ => σ.batch b = none
  | .heartbeat _ _ | .reclaimExpired _ => False

/-- What one command can do: the guards it passes, its answer, and the ledger it leaves. -/
inductive Step (σ : Ledger) : ConsensusCommand → ConsensusResponse → Ledger → Prop
  | refused (hrefuses : σ.Refuses cmd) : Step σ cmd (.error message) σ
  | registered (hlen : ipcBytes.length < MAX_LOG_ENTRY_BYTES) :
    Step σ (.registerMasterBatch b component schemaId ipcBytes totalRows now)
      (.masterBatchRegistered b)
      (σ.register (.registered b component schemaId ipcBytes totalRows now))
  /-- The claim is stored already, for the same rows and instance. -/
  | replayed (hrange : s < e) (hclaim : σ.claim c = some r) (hmatch : r.Matches b s e i)
      (hbatch : σ.batch b = some m) :
    Step σ (.claimRowRange b s e c i ttl now)
      (.batchClaimed b m.component s e m.schemaId c i r.leaseExpiresAt) σ
  | claimed (hrange : s < e) (hfresh : ∀ r, σ.claim c = some r → ¬ r.Matches b s e i)
      (hbatch : σ.batch b = some m) (hrows : e ≤ m.totalRows) (hfree : σ.Free b s e) :
    Step σ (.claimRowRange b s e c i ttl now)
      (.batchClaimed b m.component s e m.schemaId c i (now + ttl))
      (σ.file c (.claimed b s e i ttl now))
  | renewed (hclaim : σ.claim c = some r) (hheld : r.HeldBy i) (hlease : now ≤ r.leaseExpiresAt) :
    Step σ (.renewClaim c i ttl now) (.claimRenewed (r.renewed ttl now).leaseExpiresAt)
      (σ.renew c r ttl now)
  | acked (hclaim : σ.claim c = some r) (hheld : r.HeldBy i) :
    Step σ (.ackClaim c i) .claimAcked (σ.ack c r)
  | released (hclaim : σ.claim c = some r) (hheld : r.HeldBy i) :
    Step σ (.releaseClaim c i) .claimReleased (σ.release c r)
  | reclaimed : Step σ (.reclaimExpired now)
      (.expiredReclaimed (UInt32.ofNat (σ.expiredCount now))) (σ.reclaim now)
  | poisoned (hbatch : σ.batch b = some m) (hactive : m.status ≠ .poisoned) :
    Step σ (.poisonBatch b now) (.batchPoisoned b now) (σ.poison b now)
  /-- A second poisoning keeps the timestamp of the first. -/
  | poisonedAgain (hbatch : σ.batch b = some m) (hpoisoned : m.status = .poisoned) :
    Step σ (.poisonBatch b now) (.batchPoisoned b (m.poisonedAt.getD now)) σ
  | checkpointed (hlen : ipcBytes.length < MAX_LOG_ENTRY_BYTES) (hclaim : σ.claim c = some r)
      (hbatch : σ.batch r.batchId = some m)
      (hnew : ∀ k, σ.checkpoint c stage = some k →
        k.contentHash ≠ checkpointContentHash c stage ipcBytes) :
    Step σ (.checkpoint c stage ipcBytes schemaId now) (.checkpointWritten (m.checkpointSeq + 1))
      (σ.writeCheckpoint c stage (.written r.batchId c stage ipcBytes schemaId now))
  /-- A body whose hash is the stored one is not written again. -/
  | duplicate (hlen : ipcBytes.length < MAX_LOG_ENTRY_BYTES) (hclaim : σ.claim c = some r)
      (hbatch : σ.batch r.batchId = some m) (hstored : σ.checkpoint c stage = some k)
      (hhash : k.contentHash = checkpointContentHash c stage ipcBytes) :
    Step σ (.checkpoint c stage ipcBytes schemaId now) (.checkpointWritten m.checkpointSeq) σ
  | heartbeat : Step σ (.heartbeat i at_) .heartbeatRecorded σ

/-! ## Reading the ledger back -/

section
variable (σ : Ledger)

@[simp] theorem file_claim (c c' : Uuid) (r : ClaimRecord) :
    (σ.file c r).claim c' = if c' = c then some r else σ.claim c' := Function.update_apply ..

@[simp] theorem file_span (c c' : Uuid) (r : ClaimRecord) (b : UInt64) :
    (σ.file c r).span b c' = if b = r.batchId ∧ c' = c then
      some (r.rowRangeStart, r.rowRangeEnd, r.status) else σ.span b c' := rfl

@[simp] theorem modifyBatch_batch (b b' : UInt64) (f : MasterBatchRecord → MasterBatchRecord) :
    (σ.modifyBatch b f).batch b' = (σ.batch b').map fun m => if b' = b then f m else m := by
  by_cases h : b' = b
  · subst h; simp [modifyBatch]
  · simp [modifyBatch, h]

@[simp] theorem renew_claim (c c' : Uuid) (r : ClaimRecord) (ttl now : UInt64) :
    (σ.renew c r ttl now).claim c' = if c' = c then some (r.renewed ttl now) else σ.claim c' :=
  Function.update_apply ..

@[simp] theorem ack_claim (c c' : Uuid) (r : ClaimRecord) :
    (σ.ack c r).claim c' = if c' = c then some r.completed else σ.claim c' := file_claim ..

@[simp] theorem release_claim (c c' : Uuid) (r : ClaimRecord) :
    (σ.release c r).claim c' = if c' = c then some r.released else σ.claim c' := file_claim ..

@[simp] theorem ack_span (c c' : Uuid) (r : ClaimRecord) (b : UInt64) :
    (σ.ack c r).span b c' = if b = r.batchId ∧ c' = c then
      some (r.rowRangeStart, r.rowRangeEnd, .completed) else σ.span b c' := rfl

@[simp] theorem release_span (c c' : Uuid) (r : ClaimRecord) (b : UInt64) :
    (σ.release c r).span b c' = if b = r.batchId ∧ c' = c then
      some (r.rowRangeStart, r.rowRangeEnd, .pending) else σ.span b c' := rfl

@[simp] theorem ack_batch (c : Uuid) (r : ClaimRecord) (b : UInt64) :
    (σ.ack c r).batch b =
      (σ.batch b).map fun m => if b = r.batchId then m.resetAttempts else m :=
  modifyBatch_batch ..

@[simp] theorem release_batch (c : Uuid) (r : ClaimRecord) (b : UInt64) :
    (σ.release c r).batch b =
      (σ.batch b).map fun m => if b = r.batchId then m.countAttempts 1 else m :=
  modifyBatch_batch ..

@[simp] theorem poison_batch (b b' now : UInt64) :
    (σ.poison b now).batch b' = (σ.batch b').map fun m => if b' = b then m.poison now else m :=
  modifyBatch_batch ..

@[simp] theorem writeCheckpoint_batch (c : Uuid) (i : UInt32) (k : CheckpointRecord) (b : UInt64) :
    (σ.writeCheckpoint c i k).batch b =
      (σ.batch b).map fun m => if b = k.batchId then m.bumpSeq else m :=
  modifyBatch_batch _ k.batchId b .bumpSeq

@[simp] theorem mem_withdraw_pending (b b' : UInt64) (p : Prop) :
    b' ∈ (σ.withdraw b p).pending ↔ b' ∈ σ.pending ∧ ¬ (b' = b ∧ p) := .rfl

end
end Ledger
end Saci
