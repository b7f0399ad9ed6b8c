import Saci.Consensus.Steps
import Saci.Consensus.Refinement

/-! # Replicas that differ in the pending index

`Database.reopened` is a replica with the same rows in every table but the pending index, and with
every table opened. No handler reads the pending index, and only `apply_checkpoint` tells a missing
claims table from an empty one; so such a replica answers as the original does, and the two pending
indexes change alike (`apply_follows`). -/

namespace Saci

/-- The replica with every table opened, and a pending index of its own. -/
def Database.reopened (db : Database) (pending : Table UInt64 Unit)
    (smMeta : Option (Table String Bytes)) : Database where
  masterBatches := some (openTable db.masterBatches)
  claims := some (openTable db.claims)
  claimsByBatch := some (openTable db.claimsByBatch)
  checkpoints := some (openTable db.checkpoints)
  instances := some (openTable db.instances)
  pendingBatches := some pending
  smMeta

/-- Where the two pending indexes agree on a batch, or the command registers it, they agree on it
afterwards. -/
def PendingFollows (db db' : Database) (cmd : ConsensusCommand)
    (pending pending' : Table UInt64 Unit) : Prop :=
  ∀ b, cmd.Registers b ∨ pending.get b = (openTable db.pendingBatches).get b →
    pending'.get b = (openTable db'.pendingBatches).get b

/-- What the replica makes of a command is what the original makes of it, up to the pending index;
and the original has its claims table afterwards. -/
def Follows (db : Database) (cmd : ConsensusCommand) (pending : Table UInt64 Unit)
    (smMeta : Option (Table String Bytes))
    (result result' : SaciResult (Database × ConsensusResponse)) : Prop :=
  ∃ db' response pending', result = .ok (db', response) ∧
    result' = .ok (db'.reopened pending' smMeta, response) ∧ db'.claims.isSome ∧
    PendingFollows db db' cmd pending pending'

variable {db db' : Database} {pending : Table UInt64 Unit} {smMeta : Option (Table String Bytes)}

/-- The command leaves the pending index alone. -/
theorem follows_of_pending (hclaims : db'.claims.isSome)
    (hpending : db'.pendingBatches = db.pendingBatches) (hregisters : ∀ b, ¬ cmd.Registers b) :
    Follows db cmd pending smMeta (.ok (db', response))
      (.ok (db'.reopened pending smMeta, response)) := by
  refine ⟨db', response, pending, rfl, rfl, hclaims, fun b h => ?_⟩
  rw [hpending]
  exact h.resolve_left (hregisters b)

theorem follows_of_remove (hclaims : db'.claims.isSome)
    (hpending : db'.pendingBatches = some ((openTable db.pendingBatches).remove b))
    (hregisters : ∀ b, ¬ cmd.Registers b) :
    Follows db cmd pending smMeta (.ok (db', response))
      (.ok (db'.reopened (pending.remove b) smMeta, response)) := by
  refine ⟨db', response, pending.remove b, rfl, rfl, hclaims, fun b' h => ?_⟩
  rw [hpending, openTable_some, Table.get_remove, Table.get_remove, h.resolve_left (hregisters b')]

theorem applyRegisterMasterBatch_follows (hclaims : db.claims.isSome) :
    Follows db (.registerMasterBatch b component schemaId ipcBytes totalRows now) pending smMeta
      (applyRegisterMasterBatch db b component schemaId ipcBytes totalRows now)
      (applyRegisterMasterBatch (db.reopened pending smMeta) b component schemaId ipcBytes totalRows
        now) := by
  unfold applyRegisterMasterBatch
  split_ifs with hlen
  · exact follows_of_pending hclaims rfl fun _ h => not_lt.mpr hlen h.2
  · refine ⟨_, _, pending.insert b (), rfl, rfl, hclaims, fun b' h => ?_⟩
    rw [openTable_some, Table.get_insert, Table.get_insert]
    split_ifs with hb
    · rfl
    · exact h.resolve_left fun h => hb h.1.symm

theorem applyPoisonBatch_follows (hclaims : db.claims.isSome) :
    Follows db (.poisonBatch b now) pending smMeta (applyPoisonBatch db b now)
      (applyPoisonBatch (db.reopened pending smMeta) b now) := by
  simp only [applyPoisonBatch, Database.reopened, openTable_some]
  cases (openTable db.masterBatches).get b with
  | none => exact follows_of_pending hclaims rfl fun _ => id
  | some m =>
    dsimp only
    split_ifs with hpoisoned
    · exact follows_of_pending hclaims rfl fun _ => id
    · exact follows_of_remove hclaims rfl fun _ => id

theorem applyHeartbeat_follows (hclaims : db.claims.isSome) :
    Follows db (.heartbeat i at_) pending smMeta (applyHeartbeat db i at_)
      (applyHeartbeat (db.reopened pending smMeta) i at_) :=
  follows_of_pending hclaims rfl fun _ => id

theorem applyRenewClaim_follows :
    Follows db (.renewClaim c i ttl now) pending smMeta (applyRenewClaim db c i ttl now)
      (applyRenewClaim (db.reopened pending smMeta) c i ttl now) := by
  simp only [applyRenewClaim, Database.reopened, openTable_some]
  cases (openTable db.claims).get c with
  | none => exact follows_of_pending rfl rfl fun _ => id
  | some r =>
    dsimp only
    split_ifs <;> exact follows_of_pending rfl rfl fun _ => id

theorem applyAckClaim_follows (H : db.WellFormed) :
    Follows db (.ackClaim c i) pending smMeta (applyAckClaim db c i)
      (applyAckClaim (db.reopened pending smMeta) c i) := by
  simp only [applyAckClaim, Database.reopened, openTable_some]
  cases (openTable db.claims).get c with
  | none => exact follows_of_pending rfl rfl fun _ => id
  | some r =>
    dsimp only
    split_ifs
    · exact follows_of_pending rfl rfl fun _ => id
    · exact follows_of_pending rfl rfl fun _ => id
    · obtain ⟨complete, hloop, _⟩ :=
        (H.encoded.insert r.batchId c r.rowRangeStart r.rowRangeEnd .completed).allCompleteLoop_eq
          r.batchId
      rw [hloop]
      cases complete with
      | true => exact follows_of_remove rfl rfl fun _ => id
      | false => exact follows_of_pending rfl rfl fun _ => id

theorem applyReleaseClaim_follows :
    Follows db (.releaseClaim c i) pending smMeta (applyReleaseClaim db c i)
      (applyReleaseClaim (db.reopened pending smMeta) c i) := by
  simp only [applyReleaseClaim, Database.reopened, openTable_some]
  cases (openTable db.claims).get c with
  | none => exact follows_of_pending rfl rfl fun _ => id
  | some r =>
    dsimp only
    split_ifs <;> exact follows_of_pending rfl rfl fun _ => id

theorem idempotentReplay_reopened (H : db.WellFormed) (b : UInt64) (s e : UInt32) (c i : Uuid) :
    idempotentReplay (db.reopened pending smMeta) b s e c i = idempotentReplay db b s e c i := by
  unfold idempotentReplay
  rw [bind_get, bind_get]
  simp only [Database.reopened, openTable_some]
  cases hclaim : (openTable db.claims).get c with
  | none => rfl
  | some r =>
    dsimp only
    split_ifs with hmatch
    · obtain ⟨m, hm⟩ := H.inv.parent_of_claim hclaim
      cases hbatches : db.masterBatches with
      | none =>
        rw [Database.ledger_batch, hbatches] at hm
        cases hm
      | some table => rfl
    · rfl

theorem precheckClaim_reopened (b : UInt64) (s e : UInt32) :
    precheckClaim (db.reopened pending smMeta) b s e = precheckClaim db b s e := by
  unfold precheckClaim
  rw [bind_get, bind_get]
  simp only [Database.reopened, openTable_some]
  cases hindex : db.claimsByBatch with
  | none =>
    have hoverlap : hasBatchOverlap ∅ b s e = .ok false := by
      unfold hasBatchOverlap batchEntries
      split <;> rfl
    simp only [openTable_none, hoverlap]
  | some table => rfl

theorem applyClaimRowRange_follows (H : db.WellFormed) (hclaims : db.claims.isSome) :
    Follows db (.claimRowRange b s e c i ttl now) pending smMeta
      (applyClaimRowRange db b s e c i ttl now)
      (applyClaimRowRange (db.reopened pending smMeta) b s e c i ttl now) := by
  unfold applyClaimRowRange
  rw [idempotentReplay_reopened H, precheckClaim_reopened]
  split_ifs with hrange
  · exact follows_of_pending hclaims rfl fun _ => id
  rcases idempotentReplay_eq H b s e c i with ⟨r, m, _, _, _, heq⟩ | ⟨_, heq⟩
  · rw [heq]
    exact follows_of_pending hclaims rfl fun _ => id
  rw [heq]
  rcases precheckClaim_eq H b s e with ⟨message, heq, _⟩ | ⟨m, heq, _, _, hfree⟩
  · rw [heq]
    exact follows_of_pending hclaims rfl fun _ => id
  rw [heq]
  simp only [confirmClaim, Database.reopened, openTable_some]
  obtain ⟨overlap, hoverlap, hiff⟩ := H.encoded.hasBatchOverlap_eq b s e
  cases hiff.mpr hfree
  rw [hoverlap]
  exact follows_of_pending rfl rfl fun _ => id

theorem applyCheckpoint_follows (hclaims : db.claims.isSome) :
    Follows db (.checkpoint c stage ipcBytes schemaId now) pending smMeta
      (applyCheckpoint db c stage ipcBytes schemaId now)
      (applyCheckpoint (db.reopened pending smMeta) c stage ipcBytes schemaId now) := by
  obtain ⟨batches, claims, index, checkpoints, instances, pending₀, smMeta₀⟩ := db
  cases claims with
  | none => cases hclaims
  | some table =>
    simp only [applyCheckpoint, Database.reopened, openTable_some]
    cases table.get c with
    | none =>
      dsimp only
      split_ifs <;> exact follows_of_pending rfl rfl fun _ => id
    | some r =>
      dsimp only
      by_cases hlen : MAX_LOG_ENTRY_BYTES ≤ ipcBytes.length
      · rw [if_pos hlen, if_pos hlen]
        exact follows_of_pending rfl rfl fun _ => id
      rw [if_neg hlen, if_neg hlen]
      by_cases hdup : (((openTable checkpoints).get (checkpointKey c stage)).any fun existing =>
          existing.contentHash = checkpointContentHash c stage ipcBytes) = true
      · simp only [hdup, if_true]
        exact follows_of_pending rfl rfl fun _ => id
      simp only [hdup, Bool.false_eq_true, if_false]
      cases (openTable batches).get r.batchId with
      | none => exact follows_of_pending rfl rfl fun _ => id
      | some m => exact follows_of_pending rfl rfl fun _ => id

theorem applyReclaimExpired_follows (hclaims : db.claims.isSome) :
    Follows db (.reclaimExpired now) pending smMeta (applyReclaimExpired db now)
      (applyReclaimExpired (db.reopened pending smMeta) now) := by
  obtain ⟨batches, claims, index, checkpoints, instances, pending₀, smMeta₀⟩ := db
  cases claims with
  | none => cases hclaims
  | some table =>
    simp only [applyReclaimExpired, Database.reopened, openTable_some]
    split_ifs <;> exact follows_of_pending rfl rfl fun _ => id

/-- **Replicas follow each other.** Every command succeeds on both, with one answer. -/
theorem apply_follows (H : db.WellFormed) (hclaims : db.claims.isSome) (cmd : ConsensusCommand) :
    Follows db cmd pending smMeta (apply db cmd) (apply (db.reopened pending smMeta) cmd) := by
  cases cmd with
  | registerMasterBatch => exact applyRegisterMasterBatch_follows hclaims
  | claimRowRange => exact applyClaimRowRange_follows H hclaims
  | renewClaim => exact applyRenewClaim_follows
  | ackClaim => exact applyAckClaim_follows H
  | releaseClaim => exact applyReleaseClaim_follows
  | checkpoint => exact applyCheckpoint_follows hclaims
  | heartbeat => exact applyHeartbeat_follows hclaims
  | reclaimExpired => exact applyReclaimExpired_follows hclaims
  | poisonBatch => exact applyPoisonBatch_follows hclaims

end Saci
