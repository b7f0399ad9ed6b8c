import Saci.Consensus.Types

/-!
# Keys and packed values of the state machine tables

How a key or a status byte is laid out on disk (`state_machine/keys.rs`). The secondary index
`arrow_claims_by_batch` is keyed by `batch_id_be8 ++ claim_id_16`, so one batch is a key range.
-/

namespace Saci

/-- One step of the 64-bit FNV-1a hash. -/
def fnvStep (h : UInt64) (b : UInt8) : UInt64 := (h ^^^ b.toUInt64) * 0x100000001b3

/-- FNV-1a over `claim_id_bytes || stage_idx_be4 || ipc_bytes`. -/
def checkpointContentHash (claimId : Uuid) (stageIdx : UInt32) (ipcBytes : Bytes) : UInt64 :=
  let h := claimId.asBytes.foldl fnvStep 0xcbf29ce484222325
  let h := (beBytes 4 stageIdx.toNat).foldl fnvStep h
  ipcBytes.foldl fnvStep h

abbrev CheckpointKey := Octets 20

/-- `claim_id_bytes (16) || stage_idx_be (4)`. -/
def checkpointKey (claimId : Uuid) (stageIdx : UInt32) : CheckpointKey :=
  ⟨claimId.asBytes ++ beBytes 4 stageIdx.toNat, by simp [claimId.length_asBytes]⟩

/-- `batch_id_be8 (8) || claim_id_16 (16)`. -/
def claimsByBatchKey (batchId : UInt64) (claimId : Uuid) : Bytes :=
  beBytes 8 batchId.toNat ++ claimId.asBytes

/-- Inclusive lower bound of a batch's index rows. -/
def batchRangeStart (batchId : UInt64) : Bytes := beBytes 8 batchId.toNat

/-- Exclusive upper bound of a batch's index rows; the last batch id has none. -/
def batchRangeEnd (batchId : UInt64) : Option Bytes :=
  if batchId.toNat + 1 < UInt64.size then some (beBytes 8 (batchId.toNat + 1)) else none

def statusByte : ClaimStatus → UInt8
  | .pending => 0
  | .claimed => 1
  | .completed => 2

def statusFromByte (b : UInt8) : Option ClaimStatus :=
  if b = 0 then some .pending
  else if b = 1 then some .claimed
  else if b = 2 then some .completed
  else none

/-- `start_row_be4 ++ end_row_be4 ++ status_byte`. -/
def claimsByBatchValue (start stop : UInt32) (status : ClaimStatus) : Bytes :=
  beBytes 4 start.toNat ++ beBytes 4 stop.toNat ++ [statusByte status]

def decodeClaimsByBatchValue (v : Bytes) : Option (UInt32 × UInt32 × ClaimStatus) :=
  if v.length ≠ 9 then none
  else
    match (v.drop 8).head?.bind statusFromByte with
    | none => none
    | some status =>
      some (UInt32.ofNat (beValue (v.take 4)), UInt32.ofNat (beValue ((v.drop 4).take 4)), status)

/-! ## The encodings lose nothing -/

theorem statusFromByte_statusByte (status : ClaimStatus) :
    statusFromByte (statusByte status) = some status := by
  cases status <;> rfl

private theorem ofNat_beValue_beBytes (x : UInt32) :
    UInt32.ofNat (beValue (beBytes 4 x.toNat)) = x := by
  rw [beValue_beBytes, Nat.mod_eq_of_lt (show x.toNat < 256 ^ 4 from x.toNat_lt)]
  exact UInt32.ofNat_toNat

@[simp] theorem decodeClaimsByBatchValue_claimsByBatchValue (start stop : UInt32)
    (status : ClaimStatus) :
    decodeClaimsByBatchValue (claimsByBatchValue start stop status) =
      some (start, stop, status) := by
  have hlen : (claimsByBatchValue start stop status).length = 9 := by simp [claimsByBatchValue]
  have hdrop : (claimsByBatchValue start stop status).drop 8 = [statusByte status] := by
    simp [claimsByBatchValue, List.drop_append]
  have hstart : (claimsByBatchValue start stop status).take 4 = beBytes 4 start.toNat := by
    simp [claimsByBatchValue]
  have hstop :
      ((claimsByBatchValue start stop status).drop 4).take 4 = beBytes 4 stop.toNat := by
    simp [claimsByBatchValue]
  rw [decodeClaimsByBatchValue, if_neg (by simp [hlen]), hdrop, hstart, hstop]
  simp [statusFromByte_statusByte, ofNat_beValue_beBytes]

theorem claimsByBatchKey_inj {b b' : UInt64} {c c' : Uuid} :
    claimsByBatchKey b c = claimsByBatchKey b' c' ↔ b = b' ∧ c = c' := by
  constructor
  · intro h
    obtain ⟨hb, hc⟩ := List.append_inj h (by simp)
    exact ⟨UInt64.toNat_inj.mp (beBytes_injOn b.toNat_lt b'.toNat_lt hb),
      Uuid.asBytes_injective hc⟩
  · rintro ⟨rfl, rfl⟩; rfl

theorem checkpointKey_inj {c c' : Uuid} {i i' : UInt32} :
    checkpointKey c i = checkpointKey c' i' ↔ c = c' ∧ i = i' := by
  constructor
  · intro h
    obtain ⟨hc, hi⟩ := List.append_inj (congrArg Subtype.val h)
      (c.length_asBytes.trans c'.length_asBytes.symm)
    exact ⟨Uuid.asBytes_injective hc,
      UInt32.toNat_inj.mp (beBytes_injOn i.toNat_lt i'.toNat_lt hi)⟩
  · rintro ⟨rfl, rfl⟩; rfl

/-- Every key of the checkpoint table names a claim and a stage. -/
theorem checkpointKey_surjective (k : CheckpointKey) : ∃ c i, checkpointKey c i = k := by
  obtain ⟨l, hl⟩ := k
  have hdrop : (l.drop 16).length = 4 := by rw [List.length_drop, hl]
  have hlt : beValue (l.drop 16) < UInt32.size := by
    have := beValue_lt (l.drop 16)
    rwa [hdrop] at this
  have hstage : beBytes 4 (UInt32.ofNat (beValue (l.drop 16))).toNat = l.drop 16 := by
    rw [UInt32.toNat_ofNat_of_lt' hlt]
    exact hdrop ▸ beBytes_beValue (l.drop 16)
  refine ⟨⟨l.take 16, ?_⟩, UInt32.ofNat (beValue (l.drop 16)), Subtype.ext ?_⟩
  · rw [List.length_take, hl]; rfl
  · exact (congrArg (l.take 16 ++ ·) hstage).trans (List.take_append_drop 16 l)

/-- A key lies in the range of a batch exactly when it was built for that batch. -/
theorem batchRangeStart_le_claimsByBatchKey {b b' : UInt64} {c : Uuid} :
    batchRangeStart b ≤ claimsByBatchKey b' c ↔ b ≤ b' := by
  rw [claimsByBatchKey, batchRangeStart, le_append_iff (by simp), ← not_lt,
    beBytes_lt_iff b'.toNat_lt b.toNat_lt, UInt64.le_iff_toNat_le, not_lt]

theorem claimsByBatchKey_lt_batchRangeEnd {b b' : UInt64} {c : Uuid} {hi : Bytes}
    (h : batchRangeEnd b = some hi) : claimsByBatchKey b' c < hi ↔ b' ≤ b := by
  unfold batchRangeEnd at h
  split_ifs at h with hb
  cases h
  rw [claimsByBatchKey, append_lt_iff (by simp),
    beBytes_lt_iff (by simpa [UInt64.size] using b'.toNat_lt) (by simpa [UInt64.size] using hb),
    UInt64.le_iff_toNat_le]
  omega

theorem le_of_batchRangeEnd_eq_none {b : UInt64} (h : batchRangeEnd b = none) (b' : UInt64) :
    b' ≤ b := by
  unfold batchRangeEnd at h
  split_ifs at h with hb
  have := b'.toNat_lt
  rw [UInt64.le_iff_toNat_le]
  simp only [UInt64.size] at hb
  omega

end Saci
