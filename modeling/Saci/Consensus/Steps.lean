import Saci.Consensus.Invariant

/-! # What one command does to one record

`Step.claim` and `Step.span` invert a step at one claim and at one span of the index; `Step.batch`
does so for a batch record and `Step.mem_pending` for the offered set. The laws about runs are case
analyses of these four. -/

namespace Saci

/-- The command registers the batch, with a body small enough to be taken. -/
def ConsensusCommand.Registers (cmd : ConsensusCommand) (b : UInt64) : Prop :=
  match cmd with
  | .registerMasterBatch b' _ _ ipcBytes _ _ => b' = b ∧ ipcBytes.length < MAX_LOG_ENTRY_BYTES
  | _ => False

namespace Ledger

/-- The rows `[s, e)` of the batch are there, and free. -/
structure Claimable (σ : Ledger) (b : UInt64) (s e : UInt32) : Prop where
  range : s < e
  rows : ∃ m, σ.batch b = some m ∧ e ≤ m.totalRows
  free : σ.Free b s e

/-- What a command makes of the record stored under a claim id. -/
inductive ClaimStep (σ : Ledger) (c : Uuid) :
    ConsensusCommand → Option ClaimRecord → ClaimRecord → Prop
  | kept : ClaimStep σ c cmd (some r) r
  | claimed (hclaimable : σ.Claimable b s e) :
    ClaimStep σ c (.claimRowRange b s e c i ttl now) old (.claimed b s e i ttl now)
  | renewed (hheld : r.HeldBy i) (hlease : now ≤ r.leaseExpiresAt) :
    ClaimStep σ c (.renewClaim c i ttl now) (some r) (r.renewed ttl now)
  | acked (hheld : r.HeldBy i) : ClaimStep σ c (.ackClaim c i) (some r) r.completed
  | released (hheld : r.HeldBy i) : ClaimStep σ c (.releaseClaim c i) (some r) r.released
  | reclaimed (hexpired : r.expired now = true) :
    ClaimStep σ c (.reclaimExpired now) (some r) r.reclaimed

/-- What a command makes of the span filed for a claim under a batch. -/
inductive SpanStep (σ : Ledger) (b : UInt64) (c : Uuid) : ConsensusCommand →
    Option (UInt32 × UInt32 × ClaimStatus) → UInt32 × UInt32 × ClaimStatus → Prop
  | kept : SpanStep σ b c cmd (some x) x
  | claimed (hclaimable : σ.Claimable b s e) :
    SpanStep σ b c (.claimRowRange b s e c i ttl now) old (s, e, .claimed)
  | acked : SpanStep σ b c (.ackClaim c i) (some (s, e, .claimed)) (s, e, .completed)
  | released (hclaim : σ.claim c = some r) (hbatch : r.batchId = b) (hheld : r.HeldBy i) :
    SpanStep σ b c (.releaseClaim c i) (some (s, e, .claimed)) (s, e, .pending)
  | reclaimed (hclaim : σ.claim c = some r) (hbatch : r.batchId = b)
      (hexpired : r.expired now = true) :
    SpanStep σ b c (.reclaimExpired now) (some (s, e, .claimed)) (s, e, .pending)

/-- What a command makes of a batch record; the counters aside, only the status can change. -/
inductive BatchStep (σ : Ledger) (b : UInt64) :
    ConsensusCommand → Option MasterBatchRecord → MasterBatchRecord → Prop
  | registered (hlen : ipcBytes.length < MAX_LOG_ENTRY_BYTES) :
    BatchStep σ b (.registerMasterBatch b component schemaId ipcBytes totalRows now) old
      (.registered b component schemaId ipcBytes totalRows now)
  | poisoned : BatchStep σ b (.poisonBatch b now) (some m) (m.poison now)
  | counted (hrows : m'.totalRows = m.totalRows) (hstatus : m'.status = m.status) :
    BatchStep σ b cmd (some m) m'

/-- The command takes the batch off the offered set: a poisoning, or an ack that leaves every span
of the batch Completed. -/
def Withdraws (σ σ' : Ledger) (cmd : ConsensusCommand) (b : UInt64) : Prop :=
  match cmd with
  | .ackClaim c i => ∃ r, σ.claim c = some r ∧ r.HeldBy i ∧ r.batchId = b ∧ σ'.AllComplete b
  | .poisonBatch b' _ => b' = b ∧ ∃ m, σ.batch b = some m ∧ m.status ≠ .poisoned
  | _ => False

variable {σ σ' : Ledger}

theorem expired_status {r : ClaimRecord} (h : r.expired now = true) : r.status = .claimed :=
  of_decide_eq_true ((Bool.and_eq_true _ _).mp h).1

theorem expired_lt {r : ClaimRecord} (h : r.expired now = true) : r.leaseExpiresAt < now :=
  of_decide_eq_true ((Bool.and_eq_true _ _).mp h).2

/-- A claim goes back to Pending through a release by its holder, or a sweep past its expiry. -/
theorem ClaimStep.takesBack (h : ClaimStep σ c cmd (some r) r') (hclaimed : r.status = .claimed)
    (hpending : r'.status = .pending) :
    cmd = .releaseClaim c r.instanceId ∨ ∃ now, cmd = .reclaimExpired now ∧ r.leaseExpiresAt < now := by
  cases h with
  | kept => cases hclaimed.symm.trans hpending
  | claimed => cases hpending
  | renewed => cases hclaimed.symm.trans hpending
  | acked => cases hpending
  | released hheld => exact .inl (hheld.2 ▸ rfl)
  | reclaimed hexpired => exact .inr ⟨_, rfl, expired_lt hexpired⟩

/-- Claims are not deleted. -/
theorem Step.claim_isSome (hstep : σ.Step cmd response σ') (hclaim : σ.claim c = some r) :
    ∃ r', σ'.claim c = some r' := by
  have hfile : ∀ c' r', ∃ r'', (σ.file c' r').claim c = some r'' := by
    intro c' r'
    rw [file_claim]
    split_ifs
    · exact ⟨r', rfl⟩
    · exact ⟨r, hclaim⟩
  cases hstep with
  | refused | replayed | poisonedAgain | duplicate | heartbeat | registered | poisoned
  | checkpointed => exact ⟨r, hclaim⟩
  | claimed | acked | released => exact hfile ..
  | renewed => exact hfile _ _
  | reclaimed => exact ⟨_, reclaim_claim_eq_some.mpr ⟨r, hclaim, rfl⟩⟩

theorem Step.claim (hstep : σ.Step cmd response σ') (hclaim' : σ'.claim c = some r') :
    ClaimStep σ c cmd (σ.claim c) r' := by
  have hkept : σ.claim c = some r' → ClaimStep σ c cmd (σ.claim c) r' := by
    intro h
    rw [h]
    exact .kept
  cases hstep with
  | refused | replayed | poisonedAgain | duplicate | heartbeat | registered | poisoned
  | checkpointed => exact hkept hclaim'
  | claimed hrange _ hbatch hrows hfree =>
    rw [file_claim] at hclaim'
    split_ifs at hclaim' with hc
    · cases hclaim'
      rw [hc]
      exact .claimed ⟨hrange, ⟨_, hbatch, hrows⟩, hfree⟩
    · exact hkept hclaim'
  | renewed hclaim hheld hlease =>
    rw [renew_claim] at hclaim'
    split_ifs at hclaim' with hc
    · cases hclaim'
      rw [hc, hclaim]
      exact .renewed hheld hlease
    · exact hkept hclaim'
  | acked hclaim hheld =>
    rw [ack_claim] at hclaim'
    split_ifs at hclaim' with hc
    · cases hclaim'
      rw [hc, hclaim]
      exact .acked hheld
    · exact hkept hclaim'
  | released hclaim hheld =>
    rw [release_claim] at hclaim'
    split_ifs at hclaim' with hc
    · cases hclaim'
      rw [hc, hclaim]
      exact .released hheld
    · exact hkept hclaim'
  | reclaimed =>
    obtain ⟨r, hr, rfl⟩ := reclaim_claim_eq_some.mp hclaim'
    split_ifs with hexpired
    · rw [hr]
      exact .reclaimed hexpired
    · rw [hr]
      exact .kept

theorem Step.span (H : σ.Inv) (hstep : σ.Step cmd response σ') (hspan' : σ'.span b c = some x) :
    SpanStep σ b c cmd (σ.span b c) x := by
  have hkept : σ.span b c = some x → SpanStep σ b c cmd (σ.span b c) x := by
    intro h
    rw [h]
    exact .kept
  cases hstep with
  | refused | replayed | poisonedAgain | duplicate | heartbeat | registered | renewed | poisoned
  | checkpointed => exact hkept hspan'
  | claimed hrange _ hbatch hrows hfree =>
    rw [file_span] at hspan'
    split_ifs at hspan' with hc
    · cases hspan'
      obtain ⟨rfl, rfl⟩ := hc
      exact .claimed ⟨hrange, ⟨_, hbatch, hrows⟩, hfree⟩
    · exact hkept hspan'
  | acked hclaim hheld =>
    rw [ack_span] at hspan'
    split_ifs at hspan' with hc
    · cases hspan'
      obtain ⟨rfl, rfl⟩ := hc
      have hold := H.mirrored hclaim
      rw [hheld.1] at hold
      exact hold ▸ .acked
    · exact hkept hspan'
  | released hclaim hheld =>
    rw [release_span] at hspan'
    split_ifs at hspan' with hc
    · cases hspan'
      obtain ⟨rfl, rfl⟩ := hc
      have hold := H.mirrored hclaim
      rw [hheld.1] at hold
      exact hold ▸ .released hclaim rfl hheld
    · exact hkept hspan'
  | reclaimed =>
    simp only [reclaim] at hspan'
    split at hspan'
    · exact hkept hspan'
    · next r hclaim =>
      split_ifs at hspan' with hexpired
      · cases hspan'
        obtain ⟨hnow, rfl⟩ := hexpired
        have hold := H.mirrored hclaim
        rw [expired_status hnow] at hold
        exact hold ▸ .reclaimed hclaim rfl hnow
      · exact hkept hspan'

/-- Spans are not deleted. -/
theorem Step.span_isSome (hstep : σ.Step cmd response σ') (hspan : σ.span b c = some x) :
    ∃ x', σ'.span b c = some x' := by
  have hfile : ∀ c' r', ∃ x', (σ.file c' r').span b c = some x' := by
    intro c' r'
    rw [file_span]
    split_ifs
    · exact ⟨_, rfl⟩
    · exact ⟨x, hspan⟩
  cases hstep with
  | refused | replayed | poisonedAgain | duplicate | heartbeat | registered | renewed | poisoned
  | checkpointed => exact ⟨x, hspan⟩
  | claimed | acked | released => exact hfile ..
  | reclaimed =>
    simp only [reclaim]
    split
    · exact ⟨x, hspan⟩
    · split_ifs
      · exact ⟨_, rfl⟩
      · exact ⟨x, hspan⟩

theorem Step.batch (hstep : σ.Step cmd response σ') (hbatch' : σ'.batch b = some m') :
    BatchStep σ b cmd (σ.batch b) m' := by
  have hkept : σ.batch b = some m' → BatchStep σ b cmd (σ.batch b) m' := by
    intro h
    rw [h]
    exact .counted rfl rfl
  cases hstep with
  | refused | replayed | claimed | renewed | poisonedAgain | duplicate | heartbeat =>
    exact hkept hbatch'
  | registered hlen =>
    simp only [register, Function.update_apply] at hbatch'
    split_ifs at hbatch' with hb
    · cases hbatch'
      exact hb ▸ .registered hlen
    · exact hkept hbatch'
  | acked | released | checkpointed =>
    simp only [ack_batch, release_batch, writeCheckpoint_batch] at hbatch'
    obtain ⟨m, hm, rfl⟩ := Option.map_eq_some_iff.mp hbatch'
    rw [hm]
    split_ifs <;> exact .counted rfl rfl
  | reclaimed =>
    rw [reclaim_batch] at hbatch'
    obtain ⟨m, hm, rfl⟩ := Option.map_eq_some_iff.mp hbatch'
    rw [hm]
    exact .counted rfl rfl
  | poisoned =>
    rw [poison_batch] at hbatch'
    obtain ⟨m, hm, rfl⟩ := Option.map_eq_some_iff.mp hbatch'
    rw [hm]
    split_ifs with hb
    · exact hb ▸ .poisoned
    · exact .counted rfl rfl

/-- A command that does not register a batch keeps its row count, and its status unless it poisons
the batch. -/
theorem BatchStep.of_not_registers (h : BatchStep σ b cmd old m') (hregisters : ¬ cmd.Registers b) :
    ∃ m, old = some m ∧ m'.totalRows = m.totalRows ∧
      (m'.status = m.status ∨ m'.status = .poisoned) := by
  cases h with
  | registered hlen => exact absurd ⟨rfl, hlen⟩ hregisters
  | poisoned => exact ⟨_, rfl, rfl, .inr rfl⟩
  | counted hrows hstatus => exact ⟨_, rfl, hrows, .inl hstatus⟩

/-- Batches are not deleted. -/
theorem Step.batch_isSome (hstep : σ.Step cmd response σ') (hbatch : σ.batch b = some m) :
    ∃ m', σ'.batch b = some m' := by
  cases hstep with
  | refused | replayed | claimed | renewed | poisonedAgain | duplicate | heartbeat =>
    exact ⟨m, hbatch⟩
  | registered =>
    simp only [register, Function.update_apply]
    split_ifs
    · exact ⟨_, rfl⟩
    · exact ⟨m, hbatch⟩
  | acked => exact ⟨_, by rw [ack_batch, hbatch]; rfl⟩
  | released => exact ⟨_, by rw [release_batch, hbatch]; rfl⟩
  | poisoned => exact ⟨_, by rw [poison_batch, hbatch]; rfl⟩
  | checkpointed => exact ⟨_, by rw [writeCheckpoint_batch, hbatch]; rfl⟩
  | reclaimed => exact ⟨_, by rw [reclaim_batch, hbatch]; rfl⟩

theorem Step.mem_pending (hstep : σ.Step cmd response σ') :
    b ∈ σ'.pending ↔ cmd.Registers b ∨ b ∈ σ.pending ∧ ¬ Withdraws σ σ' cmd b := by
  have hkept : (cmd.Registers b → False) → (Withdraws σ σ' cmd b → False) →
      (b ∈ σ.pending ↔ cmd.Registers b ∨ b ∈ σ.pending ∧ ¬ Withdraws σ σ' cmd b) := by
    intro hregisters hwithdraws
    exact ⟨fun hb => .inr ⟨hb, hwithdraws⟩, fun h => (h.resolve_left hregisters).1⟩
  cases hstep with
  | replayed | claimed | renewed | released | reclaimed | checkpointed | duplicate | heartbeat =>
    exact hkept id id
  | refused hrefuses =>
    refine hkept (fun h => ?_) fun h => ?_
    · cases cmd with
      | registerMasterBatch => exact absurd h.2 (not_lt.mpr hrefuses)
      | _ => exact h
    · cases cmd with
      | ackClaim =>
        obtain ⟨r, hclaim, hheld, _⟩ := h
        exact hrefuses r hclaim hheld
      | poisonBatch =>
        obtain ⟨rfl, m, hm, _⟩ := h
        cases hm.symm.trans hrefuses
      | _ => exact h
  | @registered _ b' _ _ _ _ hlen =>
    constructor
    · intro hb
      rcases hb with hb | hb
      · exact .inl ⟨Eq.symm hb, hlen⟩
      · exact .inr ⟨hb, id⟩
    · intro h
      rcases h with ⟨hb, _⟩ | ⟨hb, _⟩
      · exact .inl (Eq.symm hb)
      · exact .inr hb
  | @acked c r i hclaim hheld =>
    have hwithdraws : Withdraws σ (σ.ack c r) (.ackClaim c i) b ↔
        b = r.batchId ∧ (σ.file c r.completed).AllComplete r.batchId := by
      constructor
      · intro ⟨r', hclaim', _, hb, hall⟩
        cases hclaim.symm.trans hclaim'
        exact ⟨hb.symm, hb ▸ hall⟩
      · intro ⟨hb, hall⟩
        exact ⟨r, hclaim, hheld, hb.symm, hb ▸ hall⟩
    rw [hwithdraws]
    exact ⟨.inr, fun h => h.resolve_left id⟩
  | @poisoned b' m now hbatch hactive =>
    have hwithdraws : Withdraws σ (σ.poison b' now) (.poisonBatch b' now) b ↔ b = b' ∧ True := by
      constructor
      · intro ⟨hb, _⟩
        exact ⟨hb.symm, trivial⟩
      · intro ⟨hb, _⟩
        exact ⟨hb.symm, m, hb ▸ hbatch, hactive⟩
    rw [hwithdraws]
    exact ⟨.inr, fun h => h.resolve_left id⟩
  | poisonedAgain hbatch hpoisoned =>
    refine hkept id fun ⟨hb, m, hm, hactive⟩ => ?_
    cases hb
    cases hbatch.symm.trans hm
    exact hactive hpoisoned

end Ledger
end Saci
