import Saci.Consensus.Ledger

/-! # The ledger invariant

`Ledger.Inv` collects what holds of a ledger after every run from the empty one. Every command
stores a claim through `Ledger.file` or sweeps claims through `Ledger.reclaim`, so `Inv.file` and
`Inv.reclaim` carry the proof, and `Step.inv` is their case analysis over the commands. -/

namespace Saci

namespace MasterBatchRecord
variable (m : MasterBatchRecord)

@[simp] theorem countAttempts_batchId (k : Nat) : (m.countAttempts k).batchId = m.batchId := rfl

@[simp] theorem resetAttempts_batchId : m.resetAttempts.batchId = m.batchId := rfl

@[simp] theorem poison_batchId : (m.poison now).batchId = m.batchId := rfl

@[simp] theorem bumpSeq_batchId : m.bumpSeq.batchId = m.batchId := rfl

end MasterBatchRecord

namespace Ledger

/-- The ledger in which nothing has been registered. -/
def empty : Ledger where
  batch _ := none
  claim _ := none
  span _ _ := none
  checkpoint _ _ := none
  pending := ∅

/-- **The ledger invariant.** A claim is filed under its batch, with its rows and its status; a
span has rows and a registered batch; the active spans of a batch are disjoint; a checkpoint
carries the hash of its own body. -/
structure Inv (σ : Ledger) : Prop where
  mirrored : ∀ {c r}, σ.claim c = some r →
    σ.span r.batchId c = some (r.rowRangeStart, r.rowRangeEnd, r.status)
  nonempty : ∀ {b c s e st}, σ.span b c = some (s, e, st) → s < e
  exclusive : ∀ {b c c' s e st s' e' st'}, c ≠ c' →
    σ.span b c = some (s, e, st) → st.active = true →
    σ.span b c' = some (s', e', st') → st'.active = true → e ≤ s' ∨ e' ≤ s
  parent : ∀ {b c x}, σ.span b c = some x → ∃ m, σ.batch b = some m
  keyed : ∀ {b m}, σ.batch b = some m → m.batchId = b
  listed : ∀ {b}, b ∈ σ.pending → ∃ m, σ.batch b = some m
  hashed : ∀ {c stage k}, σ.checkpoint c stage = some k →
    k.contentHash = checkpointContentHash c stage k.ipcBytes

theorem empty_inv : empty.Inv where
  mirrored := nofun
  nonempty := nofun
  exclusive _ := nofun
  parent := nofun
  keyed := nofun
  listed := nofun
  hashed := nofun

namespace Inv
variable {σ : Ledger}

/-- The batch of a claim is registered. -/
theorem parent_of_claim (H : σ.Inv) (hclaim : σ.claim c = some r) :
    ∃ m, σ.batch r.batchId = some m :=
  H.parent (H.mirrored hclaim)

theorem modifyBatch {f : MasterBatchRecord → MasterBatchRecord} (H : σ.Inv)
    (hf : ∀ m, (f m).batchId = m.batchId) : (σ.modifyBatch b f).Inv where
  mirrored := H.mirrored
  nonempty := H.nonempty
  exclusive := H.exclusive
  parent hspan := by
    obtain ⟨m, hm⟩ := H.parent hspan
    exact ⟨_, by rw [modifyBatch_batch, hm]; rfl⟩
  keyed {b' m} hm := by
    rw [modifyBatch_batch] at hm
    obtain ⟨m₀, hm₀, rfl⟩ := Option.map_eq_some_iff.mp hm
    have hkey := H.keyed hm₀
    split
    · rw [hf, hkey]
    · exact hkey
  listed hb := by
    obtain ⟨m, hm⟩ := H.listed hb
    exact ⟨_, by rw [modifyBatch_batch, hm]; rfl⟩
  hashed := H.hashed

theorem withdraw (H : σ.Inv) : (σ.withdraw b p).Inv :=
  { H with listed := fun hb => H.listed hb.1 }

/-- Filing a claim keeps the invariant when its batch is registered and its rows, if it is active,
are free of every other claim. -/
theorem file (H : σ.Inv) (hbatch : σ.batch r.batchId = some m)
    (hrange : r.rowRangeStart < r.rowRangeEnd)
    (hfree : r.status.active = true → ∀ c' s e st, c' ≠ c →
      σ.span r.batchId c' = some (s, e, st) → st.active = true →
      r.rowRangeEnd ≤ s ∨ e ≤ r.rowRangeStart) : (σ.file c r).Inv where
  mirrored {c' r'} hclaim := by
    rw [file_claim] at hclaim
    rw [file_span]
    split_ifs at hclaim with hc
    · cases hclaim
      rw [if_pos ⟨rfl, hc⟩]
    · rw [if_neg fun h => hc h.2]
      exact H.mirrored hclaim
  nonempty hspan := by
    rw [file_span] at hspan
    split_ifs at hspan
    · cases hspan
      exact hrange
    · exact H.nonempty hspan
  exclusive {b c₁ c₂ s₁ e₁ st₁ s₂ e₂ st₂} hne h₁ ha₁ h₂ ha₂ := by
    rw [file_span] at h₁ h₂
    split_ifs at h₁ h₂ with hc₁ hc₂ hc₂
    · exact absurd (hc₁.2.trans hc₂.2.symm) hne
    · cases h₁
      obtain ⟨rfl, rfl⟩ := hc₁
      exact hfree ha₁ c₂ s₂ e₂ st₂ hne.symm h₂ ha₂
    · cases h₂
      obtain ⟨rfl, rfl⟩ := hc₂
      exact (hfree ha₂ c₁ s₁ e₁ st₁ hne h₁ ha₁).symm
    · exact H.exclusive hne h₁ ha₁ h₂ ha₂
  parent hspan := by
    rw [file_span] at hspan
    split_ifs at hspan with hb
    · exact ⟨m, hb.1 ▸ hbatch⟩
    · exact H.parent hspan
  keyed := H.keyed
  listed := H.listed
  hashed := H.hashed

/-- A claim that is held may be filed again, in any status, over the same rows. -/
theorem refile (H : σ.Inv) (hclaim : σ.claim c = some r) (hstatus : r.status = .claimed)
    (hbatch : r'.batchId = r.batchId) (hstart : r'.rowRangeStart = r.rowRangeStart)
    (hend : r'.rowRangeEnd = r.rowRangeEnd) : (σ.file c r').Inv := by
  have hspan := H.mirrored hclaim
  obtain ⟨m, hm⟩ := H.parent hspan
  refine H.file (hbatch ▸ hm) (hstart ▸ hend ▸ H.nonempty hspan) ?_
  intro _ c' s e st hne hspan' hactive
  rw [hstart, hend]
  rw [hbatch] at hspan'
  exact H.exclusive hne.symm hspan (by rw [hstatus]; rfl) hspan' hactive

theorem register (H : σ.Inv) : (σ.register m).Inv where
  mirrored := H.mirrored
  nonempty := H.nonempty
  exclusive := H.exclusive
  parent {b c x} hspan := by
    by_cases hb : b = m.batchId
    · exact ⟨m, by simp [Ledger.register, hb]⟩
    · obtain ⟨m', hm'⟩ := H.parent hspan
      exact ⟨m', by simpa [Ledger.register, hb] using hm'⟩
  keyed {b m'} hm := by
    by_cases hb : b = m.batchId
    · subst hb
      simp only [Ledger.register, Function.update_self, Option.some.injEq] at hm
      rw [hm]
    · simp only [Ledger.register, Function.update_of_ne hb] at hm
      exact H.keyed hm
  listed {b} hb := by
    by_cases hbm : b = m.batchId
    · exact ⟨m, by simp [Ledger.register, hbm]⟩
    · obtain ⟨m', hm'⟩ := H.listed (hb.resolve_left hbm)
      exact ⟨m', by simpa [Ledger.register, hbm] using hm'⟩
  hashed := H.hashed

theorem renew (H : σ.Inv) (hclaim : σ.claim c = some r) : (σ.renew c r ttl now).Inv where
  mirrored {c' r'} hclaim' := by
    simp only [Ledger.renew, Function.update_apply] at hclaim'
    split_ifs at hclaim' with hc
    · cases hclaim'
      subst hc
      have hspan := H.mirrored hclaim
      exact hspan
    · exact H.mirrored hclaim'
  nonempty := H.nonempty
  exclusive := H.exclusive
  parent := H.parent
  keyed := H.keyed
  listed := H.listed
  hashed := H.hashed

end Inv

/-! ## Sweeps -/

section
variable {σ : Ledger}

theorem reclaim_claim_eq_some : (σ.reclaim now).claim c = some r' ↔
    ∃ r, σ.claim c = some r ∧ r' = if r.expired now then r.reclaimed else r := by
  simp only [reclaim, Option.map_eq_some_iff, eq_comm (a := r')]

/-- A sweep changes a span only in its status, and only to Pending. -/
theorem Inv.span_of_reclaim (H : σ.Inv) (hspan : (σ.reclaim now).span b c = some (s, e, st)) :
    ∃ st₀, σ.span b c = some (s, e, st₀) ∧ (st = st₀ ∨ st = .pending) := by
  simp only [reclaim] at hspan
  split at hspan
  · exact ⟨st, hspan, .inl rfl⟩
  · next r hclaim =>
    split_ifs at hspan with hexpired
    · cases hspan
      exact ⟨r.status, hexpired.2 ▸ H.mirrored hclaim, .inr rfl⟩
    · exact ⟨st, hspan, .inl rfl⟩

theorem reclaim_batch (b : UInt64) : (σ.reclaim now).batch b =
    (σ.batch b).map (.countAttempts (σ.expiredIn now b)) := rfl

theorem reclaim_eq_self (hnone : ∀ c r, σ.claim c = some r → r.expired now = false) :
    σ.reclaim now = σ := by
  have hcount : ∀ b, σ.expiredIn now b = 0 := by
    intro b
    have hempty : {c | ∃ r, σ.claim c = some r ∧ r.expired now = true ∧ r.batchId = b} = ∅ := by
      refine Set.eq_empty_of_forall_notMem fun c ⟨r, hr, hnow, _⟩ => ?_
      rw [hnone c r hr] at hnow
      cases hnow
    rw [expiredIn, hempty, Set.ncard_empty]
  apply Ledger.ext <;> try rfl
  · funext b
    rw [reclaim_batch, hcount]
    exact congrFun Option.map_id_fun _
  · funext c
    cases hr : σ.claim c with
    | none => simp [Ledger.reclaim, hr]
    | some r => simp [Ledger.reclaim, hr, hnone c r hr]
  · funext b c
    cases hr : σ.claim c with
    | none => simp [Ledger.reclaim, hr]
    | some r => simp [Ledger.reclaim, hr, hnone c r hr]

theorem Inv.reclaim (H : σ.Inv) : (σ.reclaim now).Inv where
  mirrored {c r'} hclaim := by
    obtain ⟨r, hr, rfl⟩ := reclaim_claim_eq_some.mp hclaim
    simp only [Ledger.reclaim, hr]
    by_cases hexpired : r.expired now = true
    · simp [hexpired, ClaimRecord.reclaimed]
    · simpa [hexpired] using H.mirrored hr
  nonempty hspan := by
    obtain ⟨st₀, hspan₀, _⟩ := H.span_of_reclaim hspan
    exact H.nonempty hspan₀
  exclusive hne h₁ ha₁ h₂ ha₂ := by
    obtain ⟨st₁, hspan₁, rfl | rfl⟩ := H.span_of_reclaim h₁
    · obtain ⟨st₂, hspan₂, rfl | rfl⟩ := H.span_of_reclaim h₂
      · exact H.exclusive hne hspan₁ ha₁ hspan₂ ha₂
      · cases ha₂
    · cases ha₁
  parent {b c x} hspan := by
    obtain ⟨s, e, st⟩ := x
    obtain ⟨_, hspan₀, _⟩ := H.span_of_reclaim hspan
    obtain ⟨m, hm⟩ := H.parent hspan₀
    exact ⟨_, by rw [reclaim_batch, hm]; rfl⟩
  keyed hm := by
    rw [reclaim_batch] at hm
    obtain ⟨m₀, hm₀, rfl⟩ := Option.map_eq_some_iff.mp hm
    have hkey := H.keyed hm₀
    exact hkey
  listed hb := by
    obtain ⟨m, hm⟩ := H.listed hb
    exact ⟨_, by rw [reclaim_batch, hm]; rfl⟩
  hashed := H.hashed

theorem Inv.writeCheckpoint (H : σ.Inv) :
    (σ.writeCheckpoint c stage (.written b c stage ipcBytes schemaId now)).Inv where
  mirrored := H.mirrored
  nonempty := H.nonempty
  exclusive := H.exclusive
  parent := (H.modifyBatch (b := b) fun m => m.bumpSeq_batchId).parent
  keyed := (H.modifyBatch (b := b) fun m => m.bumpSeq_batchId).keyed
  listed := (H.modifyBatch (b := b) fun m => m.bumpSeq_batchId).listed
  hashed {c' stage' k} hk := by
    simp only [Ledger.writeCheckpoint] at hk
    split_ifs at hk with h
    · cases hk
      rw [h.1, h.2]; rfl
    · exact H.hashed hk

/-- Every command keeps the invariant. -/
theorem Step.inv {σ' : Ledger} (H : σ.Inv) (hstep : σ.Step cmd response σ') : σ'.Inv := by
  cases hstep with
  | refused | replayed | poisonedAgain | duplicate | heartbeat => exact H
  | registered => exact H.register
  | claimed hrange _ hbatch _ hfree =>
    refine H.file hbatch hrange ?_
    intro _ c' s' e' st _ hspan hactive
    exact (hfree c' s' e' st hspan hactive).symm
  | renewed hclaim => exact H.renew hclaim
  | acked hclaim hheld =>
    next c r _ =>
      have hfile : (σ.file c r.completed).Inv := H.refile hclaim hheld.1 rfl rfl rfl
      exact hfile.withdraw.modifyBatch fun m => m.resetAttempts_batchId
  | released hclaim hheld =>
    next c r _ =>
      have hfile : (σ.file c r.released).Inv := H.refile hclaim hheld.1 rfl rfl rfl
      exact hfile.modifyBatch fun m => m.countAttempts_batchId 1
  | reclaimed => exact H.reclaim
  | poisoned => exact (H.modifyBatch fun m => m.poison_batchId).withdraw
  | checkpointed => exact H.writeCheckpoint

end
end Ledger
end Saci
