import Saci.Consensus.StateMachineStore
import Saci.Consensus.Refinement
import Saci.Consensus.Replay

/-! # Crash and replay

The watermark is written at the end of a batch of entries, so a crash within the batch delivers all
of it again. The tables come out the same if the entries that are applied a second time are settled
by then. -/

namespace Saci

variable {db db' : Database}

/-- No command touches the watermarks. -/
theorem apply_smMeta (happly : apply db cmd = .ok (db', response)) : db'.smMeta = db.smMeta := by
  cases cmd
  all_goals
    simp only [apply, applyRegisterMasterBatch, applyClaimRowRange, confirmClaim, applyRenewClaim,
      applyAckClaim, applyReleaseClaim, applyCheckpoint, applyHeartbeat, applyReclaimExpired,
      applyPoisonBatch] at happly
    -- every branch that commits copies the watermark table
    repeat' split at happly
    all_goals cases happly <;> rfl

/-- The claim, batch, checkpoint and pending tables hold the same rows. -/
structure SameTables (db db' : Database) : Prop where
  claims : openTable db'.claims = openTable db.claims
  masterBatches : openTable db'.masterBatches = openTable db.masterBatches
  checkpoints : openTable db'.checkpoints = openTable db.checkpoints
  pendingBatches : openTable db'.pendingBatches = openTable db.pendingBatches

/-- The ledger determines the rows. -/
theorem sameTables_of_ledger_eq (h : db'.ledger = db.ledger) : SameTables db db' where
  claims := Table.ext_get (congrFun (congrArg Ledger.claim h))
  masterBatches := Table.ext_get (congrFun (congrArg Ledger.batch h))
  checkpoints := by
    refine Table.ext_get fun k => ?_
    obtain ⟨c, stage, rfl⟩ := checkpointKey_surjective k
    exact congrFun (congrFun (congrArg Ledger.checkpoint h) c) stage
  pendingBatches := by
    refine Table.ext_get fun b => Option.ext fun u => ?_
    have hmem : b ∈ db'.ledger.pending ↔ b ∈ db.ledger.pending := by rw [h]
    constructor
    · intro hb
      obtain ⟨u', hu'⟩ := hmem.mp ⟨u, hb⟩
      exact hu'
    · intro hb
      obtain ⟨u', hu'⟩ := hmem.mpr ⟨u, hb⟩
      exact hu'

namespace ArrowRedbStateMachine
variable {LogId Membership : Type} {codec : WatermarkCodec LogId Membership}
  {sm sm' : ArrowRedbStateMachine LogId Membership}

/-- What an entry does: its command is applied, or the database stays. -/
theorem applyEntry_db (happly : sm.applyEntry entry = .ok (sm', response)) :
    (∃ cmd, entry.payload = .normal cmd ∧ Saci.apply sm.db cmd = .ok (sm'.db, response)) ∨
      (∀ cmd, entry.payload ≠ .normal cmd) ∧ sm'.db = sm.db := by
  rw [applyEntry] at happly
  split at happly
  · next hpayload =>
    cases happly
    exact .inr ⟨fun _ h => (nomatch hpayload.symm.trans h), rfl⟩
  · next cmd hpayload =>
    split at happly
    · cases happly
    · next heq =>
      cases happly
      exact .inl ⟨cmd, hpayload, heq⟩
  · next hpayload =>
    cases happly
    exact .inr ⟨fun _ h => (nomatch hpayload.symm.trans h), rfl⟩

theorem applyEntry_smMeta (happly : sm.applyEntry entry = .ok (sm', response)) :
    sm'.db.smMeta = sm.db.smMeta := by
  rcases applyEntry_db happly with ⟨_, _, happly⟩ | ⟨_, heq⟩
  · exact apply_smMeta happly
  · rw [heq]

theorem applyEntry_total (H : sm.db.WellFormed) (entry : Entry LogId Membership) :
    ∃ sm' response, sm.applyEntry entry = .ok (sm', response) ∧ sm'.db.WellFormed := by
  rw [applyEntry]
  cases entry.payload with
  | blank => exact ⟨_, _, rfl, H⟩
  | membership => exact ⟨_, _, rfl, H⟩
  | normal cmd =>
    obtain ⟨db', response, heq, _⟩ := apply_refines H cmd
    dsimp only
    rw [heq]
    exact ⟨_, _, rfl, apply_wellFormed H heq⟩

theorem applyEntry_wellFormed (H : sm.db.WellFormed)
    (happly : sm.applyEntry entry = .ok (sm', response)) : sm'.db.WellFormed := by
  obtain ⟨_, _, heq, hsm'⟩ := applyEntry_total H entry
  cases happly.symm.trans heq
  exact hsm'

/-- An entry that would change nothing. -/
def Settled (sm : ArrowRedbStateMachine LogId Membership) (entry : Entry LogId Membership) : Prop :=
  ∀ cmd, entry.payload = .normal cmd → sm.db.ledger.Settled cmd

theorem applyEntry_of_settled (H : sm.db.WellFormed) (hsettled : sm.Settled entry)
    (happly : sm.applyEntry entry = .ok (sm', response)) : sm'.db.ledger = sm.db.ledger := by
  rcases applyEntry_db happly with ⟨cmd, hpayload, happly⟩ | ⟨_, heq⟩
  · exact (apply_step H happly).eq_of_settled (hsettled cmd hpayload)
  · rw [heq]

/-- What an entry makes of the ledger depends on the ledger alone. -/
theorem applyEntry_ledger {sm₁ sm₂ : ArrowRedbStateMachine LogId Membership}
    (H₁ : sm₁.db.WellFormed) (H₂ : sm₂.db.WellFormed) (hledger : sm₁.db.ledger = sm₂.db.ledger)
    (h₁ : sm₁.applyEntry entry = .ok (sm₁', response₁))
    (h₂ : sm₂.applyEntry entry = .ok (sm₂', response₂)) : sm₁'.db.ledger = sm₂'.db.ledger := by
  rcases applyEntry_db h₁ with ⟨cmd, hpayload, h₁⟩ | ⟨hno, h₁⟩
  · rcases applyEntry_db h₂ with ⟨cmd', hpayload', h₂⟩ | ⟨hno, _⟩
    · cases hpayload.symm.trans hpayload'
      exact (apply_step H₁ h₁).unique (hledger ▸ apply_step H₂ h₂)
    · exact absurd hpayload (hno cmd)
  · rcases applyEntry_db h₂ with ⟨cmd, hpayload, _⟩ | ⟨_, h₂⟩
    · exact absurd hpayload (hno cmd)
    · rw [h₁, h₂, hledger]

/-! ## Runs of entries -/

theorem run_applyEntry_wellFormed (H : sm.db.WellFormed)
    (hrun : run applyEntry sm es = .ok (sm', responses)) : sm'.db.WellFormed :=
  run_invariant (I := fun sm => sm.db.WellFormed)
    (fun _ _ _ _ H happly => applyEntry_wellFormed H happly) hrun H

theorem run_applyEntry_smMeta (hrun : run applyEntry sm es = .ok (sm', responses)) :
    sm'.db.smMeta = sm.db.smMeta :=
  run_invariant (I := fun sm' => sm'.db.smMeta = sm.db.smMeta)
    (fun _ _ _ _ heq happly => (applyEntry_smMeta happly).trans heq) hrun rfl

/-- Entries that are all settled leave the ledger as it is. -/
theorem run_applyEntry_of_settled (H : sm.db.WellFormed) (hsettled : ∀ entry ∈ es, sm.Settled entry)
    (hrun : run applyEntry sm es = .ok (sm', responses)) : sm'.db.ledger = sm.db.ledger := by
  refine (run_invariant_of_eachStep
    (I := fun sm' => sm'.db.WellFormed ∧ sm'.db.ledger = sm.db.ledger)
    (fun t entry t' o ⟨Ht, hledger⟩ hsettled happly => ⟨applyEntry_wellFormed Ht happly, ?_⟩)
    hrun (eachStep_of_forall_mem hsettled) ⟨H, rfl⟩).2
  have hsettled' : t.Settled entry := fun cmd hpayload => hledger ▸ hsettled cmd hpayload
  exact (applyEntry_of_settled Ht hsettled' happly).trans hledger

theorem run_applyEntry_ledger {sm₁ sm₂ : ArrowRedbStateMachine LogId Membership}
    (H₁ : sm₁.db.WellFormed) (H₂ : sm₂.db.WellFormed) (hledger : sm₁.db.ledger = sm₂.db.ledger)
    (h₁ : run applyEntry sm₁ es = .ok (sm₁', responses₁))
    (h₂ : run applyEntry sm₂ es = .ok (sm₂', responses₂)) : sm₁'.db.ledger = sm₂'.db.ledger := by
  induction es generalizing sm₁ sm₂ responses₁ responses₂ with
  | nil =>
    obtain ⟨rfl, _⟩ := run_nil_eq_ok_iff.mp h₁
    obtain ⟨rfl, _⟩ := run_nil_eq_ok_iff.mp h₂
    exact hledger
  | cons entry es ih =>
    obtain ⟨t₁, _, _, happly₁, hrun₁, _⟩ := run_cons_eq_ok_iff.mp h₁
    obtain ⟨t₂, _, _, happly₂, hrun₂, _⟩ := run_cons_eq_ok_iff.mp h₂
    exact ih (applyEntry_wellFormed H₁ happly₁) (applyEntry_wellFormed H₂ happly₂)
      (applyEntry_ledger H₁ H₂ hledger happly₁ happly₂) hrun₁ hrun₂

/-! ## Watermarks -/

/-- The watermarks in memory. -/
def watermarks (sm : ArrowRedbStateMachine LogId Membership) :
    Option LogId × StoredMembership LogId Membership :=
  (sm.lastApplied, sm.lastMembership)

/-- The watermarks move with the entries, whatever the database holds. -/
theorem applyEntry_watermarks {sm₁ sm₂ : ArrowRedbStateMachine LogId Membership}
    (heq : sm₁.watermarks = sm₂.watermarks) (h₁ : sm₁.applyEntry entry = .ok (sm₁', response₁))
    (h₂ : sm₂.applyEntry entry = .ok (sm₂', response₂)) : sm₁'.watermarks = sm₂'.watermarks := by
  have hmembership : sm₁.lastMembership = sm₂.lastMembership := congrArg Prod.snd heq
  rw [applyEntry] at h₁ h₂
  cases hpayload : entry.payload with
  | blank | membership =>
    simp only [hpayload] at h₁ h₂
    cases h₁
    cases h₂
    simp only [watermarks, hmembership]
  | normal cmd =>
    simp only [hpayload] at h₁ h₂
    split at h₁
    · cases h₁
    split at h₂
    · cases h₂
    cases h₁
    cases h₂
    simp only [watermarks, hmembership]

theorem run_applyEntry_watermarks {sm₁ sm₂ : ArrowRedbStateMachine LogId Membership}
    (heq : sm₁.watermarks = sm₂.watermarks) (h₁ : run applyEntry sm₁ es = .ok (sm₁', responses₁))
    (h₂ : run applyEntry sm₂ es = .ok (sm₂', responses₂)) : sm₁'.watermarks = sm₂'.watermarks := by
  induction es generalizing sm₁ sm₂ responses₁ responses₂ with
  | nil =>
    obtain ⟨rfl, _⟩ := run_nil_eq_ok_iff.mp h₁
    obtain ⟨rfl, _⟩ := run_nil_eq_ok_iff.mp h₂
    exact heq
  | cons entry es ih =>
    obtain ⟨t₁, _, _, happly₁, hrun₁, _⟩ := run_cons_eq_ok_iff.mp h₁
    obtain ⟨t₂, _, _, happly₂, hrun₂, _⟩ := run_cons_eq_ok_iff.mp h₂
    exact ih (applyEntry_watermarks heq happly₁ happly₂) hrun₁ hrun₂

/-- Opening reads the watermarks off the watermark table alone. -/
theorem open_of_smMeta (hopen : open_ codec db = .ok sm)
    (h : openTable db'.smMeta = openTable db.smMeta) : ∃ sm', open_ codec db' = .ok sm' ∧
      sm'.watermarks = sm.watermarks ∧ sm'.db = { db' with smMeta := some (openTable db'.smMeta) } := by
  rw [open_] at hopen
  rw [open_, h]
  split at hopen
  · cases hopen
  split at hopen
  · cases hopen
  cases hopen
  exact ⟨_, rfl, rfl, rfl⟩

theorem open_db (hopen : open_ codec db = .ok sm) :
    sm.db = { db with smMeta := some (openTable db.smMeta) } := by
  obtain ⟨sm', heq, _, hdb⟩ := open_of_smMeta hopen rfl
  cases hopen.symm.trans heq
  exact hdb

theorem open_wellFormed (H : db.WellFormed) (hopen : open_ codec db = .ok sm) :
    sm.db.WellFormed := by
  rw [open_db hopen]
  exact ⟨H.encoded, H.inv⟩

/-- Whether the watermarks can be written depends on them alone; the ledger stays. -/
theorem persistSmMeta_of_watermarks {sm₁ sm₂ : ArrowRedbStateMachine LogId Membership}
    (heq : sm₂.watermarks = sm₁.watermarks) (h₁ : sm₁.persistSmMeta codec = .ok sm₁') :
    ∃ sm₂', sm₂.persistSmMeta codec = .ok sm₂' ∧ sm₂'.watermarks = sm₁'.watermarks ∧
      sm₂'.db.ledger = sm₂.db.ledger := by
  obtain ⟨happlied, hmembership⟩ := Prod.mk.inj heq
  rw [persistSmMeta] at h₁
  rw [persistSmMeta, happlied, hmembership]
  split at h₁
  · cases h₁
  split at h₁
  · cases h₁
  cases h₁
  exact ⟨_, rfl, rfl, rfl⟩

theorem apply_eq_ok (happly : sm.apply codec es = .ok (sm', responses)) :
    ∃ last, run applyEntry sm es = .ok (last, responses) ∧ last.persistSmMeta codec = .ok sm' := by
  rw [apply] at happly
  split at happly
  · cases happly
  · next last _ hrun =>
    split at happly
    · cases happly
    · next hpersist =>
      cases happly
      exact ⟨last, hrun, hpersist⟩

/-! ## Delivering a batch of entries again -/

/-- **Crash and replay.** The store crashes after a prefix of the entries, before the watermark is
written; it is opened again and given all the entries from the old watermark on. If every entry of
the prefix is settled where the prefix leads to, the tables come out as without the crash. -/
theorem crash_replay_of_settled (H : db.WellFormed) (hopen : open_ codec db = .ok sm)
    (honce : sm.apply codec es = .ok (once, responses)) (hes : p <+: es)
    (hcrash : run applyEntry sm p = .ok (crashed, answered))
    (hsettled : ∀ entry ∈ p, crashed.Settled entry) :
    ∃ reopened twice responses', open_ codec crashed.db = .ok reopened ∧
      reopened.watermarks = sm.watermarks ∧
      reopened.apply codec es = .ok (twice, responses') ∧
      SameTables once.db twice.db ∧ twice.watermarks = once.watermarks := by
  obtain ⟨rest, rfl⟩ := hes
  have Hsm := open_wellFormed H hopen
  obtain ⟨last, hrun, hpersist⟩ := apply_eq_ok honce
  obtain ⟨_, _, _, hrun₁, hrun₂, _⟩ := run_append_eq_ok_iff.mp hrun
  cases hcrash.symm.trans hrun₁
  have Hcrashed := run_applyEntry_wellFormed Hsm hcrash
  -- the crash leaves the watermark table as it was
  have hmeta : openTable crashed.db.smMeta = openTable db.smMeta := by
    rw [run_applyEntry_smMeta hcrash, open_db hopen]
    rfl
  obtain ⟨reopened, hreopen, hmarks, hdb⟩ := open_of_smMeta hopen hmeta
  have Hreopened := open_wellFormed Hcrashed hreopen
  have hledger : reopened.db.ledger = crashed.db.ledger := by
    rw [hdb]
    rfl
  obtain ⟨last', responses', hrun', _⟩ := run_total
    (I := fun sm : ArrowRedbStateMachine LogId Membership => sm.db.WellFormed)
    (fun _ entry H => applyEntry_total H entry) Hreopened (p ++ rest)
  obtain ⟨again, _, _, hrun₁', hrun₂', _⟩ := run_append_eq_ok_iff.mp hrun'
  -- the second delivery of the prefix changes nothing, and the rest runs as before
  have hagain : again.db.ledger = crashed.db.ledger := by
    refine (run_applyEntry_of_settled Hreopened (fun entry hin cmd hpayload => ?_) hrun₁').trans hledger
    exact hledger ▸ hsettled entry hin cmd hpayload
  have hlast := run_applyEntry_ledger Hcrashed (run_applyEntry_wellFormed Hreopened hrun₁')
    hagain.symm hrun₂ hrun₂'
  have hmarks' := run_applyEntry_watermarks hmarks hrun' hrun
  obtain ⟨once', hpersist', _, honce'⟩ := persistSmMeta_of_watermarks rfl hpersist
  cases hpersist.symm.trans hpersist'
  obtain ⟨twice, htwice, htwice_marks, htwice_ledger⟩ := persistSmMeta_of_watermarks hmarks' hpersist
  refine ⟨reopened, twice, responses', hreopen, hmarks, ?_, sameTables_of_ledger_eq ?_, htwice_marks⟩
  · rw [apply, hrun']
    dsimp only
    rw [htwice]
  · exact htwice_ledger.trans (hlast.symm.trans honce'.symm)

/-- Log ids of one byte and no memberships, encoded as options are: a tag, then the value. -/
def byteCodec : WatermarkCodec UInt8 Unit where
  encApplied
    | none => .ok [0]
    | some id => .ok [1, id]
  decApplied
    | [0] => .ok none
    | [1, id] => .ok (some id)
    | _ => .error (.other "postcard decode")
  encMembership
    | ⟨none, _⟩ => .ok [0]
    | ⟨some id, _⟩ => .ok [1, id]
  decMembership
    | [0] => .ok ⟨none, ()⟩
    | [1, id] => .ok ⟨some id, ()⟩
    | _ => .error (.other "postcard decode")
  defaultMembership := ⟨none, ()⟩

theorem crash_replay_of_settled_acked :
    ∃ db responses₀ sm once responses crashed answered reopened twice responses',
      run Saci.apply .empty [.registerMasterBatch 1 "orders" 1 [] 100 0] = .ok (db, responses₀) ∧
      open_ byteCodec db = .ok sm ∧
      sm.apply byteCodec
        [⟨1, .normal (.claimRowRange 1 0 50 (.fromU128 1) (.fromU128 7) 10 0)⟩,
          ⟨2, .normal (.ackClaim (.fromU128 1) (.fromU128 7))⟩, ⟨3, .blank⟩] =
        .ok (once, responses) ∧
      run applyEntry sm
        [⟨1, .normal (.claimRowRange 1 0 50 (.fromU128 1) (.fromU128 7) 10 0)⟩,
          ⟨2, .normal (.ackClaim (.fromU128 1) (.fromU128 7))⟩] = .ok (crashed, answered) ∧
      open_ byteCodec crashed.db = .ok reopened ∧
      reopened.apply byteCodec
        [⟨1, .normal (.claimRowRange 1 0 50 (.fromU128 1) (.fromU128 7) 10 0)⟩,
          ⟨2, .normal (.ackClaim (.fromU128 1) (.fromU128 7))⟩, ⟨3, .blank⟩] =
        .ok (twice, responses') ∧
      SameTables once.db twice.db := by
  obtain ⟨db, responses₀, sm, once, responses, crashed, answered, hrun, hopen, honce, hcrash, r,
      hclaim, hmatch, hstatus⟩ : ∃ db responses₀ sm once responses crashed answered,
      run Saci.apply .empty [.registerMasterBatch 1 "orders" 1 [] 100 0] = .ok (db, responses₀) ∧
      open_ byteCodec db = .ok sm ∧
      sm.apply byteCodec
        [⟨1, .normal (.claimRowRange 1 0 50 (.fromU128 1) (.fromU128 7) 10 0)⟩,
          ⟨2, .normal (.ackClaim (.fromU128 1) (.fromU128 7))⟩, ⟨3, .blank⟩] =
        .ok (once, responses) ∧
      run applyEntry sm
        [⟨1, .normal (.claimRowRange 1 0 50 (.fromU128 1) (.fromU128 7) 10 0)⟩,
          ⟨2, .normal (.ackClaim (.fromU128 1) (.fromU128 7))⟩] = .ok (crashed, answered) ∧
      ∃ r, crashed.db.ledger.claim (.fromU128 1) = some r ∧ r.Matches 1 0 50 (.fromU128 7) ∧
        r.status = .completed :=
    ⟨_, _, _, _, _, _, _, rfl, rfl, rfl, rfl, _, rfl, ⟨rfl, rfl, rfl, rfl⟩, rfl⟩
  have hclaimed : crashed.Settled
      ⟨1, .normal (.claimRowRange 1 0 50 (.fromU128 1) (.fromU128 7) 10 0)⟩ := by
    intro cmd hcmd
    cases hcmd
    exact .inr ⟨r, hclaim, hmatch⟩
  have hacked : crashed.Settled ⟨2, .normal (.ackClaim (.fromU128 1) (.fromU128 7))⟩ := by
    intro cmd hcmd
    cases hcmd
    intro r' hclaim' hheld
    cases hclaim.symm.trans hclaim'
    cases hstatus.symm.trans hheld.1
  obtain ⟨reopened, twice, responses', hreopen, _, htwice, hsame, _⟩ :=
    crash_replay_of_settled (run_wellFormed Database.empty_wellFormed hrun) hopen honce
      ⟨[⟨3, .blank⟩], rfl⟩ hcrash
      (List.forall_mem_cons.mpr ⟨hclaimed, List.forall_mem_singleton.mpr hacked⟩)
  exact ⟨db, responses₀, sm, once, responses, crashed, answered, reopened, twice, responses', hrun,
    hopen, honce, hcrash, hreopen, htwice, hsame⟩

/-- A claim and its release are applied, and applied again after the crash: the second release
counts one more attempt. -/
theorem crash_replay_not_idempotent :
    ∃ db responses₀ sm once responses crashed answered reopened twice responses',
      run Saci.apply .empty [.registerMasterBatch 1 "orders" 1 [] 100 0] = .ok (db, responses₀) ∧
      open_ byteCodec db = .ok sm ∧
      sm.apply byteCodec
        [⟨1, .normal (.claimRowRange 1 0 50 (.fromU128 1) (.fromU128 7) 10 0)⟩,
          ⟨2, .normal (.releaseClaim (.fromU128 1) (.fromU128 7))⟩] = .ok (once, responses) ∧
      run applyEntry sm
        [⟨1, .normal (.claimRowRange 1 0 50 (.fromU128 1) (.fromU128 7) 10 0)⟩,
          ⟨2, .normal (.releaseClaim (.fromU128 1) (.fromU128 7))⟩] = .ok (crashed, answered) ∧
      open_ byteCodec crashed.db = .ok reopened ∧
      reopened.apply byteCodec
        [⟨1, .normal (.claimRowRange 1 0 50 (.fromU128 1) (.fromU128 7) 10 0)⟩,
          ⟨2, .normal (.releaseClaim (.fromU128 1) (.fromU128 7))⟩] = .ok (twice, responses') ∧
      ¬ SameTables once.db twice.db := by
  refine ⟨_, _, _, _, _, _, _, _, _, _, rfl, rfl, rfl, rfl, rfl, rfl, fun h => ?_⟩
  exact absurd h.masterBatches (by decide +kernel)

end ArrowRedbStateMachine

end Saci
