import Saci.Consensus.StateMachine
import Saci.Consensus.Index
import Saci.Consensus.Invariant

/-! # The state machine refines the claim ledger

`Database.ledger` reads the ledger off the tables. Each handler is shown to succeed on a
well-formed database and to take one `Ledger.Step` there; `apply_refines` collects the handlers and
`Reachable.wellFormed` carries well-formedness along every run from the empty database. -/

namespace Saci

namespace Database

/-- The ledger the tables hold. -/
def ledger (db : Database) : Ledger where
  batch := (openTable db.masterBatches).get
  claim := (openTable db.claims).get
  span := indexSpan (openTable db.claimsByBatch)
  checkpoint c stage := (openTable db.checkpoints).get (checkpointKey c stage)
  pending := {b | ∃ u, (openTable db.pendingBatches).get b = some u}

/-- The index decodes, and the ledger is one that commands can lead to. -/
structure WellFormed (db : Database) : Prop where
  encoded : EncodedIndex (openTable db.claimsByBatch)
  inv : db.ledger.Inv

variable (db : Database)

@[simp] theorem ledger_batch (b : UInt64) :
    db.ledger.batch b = (openTable db.masterBatches).get b := rfl

@[simp] theorem ledger_claim (c : Uuid) : db.ledger.claim c = (openTable db.claims).get c := rfl

@[simp] theorem ledger_span (b : UInt64) (c : Uuid) :
    db.ledger.span b c = indexSpan (openTable db.claimsByBatch) b c := rfl

@[simp] theorem ledger_checkpoint (c : Uuid) (stage : UInt32) :
    db.ledger.checkpoint c stage = (openTable db.checkpoints).get (checkpointKey c stage) := rfl

@[simp] theorem mem_ledger_pending (b : UInt64) :
    b ∈ db.ledger.pending ↔ ∃ u, (openTable db.pendingBatches).get b = some u := .rfl

theorem empty_ledger : Database.empty.ledger = Ledger.empty := by
  apply Ledger.ext <;> try rfl
  ext b
  simp [ledger, empty, Ledger.empty]

theorem empty_wellFormed : Database.empty.WellFormed where
  encoded := nofun
  inv := empty_ledger ▸ Ledger.empty_inv

end Database

variable {db : Database}

theorem readMasterBatch_eq (db : Database) (b : UInt64) :
    readMasterBatch db b = db.ledger.batch b := bind_get ..

theorem readClaim_eq (db : Database) (c : Uuid) : readClaim db c = db.ledger.claim c :=
  bind_get ..

theorem readCheckpoint_eq (db : Database) (c : Uuid) (stage : UInt32) :
    readCheckpoint db c stage = db.ledger.checkpoint c stage := bind_get ..

/-- The result is a success that takes the step of the command on the ledger. -/
def Refines (db : Database) (cmd : ConsensusCommand)
    (result : SaciResult (Database × ConsensusResponse)) : Prop :=
  ∃ db' response, result = .ok (db', response) ∧ EncodedIndex (openTable db'.claimsByBatch) ∧
    db.ledger.Step cmd response db'.ledger

theorem refines_ok {db' : Database} (hencoded : EncodedIndex (openTable db'.claimsByBatch))
    (hledger : db'.ledger = σ) (hstep : db.ledger.Step cmd response σ) :
    Refines db cmd (.ok (db', response)) :=
  ⟨db', response, rfl, hencoded, hledger ▸ hstep⟩

theorem refines_refused {db' : Database} {message : String}
    (hencoded : EncodedIndex (openTable db'.claimsByBatch)) (hledger : db'.ledger = db.ledger)
    (hrefuses : db.ledger.Refuses cmd) : Refines db cmd (.ok (db', .error message)) :=
  refines_ok hencoded hledger (.refused hrefuses)

theorem applyRegisterMasterBatch_refines (H : db.WellFormed) :
    Refines db (.registerMasterBatch b component schemaId ipcBytes totalRows now)
      (applyRegisterMasterBatch db b component schemaId ipcBytes totalRows now) := by
  unfold applyRegisterMasterBatch
  split_ifs with hlen
  · exact refines_refused H.encoded rfl hlen
  · refine refines_ok H.encoded ?_ (.registered (not_le.mp hlen))
    apply Ledger.ext <;> try rfl
    · exact Table.get_insert_eq_update ..
    · ext b'
      simp only [Database.mem_ledger_pending, openTable_some, Table.get_insert, Ledger.register,
        MasterBatchRecord.registered, Set.mem_insert_iff]
      by_cases hb : b' = b <;> simp [hb]

theorem applyPoisonBatch_refines (H : db.WellFormed) :
    Refines db (.poisonBatch b now) (applyPoisonBatch db b now) := by
  unfold applyPoisonBatch
  dsimp only
  split
  · next hget => exact refines_refused H.encoded rfl hget
  · next m hget =>
    split_ifs with hpoisoned
    · exact refines_ok H.encoded rfl (.poisonedAgain hget hpoisoned)
    · refine refines_ok H.encoded ?_ (.poisoned hget hpoisoned)
      apply Ledger.ext <;> try rfl
      · simp [Ledger.poison, Ledger.modifyBatch, Ledger.withdraw, Database.ledger,
          Table.get_insert_eq_update, hget, MasterBatchRecord.poison]
      · ext b'
        simp only [Database.mem_ledger_pending, openTable_some, Table.get_remove, Ledger.poison,
          Ledger.mem_withdraw_pending, and_true]
        by_cases hb : b' = b <;> simp [hb, Ledger.modifyBatch]

theorem applyHeartbeat_refines (H : db.WellFormed) :
    Refines db (.heartbeat i at_) (applyHeartbeat db i at_) :=
  refines_ok H.encoded rfl .heartbeat

theorem applyRenewClaim_refines (H : db.WellFormed) :
    Refines db (.renewClaim c i ttl now) (applyRenewClaim db c i ttl now) := by
  unfold applyRenewClaim
  dsimp only
  split
  · next hget =>
    refine refines_refused H.encoded rfl fun r hr => ?_
    cases hget.symm.trans hr
  · next r hget =>
    have hrefused : ¬ (r.HeldBy i ∧ now ≤ r.leaseExpiresAt) →
        db.ledger.Refuses (.renewClaim c i ttl now) := by
      intro hnot r' hr' hheld
      cases hget.symm.trans hr'
      exact not_le.mp fun hle => hnot ⟨hheld, hle⟩
    split_ifs with hstatus hinstance hlease
    · exact refines_refused H.encoded rfl (hrefused fun h => hstatus h.1.1)
    · exact refines_refused H.encoded rfl (hrefused fun h => hinstance h.1.2)
    · exact refines_refused H.encoded rfl (hrefused fun h => not_le.mpr hlease h.2)
    · refine refines_ok H.encoded ?_
        (.renewed hget ⟨not_not.mp hstatus, not_not.mp hinstance⟩ (not_lt.mp hlease))
      apply Ledger.ext <;> try rfl
      exact Table.get_insert_eq_update (openTable db.claims) c (r.renewed ttl now)

/-! ## Release attempts -/

theorem countAttempts_countAttempts (m : MasterBatchRecord) (j k : Nat) :
    (m.countAttempts j).countAttempts k = m.countAttempts (j + k) := by
  simp [MasterBatchRecord.countAttempts, ← Function.iterate_add_apply, Nat.add_comm]

theorem get_incrementReleaseAttempts (table : Table UInt64 MasterBatchRecord) (b b' : UInt64) :
    (incrementReleaseAttempts table b).get b' =
      (table.get b').map (.countAttempts (if b = b' then 1 else 0)) := by
  unfold incrementReleaseAttempts
  split
  · next hget =>
    split_ifs with hb
    · rw [← hb, hget]; rfl
    · rw [show MasterBatchRecord.countAttempts 0 = id from rfl, Option.map_id_fun]; rfl
  · next m hget =>
    rw [Table.get_insert]
    split_ifs with hb hb' hb'
    · rw [hb, hget]; rfl
    · exact absurd hb.symm hb'
    · exact absurd hb'.symm hb
    · rw [show MasterBatchRecord.countAttempts 0 = id from rfl, Option.map_id_fun]; rfl

/-- Each occurrence of a batch in the list counts one attempt. -/
theorem get_foldl_incrementReleaseAttempts (table : Table UInt64 MasterBatchRecord)
    (l : List UInt64) (b : UInt64) :
    (l.foldl incrementReleaseAttempts table).get b =
      (table.get b).map (.countAttempts (l.count b)) := by
  induction l generalizing table with
  | nil => exact (congrFun Option.map_id_fun _).symm
  | cons b' l ih =>
    rw [List.foldl_cons, ih, get_incrementReleaseAttempts, Option.map_map, List.count_cons]
    congr 1
    funext m
    simp only [Function.comp_apply, countAttempts_countAttempts, beq_iff_eq, Nat.add_comm]

theorem get_resetReleaseAttempts (table : Table UInt64 MasterBatchRecord) (b b' : UInt64) :
    (resetReleaseAttempts table b).get b' =
      (table.get b').map fun m => if b' = b then m.resetAttempts else m := by
  unfold resetReleaseAttempts
  split
  · next hget =>
    by_cases hb : b' = b
    · rw [hb, hget]; rfl
    · simp [hb]
  · next m hget =>
    by_cases hcount : m.releaseAttempts = 0
    · have hsame : m.resetAttempts = m := by rw [MasterBatchRecord.resetAttempts, ← hcount]
      rw [if_neg (not_not.mpr hcount)]
      split_ifs with hb
      · rw [hb, hget, Option.map_some, hsame]
      · simp
    · rw [if_pos hcount, Table.get_insert]
      split_ifs with hb
      · rw [hb, hget]; rfl
      · simp

/-! ## Claims -/

theorem claim_refused (hget : (openTable db.claims).get c = some r) (hnot : ¬ r.HeldBy i) :
    ∀ r, db.ledger.claim c = some r → ¬ r.HeldBy i := by
  intro r' hr'
  cases hget.symm.trans hr'
  exact hnot

theorem applyAckClaim_refines (H : db.WellFormed) :
    Refines db (.ackClaim c i) (applyAckClaim db c i) := by
  unfold applyAckClaim
  dsimp only
  split
  · next hget =>
    refine refines_refused H.encoded rfl fun r hr => ?_
    cases hget.symm.trans hr
  · next r hget =>
    split_ifs with hstatus hinstance
    · exact refines_refused H.encoded rfl (claim_refused hget fun h => hstatus h.1)
    · exact refines_refused H.encoded rfl (claim_refused hget fun h => hinstance h.2)
    · have hencoded := H.encoded.insert r.batchId c r.rowRangeStart r.rowRangeEnd .completed
      obtain ⟨complete, hloop, hiff⟩ := hencoded.allCompleteLoop_eq r.batchId
      rw [hloop]
      refine refines_ok hencoded ?_ (.acked hget ⟨not_not.mp hstatus, not_not.mp hinstance⟩)
      have hspan : indexSpan ((openTable db.claimsByBatch).insert (claimsByBatchKey r.batchId c)
          (claimsByBatchValue r.rowRangeStart r.rowRangeEnd .completed)) =
          (db.ledger.file c r.completed).span := by
        funext b' c'
        rw [indexSpan_insert]; rfl
      apply Ledger.ext
      · funext b'
        rw [Ledger.ack, Ledger.modifyBatch_batch]
        exact get_resetReleaseAttempts ..
      · exact Table.get_insert_eq_update (openTable db.claims) c r.completed
      · exact hspan
      · rfl
      · ext b'
        have hcomplete : complete = true ↔ (db.ledger.file c r.completed).AllComplete r.batchId := by
          rw [hiff, hspan]; rfl
        simp only [Database.mem_ledger_pending, Ledger.ack, Ledger.modifyBatch,
          Ledger.mem_withdraw_pending, ← hcomplete]
        cases complete with
        | false => simp [Ledger.file]
        | true =>
          simp only [if_true, openTable_some, Table.get_remove, and_true, Ledger.file,
            Database.mem_ledger_pending]
          by_cases hb : b' = r.batchId <;> simp [hb]

theorem applyReleaseClaim_refines (H : db.WellFormed) :
    Refines db (.releaseClaim c i) (applyReleaseClaim db c i) := by
  unfold applyReleaseClaim
  dsimp only
  split
  · next hget =>
    refine refines_refused H.encoded rfl fun r hr => ?_
    cases hget.symm.trans hr
  · next r hget =>
    split_ifs with hstatus hinstance
    · exact refines_refused H.encoded rfl (claim_refused hget fun h => hstatus h.1)
    · exact refines_refused H.encoded rfl (claim_refused hget fun h => hinstance h.2)
    · refine refines_ok (H.encoded.insert r.batchId c r.rowRangeStart r.rowRangeEnd .pending) ?_
        (.released hget ⟨not_not.mp hstatus, not_not.mp hinstance⟩)
      apply Ledger.ext <;> try rfl
      · funext b'
        rw [Ledger.release, Ledger.modifyBatch_batch]
        refine (get_incrementReleaseAttempts ..).trans ?_
        congr 1
        funext m
        split_ifs <;> first | rfl | simp_all
      · exact Table.get_insert_eq_update (openTable db.claims) c r.released
      · funext b' c'
        exact indexSpan_insert ..

/-- The replay check, for a batch that a stored claim keeps registered. -/
theorem idempotentReplay_eq (H : db.WellFormed) (b : UInt64) (s e : UInt32) (c i : Uuid) :
    (∃ r m, db.ledger.claim c = some r ∧ r.Matches b s e i ∧ db.ledger.batch b = some m ∧
      idempotentReplay db b s e c i =
        .ok (some (.batchClaimed b m.component s e m.schemaId c i r.leaseExpiresAt))) ∨
    (∀ r, db.ledger.claim c = some r → ¬ r.Matches b s e i) ∧
      idempotentReplay db b s e c i = .ok none := by
  unfold idempotentReplay
  rw [bind_get]
  cases hget : (openTable db.claims).get c with
  | none =>
    refine .inr ⟨fun r hr => ?_, rfl⟩
    cases hget.symm.trans hr
  | some r =>
    dsimp only
    split_ifs with hmatch
    · obtain ⟨m, hm⟩ := H.inv.parent_of_claim hget
      rw [hmatch.1] at hm
      refine .inl ⟨r, m, hget, hmatch, hm, ?_⟩
      cases hbatches : db.masterBatches with
      | none =>
        rw [Database.ledger_batch, hbatches] at hm
        cases hm
      | some table =>
        have hm : table.get b = some m := by simpa [hbatches] using hm
        simp only [hm]
    · refine .inr ⟨fun r' hr' => ?_, rfl⟩
      cases hget.symm.trans hr'
      exact hmatch

/-- The precheck rejects, or finds the batch and its rows free. -/
theorem precheckClaim_eq (H : db.WellFormed) (b : UInt64) (s e : UInt32) :
    (∃ message, precheckClaim db b s e = .ok (.inl (.error message)) ∧
      ∀ m, db.ledger.batch b = some m → e ≤ m.totalRows → ¬ db.ledger.Free b s e) ∨
    ∃ m, precheckClaim db b s e = .ok (.inr m) ∧ db.ledger.batch b = some m ∧
      e ≤ m.totalRows ∧ db.ledger.Free b s e := by
  unfold precheckClaim
  rw [bind_get]
  cases hget : (openTable db.masterBatches).get b with
  | none =>
    refine .inl ⟨_, rfl, fun m hm => ?_⟩
    cases hget.symm.trans hm
  | some m =>
    dsimp only
    split_ifs with hrows
    · refine .inl ⟨_, rfl, fun m' hm' hle => ?_⟩
      cases hget.symm.trans hm'
      exact absurd hrows (not_lt.mpr hle)
    · obtain ⟨overlap, hoverlap, hiff⟩ := H.encoded.hasBatchOverlap_eq b s e
      have hfree : overlap = false ↔ db.ledger.Free b s e := hiff
      cases hidx : db.claimsByBatch with
      | none =>
        refine .inr ⟨m, rfl, hget, not_lt.mp hrows, fun c s' e' st hspan => ?_⟩
        simp [hidx, indexSpan] at hspan
      | some table =>
        rw [hidx, openTable_some] at hoverlap
        simp only [hoverlap]
        cases overlap with
        | false => exact .inr ⟨m, rfl, hget, not_lt.mp hrows, hfree.mp rfl⟩
        | true =>
          refine .inl ⟨_, rfl, fun _ _ _ h => ?_⟩
          cases hfree.mpr h

theorem confirmClaim_eq (H : db.WellFormed) (hfree : db.ledger.Free b s e)
    (m : MasterBatchRecord) (c i : Uuid) (ttl now : UInt64) :
    ∃ db', confirmClaim db m b s e c i ttl now =
        .ok (db', .batchClaimed b m.component s e m.schemaId c i (now + ttl)) ∧
      EncodedIndex (openTable db'.claimsByBatch) ∧
      db'.ledger = db.ledger.file c (.claimed b s e i ttl now) := by
  obtain ⟨overlap, hoverlap, hiff⟩ := H.encoded.hasBatchOverlap_eq b s e
  cases hiff.mpr hfree
  unfold confirmClaim
  dsimp only
  rw [hoverlap]
  refine ⟨_, rfl, H.encoded.insert b c s e .claimed, ?_⟩
  apply Ledger.ext <;> try rfl
  · exact Table.get_insert_eq_update (openTable db.claims) c (.claimed b s e i ttl now)
  · funext b' c'
    exact indexSpan_insert ..

theorem applyClaimRowRange_refines (H : db.WellFormed) :
    Refines db (.claimRowRange b s e c i ttl now)
      (applyClaimRowRange db b s e c i ttl now) := by
  unfold applyClaimRowRange
  split_ifs with hrange
  · exact refines_refused H.encoded rfl (.inl hrange)
  · rcases idempotentReplay_eq H b s e c i with
      ⟨r, m, hclaim, hmatch, hbatch, heq⟩ | ⟨hfresh, heq⟩
    · rw [heq]
      exact refines_ok H.encoded rfl (.replayed (not_le.mp hrange) hclaim hmatch hbatch)
    · rw [heq]
      rcases precheckClaim_eq H b s e with ⟨message, heq, hnot⟩ | ⟨m, heq, hbatch, hrows, hfree⟩
      · rw [heq]
        exact refines_refused H.encoded rfl (.inr ⟨hfresh, hnot⟩)
      · rw [heq]
        obtain ⟨db', hconfirm, hencoded, hledger⟩ := confirmClaim_eq H hfree m c i ttl now
        exact ⟨db', _, hconfirm, hencoded,
          hledger ▸ .claimed (not_le.mp hrange) hfresh hbatch hrows hfree⟩

theorem applyCheckpoint_refines (H : db.WellFormed) :
    Refines db (.checkpoint c stage ipcBytes schemaId now)
      (applyCheckpoint db c stage ipcBytes schemaId now) := by
  unfold applyCheckpoint
  split_ifs with hlen
  · exact refines_refused H.encoded rfl (.inl hlen)
  have hlen := not_le.mp hlen
  cases hclaims : db.claims with
  | none =>
    refine refines_refused H.encoded rfl (.inr ?_)
    rw [Database.ledger_claim, hclaims]; rfl
  | some claims =>
    dsimp only
    cases hget : claims.get c with
    | none =>
      refine refines_refused H.encoded rfl (.inr ?_)
      rw [Database.ledger_claim, hclaims]; exact hget
    | some r =>
      have hclaim : db.ledger.claim c = some r := by
        rw [Database.ledger_claim, hclaims]; exact hget
      obtain ⟨m, hm⟩ := H.inv.parent_of_claim hclaim
      have hbatch : (openTable db.masterBatches).get r.batchId = some m := hm
      dsimp only
      rw [hbatch]
      split_ifs with hdup
      · obtain ⟨k, hk, hhash⟩ := (Option.any_eq_true _ _).mp hdup
        exact refines_ok H.encoded rfl (.duplicate hlen hclaim hm hk (of_decide_eq_true hhash))
      · refine refines_ok H.encoded ?_ (.checkpointed hlen hclaim hm fun k hk hhash => hdup ?_)
        · apply Ledger.ext <;> try rfl
          · refine (Table.get_insert_eq_update ..).trans ?_
            rw [Ledger.writeCheckpoint, CheckpointRecord.written, hm]; rfl
          · have hopen : openTable db.claims = claims := by rw [hclaims]; rfl
            exact congrArg Table.get hopen.symm
          · funext c' stage'
            refine (Table.get_insert ..).trans ?_
            rw [Ledger.writeCheckpoint]
            simp only [checkpointKey_inj]
            rfl
        · rw [show (openTable db.checkpoints).get _ = _ from hk]
          exact decide_eq_true hhash

/-! ## Sweeps -/

/-- The rows a sweep at `now` takes back. -/
def expiredRows (table : Table Uuid ClaimRecord) (now : UInt64) : List (Uuid × ClaimRecord) :=
  table.rows.filter fun row => row.2.expired now

theorem mem_expiredRows {table : Table Uuid ClaimRecord} :
    (c, r) ∈ expiredRows table now ↔ table.get c = some r ∧ r.expired now = true := by
  rw [expiredRows, List.mem_filter, Table.get_eq_some_iff]

theorem expiredRows_nodup (table : Table Uuid ClaimRecord) (now : UInt64) :
    ((expiredRows table now).map fun row => row.1).Nodup :=
  table.keys_nodup.sublist (List.filter_sublist.map _)

theorem get_insertAll_expiredRows (table : Table Uuid ClaimRecord) (now : UInt64) (c : Uuid) :
    (table.insertAll (fun row => row.1) (fun row => row.2.reclaimed)
      (expiredRows table now)).get c =
        (table.get c).map fun r => if r.expired now then r.reclaimed else r := by
  by_cases hexpired : ∃ r, table.get c = some r ∧ r.expired now = true
  · obtain ⟨r, hr, hnow⟩ := hexpired
    rw [hr, Option.map_some, if_pos hnow]
    exact Table.get_insertAll_of_mem _ _ (expiredRows_nodup table now)
      (mem_expiredRows.mpr ⟨hr, hnow⟩)
  · rw [Table.get_insertAll_of_forall_ne]
    · cases hr : table.get c with
      | none => rfl
      | some r => rw [Option.map_some, if_neg fun hnow => hexpired ⟨r, hr, hnow⟩]
    · intro (c', r) hrow hc
      obtain ⟨hr, hnow⟩ := mem_expiredRows.mp hrow
      exact hexpired ⟨r, hc ▸ hr, hnow⟩

theorem indexSpan_insertAll_expiredRows (db : Database) (now b : UInt64) (c : Uuid) :
    indexSpan ((openTable db.claimsByBatch).insertAll
      (fun row => claimsByBatchKey row.2.batchId row.1)
      (fun row => claimsByBatchValue row.2.rowRangeStart row.2.rowRangeEnd .pending)
      (expiredRows (openTable db.claims) now)) b c = (db.ledger.reclaim now).span b c := by
  simp only [Ledger.reclaim, Database.ledger_claim]
  by_cases hexpired : ∃ r, (openTable db.claims).get c = some r ∧ r.expired now = true ∧
      r.batchId = b
  · obtain ⟨r, hr, hnow, rfl⟩ := hexpired
    have hget := Table.get_insertAll_of_mem (t := openTable db.claimsByBatch)
      (fun row => claimsByBatchKey row.2.batchId row.1)
      (fun row => claimsByBatchValue row.2.rowRangeStart row.2.rowRangeEnd .pending)
      (claimsByBatchKey_nodup (expiredRows_nodup (openTable db.claims) now)) (mem_expiredRows.mpr ⟨hr, hnow⟩)
    rw [indexSpan, hget, hr]
    simp [hnow]
  · rw [indexSpan, Table.get_insertAll_of_forall_ne, Database.ledger_span, indexSpan]
    · cases hr : (openTable db.claims).get c with
      | none => rfl
      | some r =>
        dsimp only
        rw [if_neg fun h => hexpired ⟨r, hr, h⟩]
    · rintro ⟨c', r⟩ hrow hkey
      obtain ⟨hr, hnow⟩ := mem_expiredRows.mp hrow
      obtain ⟨hb, hc⟩ := claimsByBatchKey_inj.mp hkey
      exact hexpired ⟨r, hc ▸ hr, hnow, hb⟩

theorem length_expiredRows (db : Database) (now : UInt64) :
    (expiredRows (openTable db.claims) now).length = db.ledger.expiredCount now :=
  Table.length_filter_rows ..

theorem count_expiredRows (db : Database) (now b : UInt64) :
    ((expiredRows (openTable db.claims) now).map fun row => row.2.batchId).count b =
      db.ledger.expiredIn now b := by
  rw [List.count, List.countP_map, List.countP_eq_length_filter, expiredRows, List.filter_filter,
    Table.length_filter_rows]
  simp [Ledger.expiredIn, and_comm]

/-- A sweep that finds nothing changes nothing. -/
theorem refines_reclaim_nil (H : db.WellFormed) (hnil : expiredRows (openTable db.claims) now = []) :
    Refines db (.reclaimExpired now) (.ok (db, .expiredReclaimed 0)) := by
  have hnone : ∀ c r, db.ledger.claim c = some r → r.expired now = false := by
    intro c r hr
    have hnot := List.eq_nil_iff_forall_not_mem.mp hnil (c, r)
    exact Bool.eq_false_iff.mpr fun hnow => hnot (mem_expiredRows.mpr ⟨hr, hnow⟩)
  have hcount : db.ledger.expiredCount now = 0 := by rw [← length_expiredRows, hnil]; rfl
  have hstep : db.ledger.Step (.reclaimExpired now)
      (.expiredReclaimed (UInt32.ofNat (db.ledger.expiredCount now))) (db.ledger.reclaim now) :=
    .reclaimed
  rw [hcount] at hstep
  exact refines_ok H.encoded (Ledger.reclaim_eq_self hnone).symm hstep

theorem applyReclaimExpired_refines (H : db.WellFormed) :
    Refines db (.reclaimExpired now) (applyReclaimExpired db now) := by
  unfold applyReclaimExpired
  split
  · next hclaims =>
    refine refines_reclaim_nil H ?_
    rw [hclaims]; rfl
  · next table hclaims =>
    have hopen : table = openTable db.claims := by rw [hclaims]; rfl
    subst hopen
    dsimp only
    split_ifs with hempty
    · exact refines_reclaim_nil H (List.isEmpty_iff.mp hempty)
    · refine ⟨_, _, rfl, H.encoded.insertAll, ?_⟩
      have hcount := length_expiredRows db now
      rw [expiredRows] at hcount
      rw [hcount]
      have hstep : db.ledger.Step (.reclaimExpired now) _ _ := .reclaimed
      refine cast (congrArg _ ?_) hstep
      apply Ledger.ext
      · funext b
        rw [Ledger.reclaim_batch, ← count_expiredRows]
        exact (get_foldl_incrementReleaseAttempts ..).symm
      · funext c
        exact (get_insertAll_expiredRows ..).symm
      · funext b c
        exact (indexSpan_insertAll_expiredRows ..).symm
      · rfl
      · rfl

/-! ## Commands and runs -/

/-- **Refinement.** On a well-formed database every command succeeds and takes its ledger step. -/
theorem apply_refines (H : db.WellFormed) (cmd : ConsensusCommand) :
    Refines db cmd (apply db cmd) := by
  cases cmd with
  | registerMasterBatch => exact applyRegisterMasterBatch_refines H
  | claimRowRange => exact applyClaimRowRange_refines H
  | renewClaim => exact applyRenewClaim_refines H
  | ackClaim => exact applyAckClaim_refines H
  | releaseClaim => exact applyReleaseClaim_refines H
  | checkpoint => exact applyCheckpoint_refines H
  | heartbeat => exact applyHeartbeat_refines H
  | reclaimExpired => exact applyReclaimExpired_refines H
  | poisonBatch => exact applyPoisonBatch_refines H

theorem apply_step (H : db.WellFormed) (happly : apply db cmd = .ok (db', response)) :
    db.ledger.Step cmd response db'.ledger := by
  obtain ⟨_, _, heq, _, hstep⟩ := apply_refines H cmd
  cases happly.symm.trans heq
  exact hstep

theorem apply_wellFormed (H : db.WellFormed) (happly : apply db cmd = .ok (db', response)) :
    db'.WellFormed := by
  obtain ⟨_, _, heq, hencoded, hstep⟩ := apply_refines H cmd
  cases happly.symm.trans heq
  exact ⟨hencoded, hstep.inv H.inv⟩

theorem run_wellFormed (H : db.WellFormed) (hrun : run apply db cmds = .ok (db', responses)) :
    db'.WellFormed :=
  run_invariant (fun _ _ _ _ H happly => apply_wellFormed H happly) hrun H

/-- The state machine never fails on a run. -/
theorem run_apply_total (H : db.WellFormed) (cmds : List ConsensusCommand) :
    ∃ db' responses, run apply db cmds = .ok (db', responses) ∧ db'.WellFormed := by
  refine run_total (fun db cmd H => ?_) H cmds
  obtain ⟨db', response, heq, hencoded, hstep⟩ := apply_refines H cmd
  exact ⟨db', response, heq, hencoded, hstep.inv H.inv⟩

/-- The database is left by some sequence of commands from the empty one. -/
def Reachable (db : Database) : Prop :=
  ∃ cmds responses, run apply .empty cmds = .ok (db, responses)

theorem Reachable.wellFormed (H : Reachable db) : db.WellFormed := by
  obtain ⟨cmds, responses, hrun⟩ := H
  exact run_wellFormed Database.empty_wellFormed hrun

theorem Reachable.inv (H : Reachable db) : db.ledger.Inv := H.wellFormed.inv

end Saci
