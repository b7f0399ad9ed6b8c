import Saci.Consensus.Transparency

/-! # What a restored replica gives away

A batch that the database no longer offers, and that is not done, is told apart from the same batch
in a restored replica: take back the claim that holds the row in question, poison the offered
batches before it, and the replica offers it while the database does not. -/

namespace Saci

namespace Ledger
variable {σ σ' : Ledger}

/-- The batch is active if it is offered. -/
def Eligible (σ : Ledger) (b : UInt64) : Prop :=
  ∀ m, σ.batch b = some m → b ∈ σ.pending → m.status = .active

theorem Step.eligible (hstep : σ.Step cmd response σ') (H : σ.Eligible b) : σ'.Eligible b := by
  intro m' hm' hb'
  have hchange := hstep.batch hm'
  rcases hstep.mem_pending.mp hb' with hregisters | ⟨hb, hkept⟩
  · cases hstep with
    | registered =>
      simp only [register, Function.update_apply, MasterBatchRecord.registered] at hm'
      rw [if_pos hregisters.1.symm] at hm'
      cases hm'
      rfl
    | refused hrefuses =>
      cases cmd with
      | registerMasterBatch => exact absurd hregisters.2 (not_lt.mpr hrefuses)
      | _ => cases hregisters
    | _ => cases hregisters
  · generalize hm : σ.batch b = old at hchange
    cases hchange with
    | registered => rfl
    | poisoned =>
      refine absurd ⟨rfl, _, hm, ?_⟩ hkept
      rw [H _ hm hb]
      rintro ⟨⟩
    | counted _ hstatus => exact hstatus.trans (H _ hm hb)

/-- A poisoned batch is no longer offered. -/
theorem Step.not_mem_pending_of_poison (hstep : σ.Step (.poisonBatch b now) response σ')
    (hinv : σ.Inv) (H : σ.Eligible b) : b ∉ σ'.pending := by
  intro hb'
  rcases hstep.mem_pending.mp hb' with hregisters | ⟨hb, hkept⟩
  · exact hregisters
  · obtain ⟨m, hm⟩ := hinv.listed hb
    refine hkept ⟨rfl, m, hm, ?_⟩
    rw [H m hm hb]
    exact nofun

theorem Step.hasGap_of_poison (hstep : σ.Step (.poisonBatch b' now) response σ')
    (H : σ.HasGap b) : σ'.HasGap b := by
  cases hstep with
  | refused | poisonedAgain => exact H
  | poisoned =>
    obtain ⟨m, hm, x, hfree, hreach⟩ := H
    refine ⟨if b = b' then m.poison now else m, ?_, x, hfree, ?_⟩
    · rw [poison_batch, hm]; rfl
    · split_ifs <;> exact hreach

/-- A release leaves a gap where the claim held a row in reach. -/
theorem Step.hasGap_of_release (H : σ.Inv) (hclaim : σ.claim c = some r) (hheld : r.HeldBy i)
    (hstep : σ.Step (.releaseClaim c i) response σ') (hreach : σ.InReach r.batchId x)
    (hstart : r.rowRangeStart ≤ x) (hend : x < r.rowRangeEnd) : σ'.HasGap r.batchId := by
  have hspan := H.mirrored hclaim
  cases hstep with
  | refused hrefuses => exact absurd hheld (hrefuses r hclaim)
  | released hclaim' =>
    cases hclaim.symm.trans hclaim'
    have hother : ∀ c' y, (σ.release c r).span r.batchId c' = some y → y.2.2.active = true →
        c' ≠ c ∧ σ.span r.batchId c' = some y := by
      intro c' y hspan' hactive
      rw [release_span] at hspan'
      split_ifs at hspan' with hc
      · cases hspan'
        cases hactive
      · exact ⟨fun heq => hc ⟨rfl, heq⟩, hspan'⟩
    rw [hasGap_iff]
    refine ⟨x, ?_, ?_⟩
    · intro ⟨c', s, e, st, hspan', hactive, hs, he⟩
      obtain ⟨hne, hspan'⟩ := hother c' _ hspan' hactive
      have hclaimed : r.status.active = true := by rw [hheld.1]; rfl
      rcases H.exclusive hne hspan' hactive hspan hclaimed with h | h <;> order
    · obtain ⟨m, hm, hreach⟩ := hreach
      refine ⟨m.countAttempts 1, ?_, hreach.imp_right fun ⟨y, ⟨c', e, st, hspan', hactive⟩, hxy⟩ => ?_⟩
      · rw [release_batch, hm, Option.map_some, if_pos rfl]
      · refine ⟨y, ⟨c', e, st, ?_, hactive⟩, hxy⟩
        rw [release_span, if_neg, hspan']
        intro ⟨_, hc⟩
        cases (hc ▸ hspan').symm.trans hspan
        order

end Ledger

variable {db db' : Database}

theorem Reachable.eligible (H : Reachable db) (b : UInt64) : db.ledger.Eligible b := by
  obtain ⟨cmds, responses, hrun⟩ := H
  refine (run_invariant (I := fun db => db.WellFormed ∧ db.ledger.Eligible b)
    (fun db cmd db' response H happly => ?_) hrun ⟨Database.empty_wellFormed, ?_⟩).2
  · exact ⟨apply_wellFormed H.1 happly, (apply_step H.1 happly).eligible H.2⟩
  · intro m hm
    cases hm

/-- Poison the batches one after the other. -/
def poisonEach (batches : List UInt64) : List ConsensusCommand :=
  batches.map fun b => .poisonBatch b 0

theorem run_poisonEach (H : db.WellFormed)
    (hrun : run apply db (poisonEach l) = .ok (db', responses)) (b : UInt64) :
    (db.ledger.HasGap b → db'.ledger.HasGap b) ∧
      (b ∈ db.ledger.pending → b ∉ l → b ∈ db'.ledger.pending) ∧
      (b ∈ db'.ledger.pending → b ∈ db.ledger.pending ∧ (db.ledger.Eligible b → b ∉ l)) := by
  induction l generalizing db responses with
  | nil =>
    obtain ⟨rfl, _⟩ := run_nil_eq_ok_iff.mp hrun
    exact ⟨id, fun hb _ => hb, fun hb => ⟨hb, fun _ => List.not_mem_nil⟩⟩
  | cons b' l ih =>
    obtain ⟨t, _, _, happly, hrun, _⟩ := run_cons_eq_ok_iff.mp hrun
    have hstep := apply_step H happly
    obtain ⟨hgap, hkept, hleft⟩ := ih (apply_wellFormed H happly) hrun
    refine ⟨fun h => hgap (hstep.hasGap_of_poison h), fun hb hnot => ?_, fun hb => ?_⟩
    · refine hkept (hstep.mem_pending.mpr (.inr ⟨hb, ?_⟩)) fun hin => hnot (.tail _ hin)
      intro ⟨heq, _⟩
      exact hnot (heq ▸ List.mem_cons_self)
    · obtain ⟨ht, hnot⟩ := hleft hb
      refine ⟨((hstep.mem_pending.mp ht).resolve_left id).1, fun heligible hin => ?_⟩
      rcases List.mem_cons.mp hin with heq | hin
      · exact hstep.not_mem_pending_of_poison H.inv (heq ▸ heligible) (heq ▸ ht)
      · exact hnot (hstep.eligible heligible) hin

/-- What a run that registers no batch leaves alone. -/
theorem run_quiet (H : db.WellFormed) (hquiet : ∀ cmd ∈ cmds, ¬ cmd.Registers b)
    (hrun : run apply db cmds = .ok (db', responses)) :
    (b ∉ db.ledger.pending → b ∉ db'.ledger.pending) ∧
      (db.ledger.Solid b → db'.ledger.Solid b) ∧
      (db.ledger.Eligible b → db'.ledger.Eligible b) := by
  have hquiet := eachStep_of_forall_mem (f := apply) (s := db) hquiet
  refine ⟨fun h => ?_, fun h => ?_, fun h => ?_⟩
  · refine (run_invariant_of_eachStep (I := fun db => db.WellFormed ∧ b ∉ db.ledger.pending)
      (fun _ _ _ _ H hregisters happly => ⟨apply_wellFormed H.1 happly, fun hb => ?_⟩)
      hrun hquiet ⟨H, h⟩).2
    exact H.2 (((apply_step H.1 happly).mem_pending.mp hb).resolve_left hregisters).1
  · exact (run_invariant_of_eachStep (I := fun db => db.WellFormed ∧ db.ledger.Solid b)
      (fun _ _ _ _ H hregisters happly => ⟨apply_wellFormed H.1 happly,
        H.2.step H.1.inv (apply_step H.1 happly) hregisters⟩) hrun hquiet ⟨H, h⟩).2
  · exact (run_invariant (I := fun db => db.WellFormed ∧ db.ledger.Eligible b)
      (fun _ _ _ _ H happly => ⟨apply_wellFormed H.1 happly,
        (apply_step H.1 happly).eligible H.2⟩) hrun ⟨H, h⟩).2

/-- A batch that is not done is given a gap by releasing one claim, if it has none. -/
theorem exists_hasGap (H : db.WellFormed) (hfiled : db.ledger.Filed) (hnot : ¬ db.ledger.Solid b) :
    ∃ cmds : List ConsensusCommand, (∀ cmd ∈ cmds, ∃ c i, cmd = .releaseClaim c i) ∧
      ∀ db' responses, run apply db cmds = .ok (db', responses) →
        db'.ledger.HasGap b ∧ (b ∈ db.ledger.pending → b ∈ db'.ledger.pending) := by
  simp only [Ledger.Solid, not_forall] at hnot
  obtain ⟨x, hreach, hopen⟩ := hnot
  by_cases htaken : db.ledger.Taken b x
  · obtain ⟨c, s, e, st, hspan, hactive, hs, he⟩ := htaken
    obtain ⟨r, hclaim, rfl, hx⟩ := hfiled _ c _ hspan
    cases hx
    have hstatus : r.status = .claimed := by
      cases hst : r.status with
      | claimed => rfl
      | pending =>
        rw [hst] at hactive
        cases hactive
      | completed =>
        rw [hst] at hspan
        exact absurd ⟨c, _, _, hspan, hs, he⟩ hopen
    refine ⟨[.releaseClaim c r.instanceId], fun cmd hin => ⟨c, _, List.mem_singleton.mp hin⟩, ?_⟩
    intro db' responses hrun
    obtain ⟨response, happly, _⟩ := run_singleton_eq_ok_iff.mp hrun
    have hstep := apply_step H happly
    exact ⟨hstep.hasGap_of_release H.inv hclaim ⟨hstatus, rfl⟩ hreach hs he,
      fun hb => hstep.mem_pending.mpr (.inr ⟨hb, id⟩)⟩
  · refine ⟨[], nofun, fun db' responses hrun => ?_⟩
    obtain ⟨rfl, _⟩ := run_nil_eq_ok_iff.mp hrun
    exact ⟨Ledger.hasGap_iff.mpr ⟨x, htaken, hreach⟩, id⟩

theorem Ledger.restored_solid {σ : Ledger} (H : σ.Inv) (hfiled : σ.Filed) :
    σ.restored.Solid b ↔ σ.Solid b := by
  have hspan := hfiled.restored_span H
  simp only [Solid, InReach, SpanAt, hspan]
  rfl

/-- A batch that is not offered, and not done, is seen in a restored replica. -/
theorem solid_of_transparent (H : db.WellFormed) (hfiled : db.ledger.Filed)
    (heligible : ∀ b, db.ledger.Eligible b) (htransparent : Transparent db into watermarks)
    (hbatch : db.ledger.batch b = some m) (hb : b ∉ db.ledger.pending) : db.ledger.Solid b := by
  induction hn : b.toNat using Nat.strong_induction_on generalizing b m with
  | _ n ih =>
  by_contra hnot
  have Ht := restoreState_wellFormed H into watermarks
  have hledger := restoreState_ledger H into watermarks
  have hsolid : ∀ b, (restoreState into (dumpState db) watermarks).ledger.Solid b ↔
      db.ledger.Solid b := by
    intro b
    rw [hledger]
    exact Ledger.restored_solid H.inv hfiled
  obtain ⟨cmds, hrelease, hgap⟩ := exists_hasGap Ht (hledger ▸ Ledger.restored_filed _)
    (mt (hsolid b).mp hnot)
  let lower := (openTable db.masterBatches).keys.filter (· < b)
  have hquiet : ∀ b', ∀ cmd ∈ cmds ++ poisonEach lower, ¬ cmd.Registers b' := by
    intro b' cmd hin
    rcases List.mem_append.mp hin with hin | hin
    · obtain ⟨c, i, rfl⟩ := hrelease cmd hin
      exact id
    · obtain ⟨_, _, rfl⟩ := List.mem_map.mp hin
      exact id
  obtain ⟨db', t', responses, hrun, hrun', hsame⟩ := htransparent (cmds ++ poisonEach lower)
  obtain ⟨t, _, _, hrun₁, hrun₂, _⟩ := run_append_eq_ok_iff.mp hrun'
  obtain ⟨hgap, hkept⟩ := hgap t _ hrun₁
  have hpoison := run_poisonEach (run_wellFormed Ht hrun₁) hrun₂
  -- the replica offers the batch, and none with a gap before it
  have hfirst : ∀ b' ∈ t'.ledger.pending, b' < b → ¬ t'.ledger.HasGap b' := by
    intro b' hb' hlt
    obtain ⟨m', hm'⟩ : ∃ m', db.ledger.batch b' = some m' := by
      by_contra hnone
      refine (run_quiet Ht (hquiet b') hrun').1 ?_ hb'
      rw [hledger]
      exact hnone
    have hlower : b' ∈ lower := by
      refine List.mem_filter.mpr ⟨Table.mem_keys.mpr ⟨m', hm'⟩, decide_eq_true hlt⟩
    by_cases hoffered : b' ∈ db.ledger.pending
    · have heligible' : t.ledger.Eligible b' := by
        refine (run_quiet Ht (fun cmd hin => hquiet b' cmd (List.mem_append_left _ hin)) hrun₁).2.2 ?_
        intro m hm _
        rw [hledger] at hm
        exact heligible b' m hm hoffered
      exact absurd hlower (((hpoison b').2.2 hb').2 heligible')
    · have hdone := ih b'.toNat (hn ▸ UInt64.lt_iff_toNat_lt.mp hlt) hm' hoffered rfl
      exact ((run_quiet Ht (hquiet b') hrun').2.1 ((hsolid b').mpr hdone)).not_hasGap
  have hoffered : b ∈ t'.ledger.pending := by
    refine (hpoison b).2.1 (hkept ?_) ?_
    · rw [hledger]
      exact ⟨m, hbatch⟩
    · exact fun hin => lt_irrefl b (of_decide_eq_true (List.mem_filter.mp hin).2)
  obtain ⟨lo, hi, hfind⟩ := (findFirstPendingBatch_answers_iff (run_wellFormed Ht hrun') b).mpr
    ⟨hoffered, (hpoison b).1 hgap, hfirst⟩
  rw [hsame.pendingBatch] at hfind
  exact (run_quiet H (hquiet b) hrun).1 hb
    (findFirstPendingBatch_eq_some (run_wellFormed H hrun) hfind).1

/-- Without a claims table a `Checkpoint` is refused with a text of its own. -/
theorem claims_isSome_of_transparent (htransparent : Transparent db into watermarks) :
    db.claims.isSome := by
  obtain ⟨batches, claims, index, checkpoints, instances, pending, smMeta⟩ := db
  cases claims with
  | some => rfl
  | none =>
    obtain ⟨db', t', responses, hrun, hrun', _⟩ := htransparent [.checkpoint .zero 0 [] 0 0]
    obtain ⟨response, happly, rfl⟩ := run_singleton_eq_ok_iff.mp hrun
    obtain ⟨response', happly', heq⟩ := run_singleton_eq_ok_iff.mp hrun'
    cases heq
    cases happly
    cases happly'

/-- **Snapshot transparency.** Where the index is in lockstep with the claims, a restored replica
cannot be told from the database exactly when the state comes back from its dump. -/
theorem snapshot_transparent_iff (hreachable : Reachable db) (into : Database)
    (watermarks : Option (Bytes × Bytes)) :
    IndexLockstep db ∧ Transparent db into watermarks ↔ Restorable db := by
  have H := hreachable.wellFormed
  constructor
  · intro ⟨hindex, htransparent⟩
    refine ⟨claims_isSome_of_transparent htransparent, hindex, fun b m hbatch hb => ?_⟩
    rw [readMasterBatch_eq] at hbatch
    exact solid_of_transparent H hindex.filed hreachable.eligible htransparent hbatch hb
  · intro hrestorable
    exact ⟨hrestorable.lockstep, transparent_of_restorable H hrestorable into watermarks⟩

theorem snapshot_transparent_iff_claimed :
    ∃ db responses, run apply .empty
        [.registerMasterBatch 1 "orders" 1 [] 100 0,
          .claimRowRange 1 0 50 (.fromU128 1) (.fromU128 7) 10 0] = .ok (db, responses) ∧
      Restorable db ∧ Transparent db .empty none := by
  have hids : ConsistentClaimIds [.registerMasterBatch 1 "orders" 1 [] 100 0,
      .claimRowRange 1 0 50 (.fromU128 1) (.fromU128 7) 10 0] := by decide +kernel
  obtain ⟨db, responses, hrun, hopened, hoffered⟩ : ∃ db responses, run apply .empty
        [.registerMasterBatch 1 "orders" 1 [] 100 0,
          .claimRowRange 1 0 50 (.fromU128 1) (.fromU128 7) 10 0] = .ok (db, responses) ∧
      db.claims.isSome ∧ ∀ b m, readMasterBatch db b = some m → b ∈ db.ledger.pending := by
    refine ⟨_, _, rfl, rfl, fun b m hbatch => ?_⟩
    rw [readMasterBatch_eq] at hbatch
    cases List.mem_singleton.mp (Table.get_eq_some_iff.mp hbatch)
    exact ⟨(), rfl⟩
  have hdb := run_wellFormed Database.empty_wellFormed hrun
  have hfiled := run_filed Database.empty_wellFormed empty_filed hids.eachStep hrun
  have hrestorable : Restorable db := ⟨hopened, hdb.indexLockstep hfiled,
    fun b m hbatch hb => absurd (hoffered b m hbatch) hb⟩
  exact ⟨db, responses, hrun, hrestorable,
    ((snapshot_transparent_iff ⟨_, _, hrun⟩ .empty none).mpr hrestorable).2⟩

/-- A batch is poisoned with rows left to claim; the restored replica offers it again. -/
theorem snapshot_not_transparent :
    ∃ db responses, run apply .empty
        [.registerMasterBatch 1 "orders" 1 [] 100 0,
          .claimRowRange 1 0 50 (.fromU128 1) (.fromU128 7) 10 0,
          .poisonBatch 1 1] = .ok (db, responses) ∧ ¬ Transparent db .empty none := by
  refine ⟨_, _, rfl, fun htransparent => ?_⟩
  obtain ⟨db', replica', responses, hrun, hrun', hsame⟩ := htransparent []
  cases hrun
  cases hrun'
  exact absurd hsame.pendingBatch (by decide +kernel)

end Saci
