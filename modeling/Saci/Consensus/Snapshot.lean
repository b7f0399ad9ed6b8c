import Saci.Consensus.Exclusivity

/-! # Snapshots over the ledger

What `restore_state` makes of a dump: every table but two comes back as it was, the index is rebuilt
from the claims, and every batch is offered again. -/

namespace Saci

namespace Ledger

/-- The ledger after a dump and a restore. -/
def restored (σ : Ledger) : Ledger :=
  { σ with
    span := fun b c => (σ.claim c).bind fun r => if r.batchId = b then
      some (r.rowRangeStart, r.rowRangeEnd, r.status) else none
    pending := {b | ∃ m, σ.batch b = some m} }

variable {σ : Ledger}

theorem restored_span_eq_some : σ.restored.span b c = some x ↔
    ∃ r, σ.claim c = some r ∧ r.batchId = b ∧ x = (r.rowRangeStart, r.rowRangeEnd, r.status) := by
  rw [restored, Option.bind_eq_some_iff]
  refine exists_congr fun r => and_congr_right fun _ => ?_
  constructor
  · intro h
    split_ifs at h with hb
    exact ⟨hb, (Option.some.inj h).symm⟩
  · intro ⟨hb, hx⟩
    rw [if_pos hb, hx]

/-- The rebuilt spans are among the old ones. -/
theorem Inv.span_of_restored (H : σ.Inv) (h : σ.restored.span b c = some x) :
    σ.span b c = some x := by
  obtain ⟨r, hclaim, rfl, rfl⟩ := restored_span_eq_some.mp h
  exact H.mirrored hclaim

theorem Inv.restored (H : σ.Inv) : σ.restored.Inv where
  mirrored hclaim := restored_span_eq_some.mpr ⟨_, hclaim, rfl, rfl⟩
  nonempty hspan := H.nonempty (H.span_of_restored hspan)
  exclusive hne h₁ ha₁ h₂ ha₂ :=
    H.exclusive hne (H.span_of_restored h₁) ha₁ (H.span_of_restored h₂) ha₂
  parent hspan := H.parent (H.span_of_restored hspan)
  keyed := H.keyed
  listed hb := hb
  hashed := H.hashed

theorem restored_filed (σ : Ledger) : σ.restored.Filed :=
  fun _ _ _ hspan => restored_span_eq_some.mp hspan

/-- Where no span is left without its claim, the rebuilt index is the old one. -/
theorem Filed.restored_span (H : σ.Filed) (hinv : σ.Inv) : σ.restored.span = σ.span := by
  funext b c
  refine Option.ext fun x => ?_
  exact (restored_span_eq_some.trans (H.span_iff hinv).symm)

end Ledger

variable {db : Database}

/-- The batches of a dump, written back under their own ids, are the old table. -/
theorem insertAll_batches (H : db.WellFormed) :
    (∅ : Table UInt64 MasterBatchRecord).insertAll (·.batchId) id (dumpState db).batches =
      openTable db.masterBatches := by
  rw [dumpState, Table.insertAll_map]
  refine Eq.trans ?_ (Table.insertAll_rows (openTable db.masterBatches))
  refine Table.insertAll_congr _ _ fun row hrow => ⟨?_, rfl⟩
  exact H.inv.keyed (Table.get_eq_some_iff.mpr hrow)

theorem mem_insertAll_pending (H : db.WellFormed) (b : UInt64) :
    (∃ u, ((∅ : Table UInt64 Unit).insertAll (·.batchId) (fun _ => ())
      (dumpState db).batches).get b = some u) ↔ ∃ m, db.ledger.batch b = some m := by
  rw [Table.get_insertAll_isSome]
  constructor
  · intro h
    rcases h with ⟨m, hin, hb⟩ | ⟨u, hu⟩
    · obtain ⟨⟨b', m'⟩, hrow, rfl⟩ := List.mem_map.mp hin
      have hget := Table.get_eq_some_iff.mpr hrow
      have hkey := H.inv.keyed hget
      exact ⟨m', hb ▸ hkey.symm ▸ hget⟩
    · cases hu
  · intro ⟨m, hm⟩
    exact .inl ⟨m, List.mem_map.mpr ⟨(b, m), Table.get_eq_some_iff.mp hm, rfl⟩, H.inv.keyed hm⟩

theorem indexSpan_insertAll_claims (db : Database) (b : UInt64) (c : Uuid) :
    indexSpan ((∅ : Table Bytes Bytes).insertAll (fun row => claimsByBatchKey row.2.batchId row.1)
      (fun row => claimsByBatchValue row.2.rowRangeStart row.2.rowRangeEnd row.2.status)
      (dumpState db).claims) b c = db.ledger.restored.span b c := by
  have hnodup := claimsByBatchKey_nodup (openTable db.claims).keys_nodup
  by_cases hfiled : ∃ r, (openTable db.claims).get c = some r ∧ r.batchId = b
  · obtain ⟨r, hr, rfl⟩ := hfiled
    have hget := Table.get_insertAll_of_mem (t := ∅)
      (fun row : Uuid × ClaimRecord => claimsByBatchKey row.2.batchId row.1)
      (fun row => claimsByBatchValue row.2.rowRangeStart row.2.rowRangeEnd row.2.status)
      hnodup (Table.get_eq_some_iff.mp hr)
    rw [indexSpan, dumpState, hget]
    refine (decodeClaimsByBatchValue_claimsByBatchValue ..).trans ?_
    exact (Ledger.restored_span_eq_some.mpr ⟨r, hr, rfl, rfl⟩).symm
  · have hnone : db.ledger.restored.span b c = none := by
      refine Option.eq_none_iff_forall_ne_some.mpr fun x hx => ?_
      obtain ⟨r, hr, hb, _⟩ := Ledger.restored_span_eq_some.mp hx
      exact hfiled ⟨r, hr, hb⟩
    rw [hnone, indexSpan, Table.get_insertAll_of_forall_ne]
    · rfl
    · rintro ⟨c', r⟩ hrow hkey
      obtain ⟨hb, hc⟩ := claimsByBatchKey_inj.mp hkey
      exact hfiled ⟨r, Table.get_eq_some_iff.mpr (hc ▸ hrow), hb⟩

/-- **Restoring a dump** keeps the records, rebuilds the spans and offers every batch. -/
theorem restoreState_ledger (H : db.WellFormed) (into : Database)
    (smMeta : Option (Bytes × Bytes)) :
    (restoreState into (dumpState db) smMeta).ledger = db.ledger.restored := by
  apply Ledger.ext
  · exact congrArg Table.get (insertAll_batches H)
  · exact congrArg Table.get (Table.insertAll_rows (openTable db.claims))
  · funext b c
    exact indexSpan_insertAll_claims db b c
  · funext c stage
    exact congrArg (Table.get · (checkpointKey c stage))
      (Table.insertAll_rows (openTable db.checkpoints))
  · exact Set.ext (mem_insertAll_pending H)

theorem restoreState_wellFormed (H : db.WellFormed) (into : Database)
    (smMeta : Option (Bytes × Bytes)) : (restoreState into (dumpState db) smMeta).WellFormed where
  encoded := by
    have hempty : EncodedIndex (∅ : Table Bytes Bytes) := nofun
    exact hempty.insertAll
  inv := by
    rw [restoreState_ledger H]
    exact H.inv.restored

end Saci
