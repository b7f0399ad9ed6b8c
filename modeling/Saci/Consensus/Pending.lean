import Mathlib
import Saci.Consensus.Scan
import Saci.Consensus.Claiming
import Saci.Consensus.Lease

/-! # The pending index

Two laws of `find_first_pending_batch`: when an answered range can be claimed, and when no answer
means that no row is left. The second rests on the acks, which take a batch off the pending index
once its existing claims are Completed, whether or not these reach every row. -/

namespace Saci

variable {db db' : Database}

/-! ## Answered ranges -/

/-- The range lies within the batch, is free, and is given to the next fresh claim id. -/
structure RangeOffered (db : Database) (b : UInt64) (s e : UInt32) : Prop where
  within : ∃ m, readMasterBatch db b = some m ∧ s < e ∧ e ≤ m.totalRows
  free : ∀ c r, readClaim db c = some r → r.batchId = b → r.status.active = true →
    Disjoint (Set.Ico s e) (Set.Ico r.rowRangeStart r.rowRangeEnd)
  claims : ∀ c i ttl now, readClaim db c = none → ∃ db' component schemaId lease,
    apply db (.claimRowRange b s e c i ttl now) =
      .ok (db', .batchClaimed b component s e schemaId c i lease)

/-- Everything but the upper bound holds of every gap. -/
theorem rangeOffered_iff_le (H : db.WellFormed) (hgap : db.ledger.IsGap b m s e) :
    RangeOffered db b s e ↔ e ≤ m.totalRows := by
  constructor
  · intro ⟨⟨m', hm', _, hle⟩, _, _⟩
    rw [readMasterBatch_eq] at hm'
    cases hgap.batch.symm.trans hm'
    exact hle
  · intro hle
    refine ⟨⟨m, by rw [readMasterBatch_eq]; exact hgap.batch, hgap.lt, hle⟩, ?_, ?_⟩
    · intro c r hclaim hb hactive
      rw [readClaim_eq] at hclaim
      have hspan := H.inv.mirrored hclaim
      rw [hb] at hspan
      exact (disjoint_Ico (hgap.free c _ _ _ hspan hactive)).symm
    · intro c i ttl now hfresh
      obtain ⟨db', component, schemaId, happly, _⟩ :=
        applyClaimRowRange_claims H ⟨hgap.lt, ⟨m, hgap.batch, hle⟩, hgap.free⟩
          (fun r hr => by rw [hfresh] at hr; cases hr) ttl now
      exact ⟨db', component, schemaId, _, happly⟩

/-- The first gap ends within the batch unless it runs up to a span beyond the last row. -/
theorem Ledger.IsGap.le_totalRows_iff {σ : Ledger} (H : σ.Inv) (hgap : σ.IsGap b m s e) :
    e ≤ m.totalRows ↔ ((∃ y, σ.SpanAt b y ∧ m.totalRows < y) →
      ∃ y x, σ.SpanAt b y ∧ y ≤ m.totalRows ∧ x < y ∧ ¬ σ.Taken b x) := by
  have hlt := hgap.lt
  constructor
  · intro hle ⟨z, hz, hbeyond⟩
    rcases hgap.stop with ⟨rfl, hlast⟩ | hstop
    · have := hlast z hz
      order
    · exact ⟨e, s, hstop, hle, hlt, hgap.not_taken⟩
  · intro hcond
    rcases hgap.stop with ⟨rfl, _⟩ | hstop
    · exact le_rfl
    · by_contra hbeyond
      obtain ⟨y, x, ⟨c, e', st, hspan, hactive⟩, hy, hxy, hx⟩ := hcond ⟨e, hstop, not_le.mp hbeyond⟩
      -- the gap starts at or below the uncovered row, so it ends before the span above that row
      have hsx : s ≤ x := not_lt.mp fun h => hx (hgap.before x h)
      rcases hgap.free c y e' st hspan hactive with h | h
      · have hye := H.nonempty hspan
        order
      · exact hbeyond (h.trans hy)

/-- **Answered ranges.** A range that `find_first_pending_batch` answers is one the state machine
takes, unless some active claim of the batch starts beyond its last row and the rows below every
other claim are all taken. -/
theorem findFirstPendingBatch_offers_iff (H : Reachable db)
    (hfind : findFirstPendingBatch db = .ok (some (b, (s, e)))) :
    RangeOffered db b s e ↔ ∀ m, readMasterBatch db b = some m →
      (∃ y, db.ledger.SpanAt b y ∧ m.totalRows < y) →
        ∃ y x, db.ledger.SpanAt b y ∧ y ≤ m.totalRows ∧ x < y ∧ ¬ db.ledger.Taken b x := by
  obtain ⟨_, ⟨m, hgap⟩, _⟩ := findFirstPendingBatch_eq_some H.wellFormed hfind
  rw [rangeOffered_iff_le H.wellFormed hgap, hgap.le_totalRows_iff H.inv]
  constructor
  · intro h m' hm'
    rw [readMasterBatch_eq] at hm'
    cases hgap.batch.symm.trans hm'
    exact h
  · intro h
    exact h m (by rw [readMasterBatch_eq]; exact hgap.batch)

theorem findFirstPendingBatch_offers_iff_registered :
    ∃ db responses, run apply .empty [.registerMasterBatch 1 "orders" 1 [] 100 0] =
        .ok (db, responses) ∧
      findFirstPendingBatch db = .ok (some (1, (0, 100))) ∧
      (RangeOffered db 1 0 100 ↔ ∀ m, readMasterBatch db 1 = some m →
        (∃ y, db.ledger.SpanAt 1 y ∧ m.totalRows < y) →
          ∃ y x, db.ledger.SpanAt 1 y ∧ y ≤ m.totalRows ∧ x < y ∧ ¬ db.ledger.Taken 1 x) := by
  have hrun : run apply .empty [.registerMasterBatch 1 "orders" 1 [] 100 0] = .ok (_, _) := rfl
  exact ⟨_, _, hrun, rfl, findFirstPendingBatch_offers_iff ⟨_, _, hrun⟩ rfl⟩

/-- A batch registered again with fewer rows than a claim of it starts at: the gap is answered up to
that claim, past the last row, and the state machine refuses it. -/
theorem findFirstPendingBatch_not_offered :
    ∃ db responses, run apply .empty
        [.registerMasterBatch 1 "orders" 1 [] 100 0,
          .claimRowRange 1 50 100 (.fromU128 1) (.fromU128 7) 10 0,
          .registerMasterBatch 1 "orders" 1 [] 30 0] = .ok (db, responses) ∧
      findFirstPendingBatch db = .ok (some (1, (0, 50))) ∧ ¬ RangeOffered db 1 0 50 := by
  refine ⟨_, _, rfl, by decide +kernel, ?_⟩
  intro ⟨⟨m, hm, _, hle⟩, _, _⟩
  cases hm
  revert hle
  decide

/-! ## No answer -/

/-- Some active claim of the batch holds the row. -/
def RowClaimed (db : Database) (b : UInt64) (x : UInt32) : Prop :=
  ∃ c r, readClaim db c = some r ∧ r.batchId = b ∧ r.status.active = true ∧
    r.rowRangeStart ≤ x ∧ x < r.rowRangeEnd

/-- An ack after which every claim of an Active batch is Completed comes when these claims hold
every row of the batch. -/
def AckCovers (db : Database) (cmd : ConsensusCommand) : Prop :=
  match cmd with
  | .ackClaim c i => ∀ r m, readClaim db c = some r → r.HeldBy i →
      readMasterBatch db r.batchId = some m → m.status = .active →
      (∀ c' r', c' ≠ c → readClaim db c' = some r' → r'.batchId = r.batchId →
        r'.status = .completed) →
      ∀ x < m.totalRows, RowClaimed db r.batchId x
  | _ => True

namespace Ledger
variable {σ σ' : Ledger}

/-- A batch that is no longer offered, and not poisoned, has every row in a Completed claim. -/
def Finished (σ : Ledger) : Prop :=
  ∀ b m, σ.batch b = some m → m.status = .active → b ∉ σ.pending → ∀ x < m.totalRows,
    ∃ c r, σ.claim c = some r ∧ r.batchId = b ∧ r.status = .completed ∧
      r.rowRangeStart ≤ x ∧ x < r.rowRangeEnd

/-- A batch leaves the offered set still Active only through an ack. -/
theorem Step.withdrawn (hstep : σ.Step cmd response σ') (hwithdraws : Withdraws σ σ' cmd b)
    (hbatch' : σ'.batch b = some m') (hactive : m'.status = .active) :
    ∃ c i r, cmd = .ackClaim c i ∧ σ.claim c = some r ∧ r.HeldBy i ∧ r.batchId = b ∧
      σ' = σ.ack c r ∧ σ'.AllComplete b := by
  cases hstep with
  | refused hrefuses =>
    cases cmd with
    | ackClaim c i =>
      obtain ⟨r, hclaim, hheld, _⟩ := hwithdraws
      exact absurd hheld (hrefuses r hclaim)
    | poisonBatch b' now =>
      obtain ⟨rfl, m, hm, _⟩ := hwithdraws
      cases hm.symm.trans hrefuses
    | _ => exact hwithdraws.elim
  | @acked c r i hclaim hheld =>
    obtain ⟨r', hclaim', _, hb, hall⟩ := hwithdraws
    cases hclaim.symm.trans hclaim'
    exact ⟨c, i, r, rfl, hclaim, hheld, hb, rfl, hall⟩
  | @poisoned b' m now hbatch =>
    obtain ⟨rfl, _⟩ := hwithdraws
    rw [poison_batch, hbatch] at hbatch'
    simp only [Option.map_some, if_true, Option.some.injEq] at hbatch'
    rw [← hbatch'] at hactive
    cases hactive
  | poisonedAgain hbatch hpoisoned =>
    obtain ⟨rfl, m, hm, hnot⟩ := hwithdraws
    cases hbatch.symm.trans hm
    exact absurd hpoisoned hnot
  | _ => exact hwithdraws.elim

end Ledger

/-- A step that keeps the rows of its claim id and, if it is an ack that finishes a batch, covers it,
keeps finished batches finished. -/
theorem apply_finished (H : db.WellFormed) (hfinished : db.ledger.Finished)
    (hkeeps : KeepsRows db cmd) (hcovers : AckCovers db cmd)
    (happly : apply db cmd = .ok (db', response)) : db'.ledger.Finished := by
  intro b m' hm' hactive hnot x hx
  have hstep := apply_step H happly
  have hcompleted : (∃ c r, db.ledger.claim c = some r ∧ r.batchId = b ∧ r.status = .completed ∧
      r.rowRangeStart ≤ x ∧ x < r.rowRangeEnd) →
      ∃ c r, db'.ledger.claim c = some r ∧ r.batchId = b ∧ r.status = .completed ∧
        r.rowRangeStart ≤ x ∧ x < r.rowRangeEnd := by
    intro ⟨c, r, hclaim, hb, hstatus, hrow⟩
    exact ⟨c, r, hstep.completed H.inv hkeeps.ledger hclaim hstatus, hb, hstatus, hrow⟩
  rw [hstep.mem_pending, not_or, not_and_not_right] at hnot
  obtain ⟨hnotRegisters, hwithdraws⟩ := hnot
  obtain ⟨m, hm, hrows, hstatus⟩ := (hstep.batch hm').of_not_registers hnotRegisters
  have hstatus := hstatus.resolve_right fun h => nomatch hactive.symm.trans h
  rw [hrows] at hx
  rw [hstatus] at hactive
  by_cases hpending : b ∈ db.ledger.pending
  · obtain ⟨c, i, r, rfl, hclaim, hheld, rfl, hack, hall⟩ :=
      hstep.withdrawn (hwithdraws hpending) hm' (hstatus ▸ hactive)
    have hothers : ∀ c' r', c' ≠ c → readClaim db c' = some r' → r'.batchId = r.batchId →
        r'.status = .completed := by
      intro c' r' hne hclaim' hb
      rw [readClaim_eq] at hclaim'
      have hspan := H.inv.mirrored hclaim'
      rw [hb] at hspan
      refine hall c' r'.rowRangeStart r'.rowRangeEnd r'.status ?_
      rw [hack, Ledger.ack_span, if_neg fun h => hne h.2]
      exact hspan
    obtain ⟨c₀, r₀, hclaim₀, hb₀, _, hrow⟩ := hcovers r m (by rw [readClaim_eq]; exact hclaim) hheld
      (by rw [readMasterBatch_eq]; exact hm) hactive hothers x hx
    rw [hack]
    by_cases hc : c₀ = c
    · rw [hc, readClaim_eq] at hclaim₀
      cases hclaim.symm.trans hclaim₀
      exact ⟨c, r.completed, by rw [Ledger.ack_claim, if_pos rfl], rfl, rfl, hrow⟩
    · have hstatus₀ := hothers c₀ r₀ hc hclaim₀ hb₀
      rw [readClaim_eq] at hclaim₀
      exact ⟨c₀, r₀, by rw [Ledger.ack_claim, if_neg hc]; exact hclaim₀, hb₀, hstatus₀, hrow⟩
  · exact hcompleted (hfinished b m hm hactive hpending x hx)

theorem run_finished (hrun : run apply .empty cmds = .ok (db, responses))
    (hkeeps : EachStep apply KeepsRows .empty cmds)
    (hcovers : EachStep apply AckCovers .empty cmds) : db.ledger.Finished := by
  have hempty : Database.empty.ledger.Finished := by
    rw [Database.empty_ledger]
    exact fun b m hm => nomatch hm
  refine (run_invariant_of_eachStep (I := fun db => db.WellFormed ∧ db.ledger.Finished) ?_ hrun
    (hkeeps.and hcovers) ⟨Database.empty_wellFormed, hempty⟩).2
  intro db cmd db' response ⟨H, hfinished⟩ ⟨hkeeps, hcovers⟩ happly
  exact ⟨apply_wellFormed H happly, apply_finished H hfinished hkeeps hcovers happly⟩

/-- **No answer.** Where claim ids keep their rows, and an ack leaves all claims of a batch Completed
only when these hold every row, no answer of `find_first_pending_batch` means that every row of
every Active batch is claimed. -/
theorem findFirstPendingBatch_none_covers (hrun : run apply .empty cmds = .ok (db, responses))
    (hkeeps : EachStep apply KeepsRows .empty cmds)
    (hcovers : EachStep apply AckCovers .empty cmds)
    (hfind : findFirstPendingBatch db = .ok none) :
    ∀ b m, readMasterBatch db b = some m → m.status = .active → ∀ x < m.totalRows,
      RowClaimed db b x := by
  intro b m hm hactive x hx
  have H := run_wellFormed Database.empty_wellFormed hrun
  have hfiled := run_filed Database.empty_wellFormed empty_filed hkeeps hrun
  rw [readMasterBatch_eq] at hm
  by_cases hpending : b ∈ db.ledger.pending
  · have hno := (findFirstPendingBatch_eq_none_iff H).mp hfind b hpending
    have htaken : db.ledger.Taken b x := by
      by_contra hfree
      exact hno ⟨m, hm, x, hfree, .inl hx⟩
    obtain ⟨c, s, e, st, hspan, hstatus, hrow⟩ := htaken
    obtain ⟨r, hclaim, hb, hx⟩ := hfiled b c _ hspan
    cases hx
    exact ⟨c, r, by rw [readClaim_eq]; exact hclaim, hb, hstatus, hrow⟩
  · obtain ⟨c, r, hclaim, hb, hstatus, hrow⟩ :=
      run_finished hrun hkeeps hcovers b m hm hactive hpending x hx
    exact ⟨c, r, by rw [readClaim_eq]; exact hclaim, hb, by rw [hstatus]; rfl, hrow⟩

theorem findFirstPendingBatch_none_covers_acked :
    ∃ db responses, run apply .empty
        [.registerMasterBatch 1 "orders" 1 [] 100 0,
          .claimRowRange 1 0 100 (.fromU128 1) (.fromU128 7) 10 0,
          .ackClaim (.fromU128 1) (.fromU128 7)] = .ok (db, responses) ∧
      findFirstPendingBatch db = .ok none ∧
      ∀ b m, readMasterBatch db b = some m → m.status = .active → ∀ x < m.totalRows,
        RowClaimed db b x := by
  have hrun : run apply .empty
      [.registerMasterBatch 1 "orders" 1 [] 100 0,
        .claimRowRange 1 0 100 (.fromU128 1) (.fromU128 7) 10 0,
        .ackClaim (.fromU128 1) (.fromU128 7)] = .ok (_, _) := rfl
  refine ⟨_, _, hrun, by decide +kernel,
    findFirstPendingBatch_none_covers hrun (by decide +kernel) ?_ (by decide +kernel)⟩
  refine ⟨trivial, fun db₁ _ h₁ => ?_⟩
  cases h₁
  refine ⟨trivial, fun db₂ _ h₂ => ?_⟩
  cases h₂
  refine ⟨?_, fun _ _ _ => trivial⟩
  intro r m hclaim _ hm _ _ x hx
  cases hclaim
  cases hm
  exact ⟨.fromU128 1, _, rfl, rfl, rfl, UInt32.le_iff_toNat_le.mpr (Nat.zero_le _), hx⟩

/-- One ack of a claim on half of the rows takes the batch off the pending index. -/
theorem findFirstPendingBatch_none_uncovered :
    ∃ db responses m, run apply .empty
        [.registerMasterBatch 1 "orders" 1 [] 100 0,
          .claimRowRange 1 0 50 (.fromU128 1) (.fromU128 7) 10 0,
          .ackClaim (.fromU128 1) (.fromU128 7)] = .ok (db, responses) ∧
      findFirstPendingBatch db = .ok none ∧ readMasterBatch db 1 = some m ∧
      m.status = .active ∧ 70 < m.totalRows ∧ ¬ RowClaimed db 1 70 := by
  refine ⟨_, _, _, rfl, by decide +kernel, rfl, rfl, by decide, ?_⟩
  intro ⟨c, r, hclaim, _, _, _, hend⟩
  have hrow := List.mem_singleton.mp (Table.get_eq_some_iff.mp hclaim)
  cases hrow
  revert hend
  decide

end Saci
