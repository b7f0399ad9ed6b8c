import Saci.Consensus.Gaps
import Saci.Consensus.Claiming
import Saci.Consensus.Snapshot

/-! # Poisoned batches

A poisoning takes a batch off the pending index and nothing else: the claim handler does not look at
the status, and a restore offers the batch again. What keeps a poisoned batch from being handed out
is that its rows are all taken, for as long as they are. -/

namespace Saci

/-- A restore makes no gap where no span is left without its claim. -/
theorem Ledger.restored_hasGap {σ : Ledger} (H : σ.Inv) (hfiled : σ.Filed) :
    σ.restored.HasGap b ↔ σ.HasGap b := by
  have hspan := hfiled.restored_span H
  simp only [HasGap, Taken, SpanAt, hspan]
  rfl

/-! ## Runs with snapshots -/

/-- What can happen to the database of a node: a command is applied, or the state is dumped and
restored into some database. -/
inductive Event
  | command (cmd : ConsensusCommand)
  | snapshot (into : Database) (smMeta : Option (Bytes × Bytes))

/-- One event; a restore answers nothing. -/
def applyEvent (db : Database) : Event → SaciResult (Database × Option ConsensusResponse)
  | .command cmd =>
    match apply db cmd with
    | .error e => .error e
    | .ok (db', response) => .ok (db', some response)
  | .snapshot into smMeta => .ok (restoreState into (dumpState db) smMeta, none)

def Event.KeepsRows (db : Database) : Event → Prop
  | .command cmd => Saci.KeepsRows db cmd
  | .snapshot _ _ => True

instance (db : Database) (event : Event) : Decidable (event.KeepsRows db) := by
  cases event <;> unfold Event.KeepsRows <;> infer_instance

/-- The event registers the batch. -/
def Event.Registers (event : Event) (b : UInt64) : Prop :=
  match event with
  | .command cmd => cmd.Registers b
  | .snapshot _ _ => False

/-- The event takes a claim of the batch back from its holder, and the claim holds a row below the
row count or below an active claim. -/
def Event.Frees (db : Database) (b : UInt64) : Event → Prop
  | .command (.releaseClaim c i) => ∃ r, readClaim db c = some r ∧ r.batchId = b ∧ r.HeldBy i ∧
      db.ledger.InReach b r.rowRangeStart
  | .command (.reclaimExpired now) => ∃ c r, readClaim db c = some r ∧ r.batchId = b ∧
      r.expired now = true ∧ db.ledger.InReach b r.rowRangeStart
  | _ => False

variable {db db' : Database}

theorem applyEvent_command_eq_ok :
    applyEvent db (.command cmd) = .ok (db', o) ↔
      ∃ response, apply db cmd = .ok (db', response) ∧ o = some response := by
  rw [applyEvent]
  cases apply db cmd with
  | error => exact ⟨nofun, fun ⟨_, h, _⟩ => nomatch h⟩
  | ok result =>
    obtain ⟨db'', response⟩ := result
    constructor
    · intro h
      cases h
      exact ⟨response, rfl, rfl⟩
    · intro ⟨_, h, ho⟩
      cases h
      rw [ho]

theorem applyEvent_filed {event : Event} (H : db.WellFormed ∧ db.ledger.Filed)
    (hkeeps : event.KeepsRows db) (happly : applyEvent db event = .ok (db', o)) :
    db'.WellFormed ∧ db'.ledger.Filed := by
  cases event with
  | command cmd =>
    obtain ⟨response, happly, _⟩ := applyEvent_command_eq_ok.mp happly
    exact ⟨apply_wellFormed H.1 happly, apply_filed H.1 H.2 hkeeps happly⟩
  | snapshot into smMeta =>
    cases happly
    refine ⟨restoreState_wellFormed H.1 into smMeta, ?_⟩
    rw [restoreState_ledger H.1]
    exact Ledger.restored_filed _

theorem applyEvent_hasGap (H : db.WellFormed ∧ db.ledger.Filed) (hno : ¬ db.ledger.HasGap b)
    (hregisters : ¬ event.Registers b) (hfrees : ¬ event.Frees db b)
    (happly : applyEvent db event = .ok (db', o)) : ¬ db'.ledger.HasGap b := by
  cases event with
  | command cmd =>
    obtain ⟨response, happly, _⟩ := applyEvent_command_eq_ok.mp happly
    refine (apply_step H.1 happly).hasGap H.1.inv hno hregisters ?_ ?_
    · intro c i r hcmd hclaim hb hheld hreach
      subst hcmd
      exact hfrees ⟨r, by rw [readClaim_eq]; exact hclaim, hb, hheld, hreach⟩
    · intro now c r hcmd hclaim hb hexpired hreach
      subst hcmd
      exact hfrees ⟨c, r, by rw [readClaim_eq]; exact hclaim, hb, hexpired, hreach⟩
  | snapshot into smMeta =>
    cases happly
    rw [restoreState_ledger H.1, Ledger.restored_hasGap H.1.inv H.2]
    exact hno

theorem run_applyEvent_filed (hrun : run applyEvent .empty events = .ok (db, os))
    (hkeeps : EachStep applyEvent (fun db event => event.KeepsRows db) .empty events) :
    db.WellFormed ∧ db.ledger.Filed :=
  run_invariant_of_eachStep (I := fun db => db.WellFormed ∧ db.ledger.Filed)
    (fun _ _ _ _ H hkeeps happly => applyEvent_filed H hkeeps happly)
    hrun hkeeps ⟨Database.empty_wellFormed, empty_filed⟩

theorem not_hasGap_of_scan (H : db.WellFormed) (hscan : findFirstPendingClaim db b = .ok none) :
    ¬ db.ledger.HasGap b := by
  rcases findFirstPendingClaim_spec H b with ⟨_, hno⟩ | ⟨m, lo, hi, heq, _⟩
  · exact hno
  · cases hscan.symm.trans heq

/-- The batch is handed out neither by the pending scan nor to a fresh claim id. -/
structure NotHandedOut (db : Database) (b : UInt64) : Prop where
  scan : ∀ range, findFirstPendingBatch db ≠ .ok (some (b, range))
  claim : ∀ c s e i ttl now, readClaim db c = none →
    ∀ db' b' component s' e' schemaId c' i' lease, apply db (.claimRowRange b s e c i ttl now) ≠
      .ok (db', .batchClaimed b' component s' e' schemaId c' i' lease)

theorem notHandedOut_of_not_hasGap (H : db.WellFormed) (hno : ¬ db.ledger.HasGap b) :
    NotHandedOut db b where
  scan := by
    intro (lo, hi) hfind
    exact hno ((findFirstPendingBatch_answers_iff H b).mp ⟨lo, hi, hfind⟩).2.1
  claim := by
    intro c s e i ttl now hfresh db' b' component s' e' schemaId c' i' lease happly
    have hstep := apply_step H happly
    rw [readClaim_eq] at hfresh
    generalize db'.ledger = σ at hstep
    cases hstep with
    | replayed _ hclaim => cases hfresh.symm.trans hclaim
    | claimed hrange _ hbatch hrows hfree =>
      have hclaimable : db.ledger.Claimable b s e := ⟨hrange, ⟨_, hbatch, hrows⟩, hfree⟩
      exact hno hclaimable.hasGap

/-- **Poisoning is permanent** in a run where the rows of the batch are all in active claims when it
is poisoned, and no later step takes one of these claims back. -/
theorem poisonBatch_permanent (hbefore : run applyEvent .empty before = .ok (db₀, os₀))
    (hkeeps₀ : EachStep applyEvent (fun db event => event.KeepsRows db) .empty before)
    (hrows : ¬ db₀.ledger.HasGap b)
    (hpoison : apply db₀ (.poisonBatch b now) = .ok (db₁, response))
    (hafter : run applyEvent db₁ after = .ok (db, os))
    (hkeeps : EachStep applyEvent (fun db event => event.KeepsRows db) db₁ after)
    (honce : ∀ event ∈ after, ¬ event.Registers b)
    (hfrees : EachStep applyEvent (fun db event => ¬ event.Frees db b) db₁ after) :
    NotHandedOut db b := by
  have H₀ := run_applyEvent_filed hbefore hkeeps₀
  have hevent : applyEvent db₀ (.command (.poisonBatch b now)) = .ok (db₁, some response) :=
    applyEvent_command_eq_ok.mpr ⟨_, hpoison, rfl⟩
  have hkeeps₁ : Event.KeepsRows db₀ (.command (.poisonBatch b now)) := fun _ hx => nomatch hx
  have H₁ := applyEvent_filed H₀ hkeeps₁ hevent
  have hrows₁ : ¬ db₁.ledger.HasGap b := applyEvent_hasGap H₀ hrows id id hevent
  have honce := eachStep_of_forall_mem (f := applyEvent) (s := db₁) honce
  have hend := run_invariant_of_eachStep
    (I := fun db => (db.WellFormed ∧ db.ledger.Filed) ∧ ¬ db.ledger.HasGap b)
    (fun db event db' o ⟨H, hno⟩ ⟨⟨hkeeps, honce⟩, hfrees⟩ happly =>
      ⟨applyEvent_filed H hkeeps happly, applyEvent_hasGap H hno honce hfrees happly⟩)
    hafter ((hkeeps.and honce).and hfrees) ⟨H₁, hrows₁⟩
  exact notHandedOut_of_not_hasGap hend.1.1 hend.2

theorem poisonBatch_permanent_claimed :
    ∃ db₀ os₀ db₁ response db os,
      run applyEvent .empty [.command (.registerMasterBatch 1 "orders" 1 [] 100 0),
          .command (.claimRowRange 1 0 60 (.fromU128 1) (.fromU128 7) 10 0),
          .command (.claimRowRange 1 60 100 (.fromU128 2) (.fromU128 8) 10 0)] = .ok (db₀, os₀) ∧
        apply db₀ (.poisonBatch 1 1) = .ok (db₁, response) ∧
        run applyEvent db₁ [.command (.ackClaim (.fromU128 1) (.fromU128 7)),
          .snapshot .empty none] = .ok (db, os) ∧
        NotHandedOut db 1 := by
  have hkeeps₀ : EachStep applyEvent (fun db event => event.KeepsRows db) .empty
      [.command (.registerMasterBatch 1 "orders" 1 [] 100 0),
        .command (.claimRowRange 1 0 60 (.fromU128 1) (.fromU128 7) 10 0),
        .command (.claimRowRange 1 60 100 (.fromU128 2) (.fromU128 8) 10 0)] := by
    decide +kernel
  obtain ⟨db₀, os₀, db₁, response, db, os, hbefore, hscan, hpoison, hafter⟩ :
      ∃ db₀ os₀ db₁ response db os,
        run applyEvent .empty [.command (.registerMasterBatch 1 "orders" 1 [] 100 0),
            .command (.claimRowRange 1 0 60 (.fromU128 1) (.fromU128 7) 10 0),
            .command (.claimRowRange 1 60 100 (.fromU128 2) (.fromU128 8) 10 0)] = .ok (db₀, os₀) ∧
          findFirstPendingClaim db₀ 1 = .ok none ∧
          apply db₀ (.poisonBatch 1 1) = .ok (db₁, response) ∧
          run applyEvent db₁ [.command (.ackClaim (.fromU128 1) (.fromU128 7)),
            .snapshot .empty none] = .ok (db, os) :=
    ⟨_, _, _, _, _, _, rfl, rfl, rfl, rfl⟩
  have hrows := not_hasGap_of_scan (run_applyEvent_filed hbefore hkeeps₀).1 hscan
  refine ⟨db₀, os₀, db₁, response, db, os, hbefore, hpoison, hafter, ?_⟩
  refine poisonBatch_permanent hbefore hkeeps₀ hrows hpoison hafter ?_ ?_ ?_
  · exact ⟨fun _ hx => (nomatch hx), fun _ _ _ => ⟨trivial, fun _ _ _ => trivial⟩⟩
  · exact List.forall_mem_cons.mpr ⟨id, List.forall_mem_singleton.mpr id⟩
  · exact ⟨id, fun _ _ _ => ⟨id, fun _ _ _ => trivial⟩⟩

/-- A batch is registered and poisoned; a fresh claim id still gets all its rows, and the batch is
offered again by the first restore. -/
theorem poisonBatch_not_permanent :
    ∃ db₀ os₀ db₁ db os, run apply .empty [.registerMasterBatch 1 "orders" 1 [] 100 0] =
        .ok (db₀, os₀) ∧
      apply db₀ (.poisonBatch 1 1) = .ok (db₁, .batchPoisoned 1 1) ∧ ¬ NotHandedOut db₁ 1 ∧
      run applyEvent db₁ [.snapshot .empty none] = .ok (db, os) ∧
      findFirstPendingBatch db = .ok (some (1, (0, 100))) := by
  refine ⟨_, _, _, _, _, rfl, rfl, ?_, rfl, rfl⟩
  intro hnot
  exact hnot.claim (.fromU128 1) 0 50 (.fromU128 7) 10 0 rfl _ _ _ _ _ _ _ _ _ rfl

end Saci
