import Saci.Distributed.Conclusion

/-!
# State carried from claim to claim

What a claim is handed should be what the acknowledged batches, each once and in order, make of a
cold start. `replay` says what that is, without pointers or a store. The runner's two chain
pointers follow it as long as no turn advances one of them without being acked, and no batch is
acked while a pointer stays behind.
-/

namespace Saci.Distributed

/-- The state one batch hands to the next. -/
structure Carry where
  accumulator : Option RecordBatch
  state : Option Bytes
  deriving DecidableEq

namespace Carry
variable {R V : Type}

/-- Nothing has been processed. -/
def cold : Carry := ⟨none, none⟩

/-- The accumulator a dataset holds; one without rows is none. -/
def accumulatorOf (data : Dataset R) : Option RecordBatch :=
  (data.batchFor WINDOW_ACCUMULATOR).filter fun batch => batch.numRows ≠ 0

/-- The state a runtime's answer carries; an empty blob is none. -/
def stateOf (blob : Option Bytes) : Option Bytes := blob.filter fun bytes => !bytes.isEmpty

variable (api : Externals R V) (insertKeyPartition : KeyPartition → R → R) (cfg : RunnerConfig)

/-- What a batch makes of what it is handed. -/
def advance (carry : Carry) (t : Turn R) : Carry :=
  match Runner.restoreAccumulator api (Runner.freshData insertKeyPartition cfg t)
      carry.accumulator with
  | .error _ => carry
  | .ok data =>
    match t.run data carry.state with
    | .ran data' (.ok blob) => ⟨accumulatorOf data', stateOf blob⟩
    | _ => carry

/-- What a sequence of batches makes of a cold start. -/
def replay (ts : List (Turn R)) : Carry := ts.foldl (advance api insertKeyPartition cfg) cold

theorem replay_append_singleton (ts : List (Turn R)) (t : Turn R) :
    replay api insertKeyPartition cfg (ts ++ [t]) =
      advance api insertKeyPartition cfg (replay api insertKeyPartition cfg ts) t := by
  simp [replay]

end Carry

/-- The claim a turn obtains. -/
def Turn.claimId? {R : Type} (t : Turn R) : Option Uuid :=
  match t.claim with
  | .ok (some claim) => some claim.claimId
  | _ => none

def Event.isAck : Event → Bool
  | .ack _ => true
  | _ => false

/-- The turns that were acknowledged, from the events of each. -/
def acknowledged {R : Type} (ts : List (Turn R)) (events : List (List Event)) : List (Turn R) :=
  ((ts.zip events).filter fun entry => entry.2.any Event.isAck).map Prod.fst

theorem acknowledged_append {R : Type} {ts : List (Turn R)} {events : List (List Event)}
    (h : ts.length = events.length) (t : Turn R) (es : List Event) :
    acknowledged (ts ++ [t]) (events ++ [es]) =
      acknowledged ts events ++ if es.any Event.isAck then [t] else [] := by
  rw [acknowledged, acknowledged, List.zip_append h, List.filter_append, List.map_append]
  cases hack : es.any Event.isAck <;> simp [hack]

/-! ## Saves -/

/-- Two stores that agree on every claim but one. -/
def Checkpoints.Agree (claimId : Uuid) (cps cps' : Checkpoints) : Prop :=
  ∀ claimId', claimId' ≠ claimId → ∀ stageIdx, cps' claimId' stageIdx = cps claimId' stageIdx

namespace Checkpoints
variable {cps cps' cps'' : Checkpoints} {claimId : Uuid} {stageIdx : UInt32} {cp : Checkpoint}

theorem Agree.refl : Agree claimId cps cps := fun _ _ _ => rfl

theorem Agree.trans (h : Agree claimId cps cps') (h' : Agree claimId cps' cps'') :
    Agree claimId cps cps'' :=
  fun claimId' hne stageIdx => (h' claimId' hne stageIdx).trans (h claimId' hne stageIdx)

theorem agree_write : Agree claimId cps (cps.write claimId stageIdx cp) := by
  intro claimId' hne stageIdx'
  simp [write, hne]

@[simp] theorem write_self : cps.write claimId stageIdx cp claimId stageIdx = some cp := by
  simp [write]

theorem write_of_stage_ne {stageIdx' : UInt32} (h : stageIdx' ≠ stageIdx) :
    cps.write claimId stageIdx cp claimId stageIdx' = cps claimId stageIdx' := by
  simp [write, h]

theorem agree_save {answer : SaveAnswer} {r : SaciResult Unit}
    (h : cps.save answer claimId stageIdx cp = (cps', r)) : Agree claimId cps cps' := by
  cases answer with
  | saved => cases h; exact agree_write
  | failed e written =>
    cases written
    · cases h; exact .refl
    · cases h; exact agree_write

theorem save_ok {answer : SaveAnswer}
    (h : cps.save answer claimId stageIdx cp = (cps', .ok ())) :
    cps' = cps.write claimId stageIdx cp := by
  cases answer with
  | saved => cases h; rfl
  | failed e written => cases written <;> cases h

/-- How a save ends does not depend on what the store holds. -/
theorem save_result {answer : SaveAnswer} :
    (cps.save answer claimId stageIdx cp).2 = (cps'.save answer claimId stageIdx cp).2 := by
  cases answer with
  | saved => rfl
  | failed e written => cases written <;> rfl

/-- A save under one stage leaves the other stages of the claim alone. -/
theorem save_of_stage_ne {answer : SaveAnswer} {r : SaciResult Unit} {stageIdx' : UInt32}
    (h : cps.save answer claimId stageIdx cp = (cps', r)) (hne : stageIdx' ≠ stageIdx) :
    cps' claimId stageIdx' = cps claimId stageIdx' := by
  cases answer with
  | saved => cases h; exact write_of_stage_ne hne
  | failed e written =>
    cases written
    · cases h; rfl
    · cases h; exact write_of_stage_ne hne

end Checkpoints

section
variable {R V : Type} {api : Externals R V} {cps cps' : Checkpoints} {claimId : Uuid}
  {answer : SaveAnswer} {data : Dataset R} {blob : Bytes} {schemaId stageIdx : UInt32}
  {r : SaciResult Unit}

/-- A save either changes nothing or is one save of the store. -/
theorem writeCheckpoint_cases
    (h : Runner.writeCheckpoint api cps answer claimId stageIdx data = (cps', r)) :
    cps' = cps ∨ ∃ cp, cps.save answer claimId stageIdx cp = (cps', r) := by
  rw [Runner.writeCheckpoint] at h
  split at h
  · cases h; exact .inl rfl
  · split at h
    · cases h; exact .inl rfl
    · exact .inr ⟨_, h⟩

theorem saveAccumulatorState_cases
    (h : saveAccumulatorState api cps answer claimId data = (cps', r)) :
    cps' = cps ∧ (r = .ok () → data.batchFor WINDOW_ACCUMULATOR = none) ∨
    ∃ buf, data.writeComponentIpc api.arrow WINDOW_ACCUMULATOR = .ok buf ∧
      buf.length < MAX_LOG_ENTRY_BYTES ∧
      cps.save answer claimId ACCUMULATOR_STAGE_SENTINEL ⟨buf, CURRENT_ACCUMULATOR_VERSION⟩ =
        (cps', r) := by
  rw [saveAccumulatorState] at h
  split at h
  · next hbatch => cases h; exact .inl ⟨rfl, fun _ => hbatch⟩
  · split at h
    · cases h; exact .inl ⟨rfl, fun h => (nomatch h)⟩
    · next buf hwrite =>
      split at h
      · cases h; exact .inl ⟨rfl, fun h => (nomatch h)⟩
      · next hcap => exact .inr ⟨buf, hwrite, by omega, h⟩

theorem saveProcessorState_cases
    (h : saveProcessorState cps answer claimId blob schemaId = (cps', r)) :
    cps' = cps ∧ (r = .ok () → blob = []) ∨
    blob ≠ [] ∧
      cps.save answer claimId PROCESSOR_STATE_STAGE_SENTINEL ⟨blob, schemaId⟩ = (cps', r) := by
  rw [saveProcessorState] at h
  split at h
  · next hempty => cases h; exact .inl ⟨rfl, fun _ => List.isEmpty_iff.mp hempty⟩
  · next hempty =>
    split at h
    · cases h; exact .inl ⟨rfl, fun h => (nomatch h)⟩
    · exact .inr ⟨fun h => hempty (by rw [h]; rfl), h⟩

theorem agree_writeCheckpoint
    (h : Runner.writeCheckpoint api cps answer claimId stageIdx data = (cps', r)) :
    cps.Agree claimId cps' := by
  rcases writeCheckpoint_cases h with rfl | ⟨cp, hsave⟩
  · exact .refl
  · exact Checkpoints.agree_save hsave

theorem agree_saveAccumulatorState
    (h : saveAccumulatorState api cps answer claimId data = (cps', r)) :
    cps.Agree claimId cps' := by
  rcases saveAccumulatorState_cases h with ⟨rfl, -⟩ | ⟨buf, -, -, hsave⟩
  · exact .refl
  · exact Checkpoints.agree_save hsave

theorem agree_saveProcessorState
    (h : saveProcessorState cps answer claimId blob schemaId = (cps', r)) :
    cps.Agree claimId cps' := by
  rcases saveProcessorState_cases h with ⟨rfl, -⟩ | ⟨-, hsave⟩
  · exact .refl
  · exact Checkpoints.agree_save hsave

theorem saveAccumulatorState_result :
    (saveAccumulatorState api cps answer claimId data).2 =
      (saveAccumulatorState api cps' answer claimId data).2 := by
  rw [saveAccumulatorState, saveAccumulatorState]
  split
  · rfl
  · split
    · rfl
    · split
      · rfl
      · exact Checkpoints.save_result

theorem saveProcessorState_result :
    (saveProcessorState cps answer claimId blob schemaId).2 =
      (saveProcessorState cps' answer claimId blob schemaId).2 := by
  rw [saveProcessorState, saveProcessorState]
  split
  · rfl
  · split
    · rfl
    · exact Checkpoints.save_result

end

namespace Runner
variable {R V : Type}

section
variable (api : Externals R V) (cfg : RunnerConfig) (s : Runner) (t : Turn R) (claimId : Uuid)
  (data : Dataset R)

/-- The stage checkpoint is not due, or is saved. -/
def CheckpointSaved : Prop :=
  cfg.checkpointStrategy.shouldCheckpoint 0 = true →
    (writeCheckpoint api s.checkpoints t.checkpointSave claimId 0 data).2 = .ok ()

def AccumulatorSaved : Prop :=
  (saveAccumulatorState api s.checkpoints t.accumulatorSave claimId data).2 = .ok ()

/-- The runtime returned no blob, or it is saved. -/
def StateSaved (blob : Option Bytes) : Prop :=
  ∀ bytes, blob = some bytes →
    (saveProcessorState s.checkpoints t.stateSave claimId bytes data.fingerprint).2 = .ok ()

/-- The accumulator stored under a claim is the one a dataset held. -/
def HoldsAccumulator (cps : Checkpoints) : Prop :=
  match cps claimId ACCUMULATOR_STAGE_SENTINEL with
  | none => data.batchFor WINDOW_ACCUMULATOR = none
  | some cp => data.writeComponentIpc api.arrow WINDOW_ACCUMULATOR = .ok cp.payload ∧
      cp.payload.length < MAX_LOG_ENTRY_BYTES

end

/-- The state stored under a claim. -/
def storedState (cps : Checkpoints) (claimId : Uuid) : Option Bytes :=
  Carry.stateOf ((cps claimId PROCESSOR_STATE_STAGE_SENTINEL).map Checkpoint.payload)

variable {api : Externals R V} {cfg : RunnerConfig} {s s' : Runner} {t : Turn R}
  {claimId : Uuid} {data : Dataset R} {blob : Option Bytes} {p : PostRun}

theorem holdsAccumulator_none {cps : Checkpoints}
    (h : cps claimId ACCUMULATOR_STAGE_SENTINEL = none)
    (hbatch : data.batchFor WINDOW_ACCUMULATOR = none) : HoldsAccumulator api claimId data cps := by
  rwa [HoldsAccumulator, h]

theorem holdsAccumulator_write {cps : Checkpoints} {buf : Bytes} {schemaId : UInt32}
    (hwrite : data.writeComponentIpc api.arrow WINDOW_ACCUMULATOR = .ok buf)
    (hlen : buf.length < MAX_LOG_ENTRY_BYTES) :
    HoldsAccumulator api claimId data
      (cps.write claimId ACCUMULATOR_STAGE_SENTINEL ⟨buf, schemaId⟩) := by
  rw [HoldsAccumulator, Checkpoints.write_self]
  exact ⟨hwrite, hlen⟩

theorem storedState_none {cps : Checkpoints}
    (h : cps claimId PROCESSOR_STATE_STAGE_SENTINEL = none) : storedState cps claimId = none := by
  rw [storedState, h]
  rfl

theorem storedState_write {cps : Checkpoints} {bytes : Bytes} {schemaId : UInt32} :
    storedState (cps.write claimId PROCESSOR_STATE_STAGE_SENTINEL ⟨bytes, schemaId⟩) claimId =
      Carry.stateOf (some bytes) := by
  rw [storedState, Checkpoints.write_self]
  rfl

/-- A save after the run failed, and the claim is released. -/
def PostRun.Failed (p : PostRun) : Prop := ∃ e, p.runError = some e ∧ p.claimReleased = true

/-- Nothing has failed. -/
def PostRun.Running (p : PostRun) : Prop := p.runError = none ∧ p.claimReleased = false

/-- What every stage of the saves keeps: other claims are left alone, nothing is acked, and the
state pointer has not moved. -/
structure PostRun.Kept (s : Runner) (claimId : Uuid) (p : PostRun) : Prop where
  agree : s.checkpoints.Agree claimId p.runner.checkpoints
  unacked : p.events.any Event.isAck = false
  stateId : p.runner.stateClaimId = s.stateClaimId

/-- Once something has failed no further save is made. -/
theorem PostRun.Failed.save_eq (h : p.Failed) {stageIdx : UInt32} {due : Bool}
    {attempt : Checkpoints → Checkpoints × SaciResult Unit} {advance : Runner → Runner} :
    p.save claimId stageIdx due attempt advance = p := by
  obtain ⟨e, herror, -⟩ := h
  rw [PostRun.save, if_neg (by simp [herror])]

/-- The stage checkpoint, on a claim under which nothing is stored yet. -/
theorem save_checkpoint_cases (hfresh : ∀ stageIdx, s.checkpoints claimId stageIdx = none)
    {events : List Event} (hevents : events.any Event.isAck = false)
    (hp : PostRun.save ⟨s, events, none, false⟩ claimId 0
      (cfg.checkpointStrategy.shouldCheckpoint 0)
      (fun cps => writeCheckpoint api cps t.checkpointSave claimId 0 data) id = p) :
    p.Kept s claimId ∧ p.runner.accumulatorClaimId = s.accumulatorClaimId ∧
      (p.Failed ∨ p.Running ∧ CheckpointSaved api cfg s t claimId data ∧
        ∀ stageIdx, stageIdx ≠ 0 → p.runner.checkpoints claimId stageIdx = none) := by
  rcases PostRun.save_cases ⟨s, events, none, false⟩ claimId 0
    (cfg.checkpointStrategy.shouldCheckpoint 0)
    (fun cps => writeCheckpoint api cps t.checkpointSave claimId 0 data) id with
    ⟨hskip, heq⟩ | ⟨-, -, -, cps, hattempt, heq⟩ | ⟨-, -, -, cps, e, hattempt, heq⟩
  · rw [heq] at hp
    subst hp
    refine ⟨⟨.refl, hevents, rfl⟩, rfl, .inr ⟨⟨rfl, rfl⟩, ?_, fun _ _ => hfresh _⟩⟩
    exact fun hdue => absurd ⟨rfl, rfl, hdue⟩ hskip
  · rw [heq] at hp
    subst hp
    refine ⟨⟨agree_writeCheckpoint hattempt, ?_, rfl⟩, rfl, .inr ⟨⟨rfl, rfl⟩, ?_, ?_⟩⟩
    · simp [hevents, Event.isAck]
    · exact fun _ => by rw [hattempt]
    · intro stageIdx hne
      rcases writeCheckpoint_cases hattempt with rfl | ⟨cp, hsave⟩
      · exact hfresh _
      · exact (Checkpoints.save_of_stage_ne hsave hne).trans (hfresh _)
  · rw [heq] at hp
    subst hp
    refine ⟨⟨agree_writeCheckpoint hattempt, ?_, rfl⟩, rfl, .inl ⟨e, rfl, rfl⟩⟩
    simp [hevents, Event.isAck]

/-- The accumulator, on a claim under which no accumulator and no state is stored yet. -/
theorem save_accumulator_cases {p' : PostRun} (hkept : p.Kept s claimId) (hrunning : p.Running)
    (hid : p.runner.accumulatorClaimId = s.accumulatorClaimId)
    (hfresh : ∀ stageIdx, stageIdx ≠ 0 → p.runner.checkpoints claimId stageIdx = none)
    (hp : p.save claimId ACCUMULATOR_STAGE_SENTINEL true
      (fun cps => saveAccumulatorState api cps t.accumulatorSave claimId data)
      (fun s => { s with accumulatorClaimId := some claimId }) = p') :
    p'.Kept s claimId ∧
      (p'.Failed ∧ p'.runner.accumulatorClaimId = s.accumulatorClaimId ∨
        p'.Running ∧ p'.runner.accumulatorClaimId = some claimId ∧
          HoldsAccumulator api claimId data p'.runner.checkpoints ∧
          AccumulatorSaved api s t claimId data ∧
          p'.runner.checkpoints claimId PROCESSOR_STATE_STAGE_SENTINEL = none) := by
  obtain ⟨hagree, hevents, hstate⟩ := hkept
  have hacc : p.runner.checkpoints claimId ACCUMULATOR_STAGE_SENTINEL = none := hfresh _ (by decide)
  have hblob : p.runner.checkpoints claimId PROCESSOR_STATE_STAGE_SENTINEL = none :=
    hfresh _ (by decide)
  rcases p.save_cases claimId ACCUMULATOR_STAGE_SENTINEL true
    (fun cps => saveAccumulatorState api cps t.accumulatorSave claimId data)
    (fun s => { s with accumulatorClaimId := some claimId }) with
    ⟨hskip, -⟩ | ⟨-, -, -, cps, hattempt, heq⟩ | ⟨-, -, -, cps, e, hattempt, heq⟩
  · exact absurd ⟨hrunning.1, hrunning.2, rfl⟩ hskip
  · rw [heq] at hp
    subst hp
    have hagree' := hagree.trans (agree_saveAccumulatorState hattempt)
    refine ⟨⟨hagree', ?_, hstate⟩, .inr ⟨hrunning, rfl, ?_, ?_, ?_⟩⟩
    · simp [hevents, Event.isAck]
    · rcases saveAccumulatorState_cases hattempt with ⟨rfl, hbatch⟩ | ⟨buf, hwrite, hlen, hsave⟩
      · exact holdsAccumulator_none hacc (hbatch rfl)
      · obtain rfl := Checkpoints.save_ok hsave
        exact holdsAccumulator_write hwrite hlen
    · exact saveAccumulatorState_result.trans (congrArg Prod.snd hattempt)
    · rcases saveAccumulatorState_cases hattempt with ⟨rfl, -⟩ | ⟨buf, -, -, hsave⟩
      · exact hblob
      · exact (Checkpoints.save_of_stage_ne hsave (by decide)).trans hblob
  · rw [heq] at hp
    subst hp
    have hagree' := hagree.trans (agree_saveAccumulatorState hattempt)
    refine ⟨⟨hagree', ?_, hstate⟩, .inl ⟨⟨e, rfl, rfl⟩, hid⟩⟩
    simp [hevents, Event.isAck]

/-- The state blob, on a claim under which no state is stored yet. -/
theorem save_state_cases {p' : PostRun} (hkept : p.Kept s claimId) (hrunning : p.Running)
    (hblob : p.runner.checkpoints claimId PROCESSOR_STATE_STAGE_SENTINEL = none)
    (hp : p.save claimId PROCESSOR_STATE_STAGE_SENTINEL blob.isSome
      (fun cps => saveProcessorState cps t.stateSave claimId (blob.getD []) data.fingerprint)
      (fun s => { s with stateClaimId := some claimId }) = p') :
    s.checkpoints.Agree claimId p'.runner.checkpoints ∧ p'.events.any Event.isAck = false ∧
      p'.runner.accumulatorClaimId = p.runner.accumulatorClaimId ∧
      p'.runner.checkpoints claimId ACCUMULATOR_STAGE_SENTINEL =
        p.runner.checkpoints claimId ACCUMULATOR_STAGE_SENTINEL ∧
      (p'.Failed ∧ p'.runner.stateClaimId = s.stateClaimId ∧ ¬ StateSaved s t claimId data blob ∨
        p'.Running ∧ StateSaved s t claimId data blob ∧
          (blob = none → p'.runner.stateClaimId = s.stateClaimId) ∧
          ∀ bytes, blob = some bytes → p'.runner.stateClaimId = some claimId ∧
            storedState p'.runner.checkpoints claimId = Carry.stateOf (some bytes)) := by
  obtain ⟨hagree, hevents, hstate⟩ := hkept
  rcases p.save_cases claimId PROCESSOR_STATE_STAGE_SENTINEL blob.isSome
    (fun cps => saveProcessorState cps t.stateSave claimId (blob.getD []) data.fingerprint)
    (fun s => { s with stateClaimId := some claimId }) with
    ⟨hskip, heq⟩ | ⟨-, -, hdue, cps, hattempt, heq⟩ | ⟨-, -, hdue, cps, e, hattempt, heq⟩
  · rw [heq] at hp
    subst hp
    have hnone : blob = none := by
      cases blob with
      | none => rfl
      | some bytes => exact absurd ⟨hrunning.1, hrunning.2, rfl⟩ hskip
    subst hnone
    exact ⟨hagree, hevents, rfl, rfl,
      .inr ⟨hrunning, fun _ h => (nomatch h), fun _ => hstate, fun _ h => (nomatch h)⟩⟩
  · obtain ⟨bytes, rfl⟩ := Option.isSome_iff_exists.mp hdue
    rw [heq] at hp
    subst hp
    refine ⟨hagree.trans (agree_saveProcessorState hattempt), ?_, rfl, ?_,
      .inr ⟨hrunning, ?_, fun h => (nomatch h), ?_⟩⟩
    · simp [hevents, Event.isAck]
    · rcases saveProcessorState_cases hattempt with ⟨rfl, -⟩ | ⟨-, hsave⟩
      · rfl
      · exact Checkpoints.save_of_stage_ne hsave (by decide)
    · intro _ h
      cases h
      exact saveProcessorState_result.trans (congrArg Prod.snd hattempt)
    · intro _ h
      cases h
      refine ⟨rfl, ?_⟩
      rcases saveProcessorState_cases hattempt with ⟨rfl, hempty⟩ | ⟨-, hsave⟩
      · obtain rfl : bytes = [] := hempty rfl
        exact storedState_none hblob
      · obtain rfl := Checkpoints.save_ok hsave
        exact storedState_write
  · obtain ⟨bytes, rfl⟩ := Option.isSome_iff_exists.mp hdue
    rw [heq] at hp
    subst hp
    refine ⟨hagree.trans (agree_saveProcessorState hattempt), ?_, rfl, ?_,
      .inl ⟨⟨e, rfl, rfl⟩, hstate, ?_⟩⟩
    · simp [hevents, Event.isAck]
    · rcases saveProcessorState_cases hattempt with ⟨rfl, -⟩ | ⟨-, hsave⟩
      · rfl
      · exact Checkpoints.save_of_stage_ne hsave (by decide)
    · intro h
      have hok := (h bytes rfl).symm.trans
        (saveProcessorState_result.trans (congrArg Prod.snd hattempt))
      cases hok

/-! ## Turns -/

variable {result : SaciResult (Option Bytes)} {insertKeyPartition : KeyPartition → R → R}

/-- How a turn whose accumulator save succeeded goes on: the claim is released because the state
save failed, or it is acked. -/
inductive Ended (api : Externals R V) (s : Runner) (t : Turn R) (claimId : Uuid) (data : Dataset R)
    (blob : Option Bytes) (s' : Runner) (acked : Bool) : Prop
  | halfSaved (ack : acked = false) (stateId : s'.stateClaimId = s.stateClaimId)
      (stateFailed : ¬ StateSaved s t claimId data blob)
  | acked (ack : acked = true) (answer : t.ack = .ok ())
      (stateSaved : StateSaved s t claimId data blob)
      (stateId : blob = none → s'.stateClaimId = s.stateClaimId)
      (state : ∀ bytes, blob = some bytes → s'.stateClaimId = some claimId ∧
        storedState s'.checkpoints claimId = Carry.stateOf (some bytes))

/-- What a turn after which the loop goes on does to the pointers, from the run on. -/
theorem conclude_next (hfresh : ∀ stageIdx, s.checkpoints claimId stageIdx = none)
    (h : (conclude api cfg s t claimId data result).2 = .next s') :
    s.checkpoints.Agree claimId s'.checkpoints ∧
      ((conclude api cfg s t claimId data result).1.any Event.isAck = false ∧
          s'.stateClaimId = s.stateClaimId ∧ s'.accumulatorClaimId = s.accumulatorClaimId ∨
        ∃ blob, result = .ok blob ∧ CheckpointSaved api cfg s t claimId data ∧
          AccumulatorSaved api s t claimId data ∧ s'.accumulatorClaimId = some claimId ∧
          HoldsAccumulator api claimId data s'.checkpoints ∧
          Ended api s t claimId data blob s'
            ((conclude api cfg s t claimId data result).1.any Event.isAck)) := by
  rw [conclude] at h ⊢
  generalize hp₃ : saveAll api cfg s t claimId data result = p₃ at h ⊢
  unfold saveAll at hp₃
  extract_lets windowed nextState runError p₀ p₁ p₂ at hp₃
  cases result with
  | error e =>
    -- A run that failed makes no save: it releases the claim and leaves the loop.
    have h₁ : p₁ = p₀ := by simp [p₁, PostRun.save, p₀, runError]
    have h₂ : p₂ = p₁ := by simp [p₂, PostRun.save, h₁, p₀, runError]
    have h₃ : p₃ = p₀ := by rw [← hp₃, h₂, h₁]; simp [PostRun.save, p₀, runError]
    rw [h₃] at h
    cases h
  | ok blob =>
    obtain ⟨hkept₁, hid₁, hp₁⟩ := save_checkpoint_cases hfresh (by rfl) (rfl : _ = p₁)
    rcases hp₁ with hfailed₁ | ⟨hrunning₁, hcheckpoint, hnone₁⟩
    · have h₂ : p₂ = p₁ := hfailed₁.save_eq
      have h₃ : p₃ = p₁ := by rw [← hp₃, h₂]; exact hfailed₁.save_eq
      subst h₃
      obtain ⟨e, herror, hreleased⟩ := hfailed₁
      simp only [PostRun.finish, herror, hreleased] at h ⊢
      cases h
      exact ⟨hkept₁.agree, .inl ⟨hkept₁.unacked, hkept₁.stateId, hid₁⟩⟩
    · obtain ⟨hkept₂, hp₂⟩ := save_accumulator_cases hkept₁ hrunning₁ hid₁ hnone₁ (rfl : _ = p₂)
      rcases hp₂ with ⟨hfailed₂, hid₂⟩ | ⟨hrunning₂, hid₂, hholds, hsaved, hblob⟩
      · have h₃ : p₃ = p₂ := by rw [← hp₃]; exact hfailed₂.save_eq
        subst h₃
        obtain ⟨e, herror, hreleased⟩ := hfailed₂
        simp only [PostRun.finish, herror, hreleased] at h ⊢
        cases h
        exact ⟨hkept₂.agree, .inl ⟨hkept₂.unacked, hkept₂.stateId, hid₂⟩⟩
      · obtain ⟨hagree, hunacked, hid₃, hacc, hend⟩ := save_state_cases hkept₂ hrunning₂ hblob hp₃
        have hholds₃ : HoldsAccumulator api claimId data p₃.runner.checkpoints := by
          rwa [HoldsAccumulator, hacc]
        rcases hend with ⟨⟨e, herror, hreleased⟩, hstate, hfailed⟩ | ⟨⟨herror, -⟩, hstate, hid, hstored⟩
        · simp only [PostRun.finish, herror, hreleased] at h ⊢
          cases h
          exact ⟨hagree, .inr ⟨blob, rfl, hcheckpoint, hsaved, hid₃.trans hid₂, hholds₃,
            .halfSaved hunacked hstate hfailed⟩⟩
        · simp only [PostRun.finish, herror] at h ⊢
          split at h
          · cases h
          · next hack =>
            cases h
            refine ⟨hagree, .inr ⟨blob, rfl, hcheckpoint, hsaved, hid₃.trans hid₂, hholds₃, ?_⟩⟩
            exact .acked (by simp [Event.isAck]) hack hstate hid hstored

/-- What a turn ran: the batch it restored, the state it loaded, and what the runtime made of
them. -/
structure Ran (api : Externals R V) (insertKeyPartition : KeyPartition → R → R)
    (cfg : RunnerConfig) (s : Runner) (t : Turn R) (loaded : Option RecordBatch)
    (prior : Option Bytes) (data : Dataset R) (result : SaciResult (Option Bytes)) : Prop where
  load : loadAccumulator api s t = .ok loaded
  state : loadState s t = .ok prior
  renew : renewIfDue t = .ok ()
  run : ∃ fresh, restoreAccumulator api (freshData insertKeyPartition cfg t) loaded = .ok fresh ∧
    t.run fresh prior = .ran data result

theorem process_next {claim : BatchClaim}
    (hfresh : ∀ stageIdx, s.checkpoints claim.claimId stageIdx = none)
    (h : (process api insertKeyPartition cfg s t claim).2 = .next s') :
    s.checkpoints.Agree claim.claimId s'.checkpoints ∧
      ((process api insertKeyPartition cfg s t claim).1.any Event.isAck = false ∧
          s'.stateClaimId = s.stateClaimId ∧ s'.accumulatorClaimId = s.accumulatorClaimId ∨
        ∃ loaded prior data blob,
          Ran api insertKeyPartition cfg s t loaded prior data (.ok blob) ∧
          CheckpointSaved api cfg s t claim.claimId data ∧
          AccumulatorSaved api s t claim.claimId data ∧
          s'.accumulatorClaimId = some claim.claimId ∧
          HoldsAccumulator api claim.claimId data s'.checkpoints ∧
          Ended api s t claim.claimId data blob s'
            ((process api insertKeyPartition cfg s t claim).1.any Event.isAck)) := by
  rw [process] at h ⊢
  split at h
  · next hload =>
    cases h
    exact ⟨.refl, .inl ⟨rfl, rfl, rfl⟩⟩
  · next loaded hload =>
    split at h
    · cases h
    · next fresh hrestore =>
      split at h
      · next hstate =>
        cases h
        exact ⟨.refl, .inl ⟨rfl, rfl, rfl⟩⟩
      · next prior hstate =>
        split at h
        · cases h
        · next hrenew =>
          split at h
          · next hrun =>
            cases h
            exact ⟨.refl, .inl ⟨rfl, rfl, rfl⟩⟩
          · next data result hrun =>
            obtain ⟨hagree, hend⟩ := conclude_next hfresh h
            refine ⟨hagree, hend.imp_right ?_⟩
            rintro ⟨blob, rfl, hend⟩
            exact ⟨loaded, prior, data, blob, ⟨hload, hstate, hrenew, fresh, hrestore, hrun⟩, hend⟩

/-- A turn after which the loop goes on obtained a claim, and did with it what `process` does. -/
theorem turn_next (h : (turn api insertKeyPartition cfg s t).2 = .next s') :
    ∃ claim, t.claim = .ok (some claim) ∧
      (process api insertKeyPartition cfg s t claim).2 = .next s' ∧
      (turn api insertKeyPartition cfg s t).1.any Event.isAck =
        (process api insertKeyPartition cfg s t claim).1.any Event.isAck := by
  rw [turn] at h ⊢
  split at h
  · cases h
  · next hmax =>
    rw [if_neg hmax]
    split at h
    · cases h
    · next hcancelled =>
      rw [if_neg hcancelled]
      cases hclaim : t.claim with
      | error e => simp only [hclaim] at h; cases h
      | ok granted =>
        cases granted with
        | none => simp only [hclaim] at h; cases h
        | some claim =>
          simp only [hclaim] at h
          refine ⟨claim, rfl, h, ?_⟩
          cases t.sweepDue <;> simp [Event.isAck]

/-- No turn moves a pointer and leaves its batch unacknowledged, or acknowledges a batch and leaves
a pointer behind: once the accumulator is saved the state is saved too, or the accumulator is
unchanged; and a batch that is acknowledged without a state blob was handed none. -/
def Chained (api : Externals R V) (insertKeyPartition : KeyPartition → R → R) (cfg : RunnerConfig)
    (s : Runner) (t : Turn R) : Prop :=
  ∀ claim loaded prior data blob, t.claim = .ok (some claim) →
    Ran api insertKeyPartition cfg s t loaded prior data (.ok blob) →
    CheckpointSaved api cfg s t claim.claimId data →
    AccumulatorSaved api s t claim.claimId data →
    (StateSaved s t claim.claimId data blob ∨ Carry.accumulatorOf data = loaded) ∧
      (StateSaved s t claim.claimId data blob → t.ack = .ok () → blob = none → prior = none)

/-- The pointers of a runner that has obtained some claims, and what is stored under them. -/
structure Follows (api : Externals R V) (ids : List Uuid) (carry : Carry) (s : Runner) :
    Prop where
  written : ∀ claimId, claimId ∉ ids → ∀ stageIdx, s.checkpoints claimId stageIdx = none
  stateId : ∀ claimId ∈ s.stateClaimId, claimId ∈ ids
  accumulatorId : ∀ claimId ∈ s.accumulatorClaimId, claimId ∈ ids
  state : s.stateClaimId.bind (storedState s.checkpoints) = carry.state
  accumulator : (s.accumulatorClaimId = none ∧ carry.accumulator = none) ∨
    ∃ claimId, ∃ data : Dataset R, s.accumulatorClaimId = some claimId ∧
      HoldsAccumulator api claimId data s.checkpoints ∧
      Carry.accumulatorOf data = carry.accumulator

theorem follows_start : Follows api [] .cold start where
  written _ _ _ := rfl
  stateId _ h := nomatch h
  accumulatorId _ h := nomatch h
  state := rfl
  accumulator := .inl ⟨rfl, rfl⟩

variable {ids : List Uuid} {carry : Carry} {loaded : Option RecordBatch} {prior : Option Bytes}

/-- What is stored for a dataset's accumulator loads as that accumulator. -/
theorem loadAccumulatorState_eq (harrow : api.arrow.Faithful) {cps : Checkpoints}
    {fault : Option SaciError} (hholds : HoldsAccumulator api claimId data cps)
    (hload : loadAccumulatorState api cps fault claimId = .ok loaded) :
    loaded = Carry.accumulatorOf data := by
  obtain ⟨found, hfound, hload⟩ := bind_eq_ok_iff.mp hload
  unfold Checkpoints.load at hfound
  split at hfound
  · cases hfound
  · cases hfound
    split at hload
    · next hnone =>
      rw [HoldsAccumulator, hnone] at hholds
      cases hload
      simp [Carry.accumulatorOf, hholds]
    · next cp hsome =>
      rw [HoldsAccumulator, hsome] at hholds
      obtain ⟨hwrite, hlen⟩ := hholds
      split at hload
      · next hempty =>
        -- What was written ends in a terminator.
        obtain ⟨_, _, _, _, _, _, hpayload⟩ := Dataset.writeComponentIpc_eq_ok hwrite
        simp [hpayload, terminator, u32Bytes, leBytes, beBytes] at hempty
      · obtain ⟨dataset, hread, hload⟩ := bind_eq_ok_iff.mp hload
        have hcap : cp.payload.length < 2 ^ 32 := hlen.trans (by decide)
        obtain ⟨entry, hfind, hbatch, -⟩ := Dataset.find_readIpc_writeComponentIpc harrow
          (by decide) hwrite hcap hread
        have hdata : data.batchFor WINDOW_ACCUMULATOR = some entry.merged := by
          simp [Dataset.batchFor, hfind]
        simp only [hbatch] at hload
        split at hload
        · next hzero => cases hload; simp [Carry.accumulatorOf, hdata, Option.filter, hzero]
        · next hzero =>
          obtain ⟨migrated, hmigrate, hload⟩ := bind_eq_ok_iff.mp hload
          cases hload
          rw [migrateToCurrent] at hmigrate
          split at hmigrate
          · cases hmigrate
          · cases hmigrate
            simp [Carry.accumulatorOf, hdata, Option.filter, hzero]

/-- What is loaded as the state is what the carry holds. -/
theorem Follows.state_eq (h : Follows api ids carry s) (hload : loadState s t = .ok prior) :
    prior = carry.state := by
  rw [← h.state]
  rw [loadState] at hload
  split at hload
  · next hid => rw [hid]; cases hload; rfl
  · next claimId hid =>
    rw [hid]
    obtain ⟨found, hfound, hload⟩ := bind_eq_ok_iff.mp hload
    unfold Checkpoints.load at hfound
    split at hfound
    · cases hfound
    · cases hfound
      rw [Option.bind_some, storedState]
      split at hload
      · next hnone => rw [hnone]; cases hload; rfl
      · next cp hsome =>
        rw [hsome]
        split at hload
        · next hempty => cases hload; simp [Carry.stateOf, Option.filter, hempty]
        · next hempty => cases hload; simp [Carry.stateOf, Option.filter, hempty]

/-- What is loaded as the accumulator is what the carry holds. -/
theorem Follows.accumulator_eq (harrow : api.arrow.Faithful) (h : Follows api ids carry s)
    (hload : loadAccumulator api s t = .ok loaded) : loaded = carry.accumulator := by
  rw [loadAccumulator] at hload
  rcases h.accumulator with ⟨hid, hnone⟩ | ⟨claimId, data, hid, hholds, hcarry⟩
  · rw [hid] at hload
    cases hload
    exact hnone.symm
  · rw [hid] at hload
    rw [← hcarry]
    exact loadAccumulatorState_eq harrow hholds hload

theorem Follows.written_append (h : Follows api ids carry s)
    (hagree : s.checkpoints.Agree claimId s'.checkpoints) (claimId' : Uuid)
    (hnot : claimId' ∉ ids ++ [claimId]) (stageIdx : UInt32) :
    s'.checkpoints claimId' stageIdx = none := by
  obtain ⟨hids, hne⟩ := not_or.mp (mt List.mem_append.mpr hnot)
  rw [hagree claimId' (fun heq => hne (by simp [heq])) stageIdx]
  exact h.written claimId' hids stageIdx

/-- A state pointer that does not move keeps what it points at. -/
theorem Follows.state_kept (h : Follows api ids carry s) (hclaim : claimId ∉ ids)
    (hagree : s.checkpoints.Agree claimId s'.checkpoints)
    (hstate : s'.stateClaimId = s.stateClaimId) :
    s'.stateClaimId.bind (storedState s'.checkpoints) = carry.state := by
  rw [← h.state, hstate]
  cases hid : s.stateClaimId with
  | none => rfl
  | some claimId' =>
    have hne : claimId' ≠ claimId := fun heq => hclaim (heq ▸ h.stateId claimId' hid)
    simp only [Option.bind_some, storedState, hagree claimId' hne]

/-- An accumulator pointer that does not move keeps what it points at. -/
theorem Follows.accumulator_kept (h : Follows api ids carry s) (hclaim : claimId ∉ ids)
    (hagree : s.checkpoints.Agree claimId s'.checkpoints)
    (haccumulator : s'.accumulatorClaimId = s.accumulatorClaimId) :
    (s'.accumulatorClaimId = none ∧ carry.accumulator = none) ∨
      ∃ claimId, ∃ data : Dataset R, s'.accumulatorClaimId = some claimId ∧
        HoldsAccumulator api claimId data s'.checkpoints ∧
        Carry.accumulatorOf data = carry.accumulator := by
  rw [haccumulator]
  refine h.accumulator.imp_right ?_
  intro ⟨claimId', data, hid, hholds, hcarry⟩
  have hne : claimId' ≠ claimId := fun heq => hclaim (heq ▸ h.accumulatorId claimId' hid)
  refine ⟨claimId', data, hid, ?_, hcarry⟩
  rwa [HoldsAccumulator, hagree claimId' hne]

/-- What a batch that ran makes of what it was handed. -/
theorem Follows.advance_eq (harrow : api.arrow.Faithful) (h : Follows api ids carry s)
    (hran : Ran api insertKeyPartition cfg s t loaded prior data (.ok blob)) :
    carry.advance api insertKeyPartition cfg t =
      ⟨Carry.accumulatorOf data, Carry.stateOf blob⟩ := by
  obtain ⟨hload, hstate, -, fresh, hrestore, hrun⟩ := hran
  rw [h.accumulator_eq harrow hload] at hrestore
  rw [h.state_eq hstate] at hrun
  simp only [Carry.advance, hrestore, hrun]

/-- One turn after which the loop goes on. -/
theorem Follows.step (harrow : api.arrow.Faithful) (h : Follows api ids carry s)
    {claim : BatchClaim} (hclaim : t.claim = .ok (some claim)) (hfresh : claim.claimId ∉ ids)
    (hC : Chained api insertKeyPartition cfg s t)
    (hnext : (turn api insertKeyPartition cfg s t).2 = .next s') :
    Follows api (ids ++ [claim.claimId])
      (if (turn api insertKeyPartition cfg s t).1.any Event.isAck
        then carry.advance api insertKeyPartition cfg t else carry) s' := by
  obtain ⟨claim', hclaim', hprocess, hack⟩ := turn_next hnext
  obtain rfl : claim = claim' := by simpa using hclaim.symm.trans hclaim'
  rw [hack]
  obtain ⟨hagree, hend⟩ := process_next (h.written _ hfresh) hprocess
  have hstateMem : ∀ claimId ∈ s.stateClaimId, claimId ∈ ids ++ [claim.claimId] := fun _ hmem =>
    List.mem_append_left _ (h.stateId _ hmem)
  rcases hend with ⟨hunacked, hstate, haccumulator⟩ |
    ⟨loaded, prior, data, blob, hran, hcheckpoint, hsaved, hid, hholds, hend⟩
  · -- Released with both pointers where they were.
    rw [hunacked]
    exact {
      written := h.written_append hagree
      stateId := by rw [hstate]; exact hstateMem
      accumulatorId := by
        rw [haccumulator]
        exact fun _ hmem => List.mem_append_left _ (h.accumulatorId _ hmem)
      state := h.state_kept hfresh hagree hstate
      accumulator := h.accumulator_kept hfresh hagree haccumulator }
  · obtain ⟨hstateSaved, hblob⟩ := hC claim loaded prior data blob hclaim hran hcheckpoint hsaved
    have hidMem : ∀ claimId ∈ s'.accumulatorClaimId, claimId ∈ ids ++ [claim.claimId] := by
      rw [hid]
      intro _ hmem
      cases hmem
      simp
    cases hend with
    | halfSaved hunacked hstate hfailed =>
      -- The accumulator moved although the batch was released: it is still the one that was loaded.
      have hsame : Carry.accumulatorOf data = carry.accumulator :=
        (hstateSaved.resolve_left hfailed).trans (h.accumulator_eq harrow hran.load)
      rw [hunacked]
      exact {
        written := h.written_append hagree
        stateId := by rw [hstate]; exact hstateMem
        accumulatorId := hidMem
        state := h.state_kept hfresh hagree hstate
        accumulator := .inr ⟨_, data, hid, hholds, hsame⟩ }
    | acked hacked hanswer hsavedState hnone hsome =>
      rw [hacked, if_pos rfl, h.advance_eq harrow hran]
      refine {
        written := h.written_append hagree
        stateId := ?_
        accumulatorId := hidMem
        state := ?_
        accumulator := .inr ⟨_, data, hid, hholds, rfl⟩ }
      · cases blob with
        | none => rw [hnone rfl]; exact hstateMem
        | some bytes =>
          rw [(hsome bytes rfl).1]
          intro _ hmem
          cases hmem
          simp
      · cases blob with
        | none =>
          have hprior : carry.state = none :=
            (h.state_eq hran.state).symm.trans (hblob hsavedState hanswer rfl)
          exact (h.state_kept hfresh hagree (hnone rfl)).trans hprior
        | some bytes =>
          obtain ⟨hstateId, hstored⟩ := hsome bytes rfl
          rw [hstateId]
          exact hstored

/-- What the next claim is handed, if both of its loads succeed. -/
def handed (api : Externals R V) (s : Runner) (t : Turn R) : Option Carry :=
  match loadAccumulator api s t, loadState s t with
  | .ok accumulator, .ok state => some ⟨accumulator, state⟩
  | _, _ => none

/-- For every run, whatever fails in it: if the claims have ids of their own and every turn is
chained, what a claim is handed is what the batches acknowledged so far, each once and in order,
make of a cold start. -/
theorem handed_eq_replay {ts : List (Turn R)} (harrow : api.arrow.Faithful)
    (hids : (ts.filterMap Turn.claimId?).Nodup)
    (hC : EachTurn (turn api insertKeyPartition cfg) (Chained api insertKeyPartition cfg) start ts)
    (hrun : (runWithShutdown api insertKeyPartition cfg ts).2 = .next s) {next : Turn R}
    (hnext : handed api s next = some carry) :
    carry = Carry.replay api insertKeyPartition cfg
      (acknowledged ts (runWithShutdown api insertKeyPartition cfg ts).1) := by
  suffices hfollows : ts.length = (runWithShutdown api insertKeyPartition cfg ts).1.length ∧
      ((ts.filterMap Turn.claimId?).Nodup → Follows api (ts.filterMap Turn.claimId?)
        (Carry.replay api insertKeyPartition cfg
          (acknowledged ts (runWithShutdown api insertKeyPartition cfg ts).1)) s) by
    have hfollows := hfollows.2 hids
    rw [handed] at hnext
    split at hnext
    · next accumulator state hload hstate =>
      cases hnext
      rw [hfollows.accumulator_eq harrow hload, hfollows.state_eq hstate]
    · cases hnext
  refine loop_induction (P := fun done events s => done.length = events.length ∧
    ((done.filterMap Turn.claimId?).Nodup → Follows api (done.filterMap Turn.claimId?)
      (Carry.replay api insertKeyPartition cfg (acknowledged done events)) s))
    ⟨rfl, fun _ => follows_start⟩ ?_ hC hrun
  intro done events s t s' ⟨hlen, hfollows⟩ hC hnext
  refine ⟨by simp [hlen], fun hnodup => ?_⟩
  obtain ⟨claim, hclaim, -, -⟩ := turn_next hnext
  have hid : [t].filterMap Turn.claimId? = [claim.claimId] := by
    simp [Turn.claimId?, hclaim]
  rw [List.filterMap_append, hid] at hnodup ⊢
  obtain ⟨hdone, -, hdisjoint⟩ := List.nodup_append.mp hnodup
  have hfresh : claim.claimId ∉ done.filterMap Turn.claimId? := fun hmem =>
    hdisjoint _ hmem _ (List.mem_singleton_self _) rfl
  have hstep := (hfollows hdone).step harrow hclaim hfresh hC hnext
  rw [acknowledged_append hlen]
  split at hstep
  · next hack => simpa [hack, Carry.replay_append_singleton] using hstep
  · next hack => simpa [hack] using hstep

end Runner

/-! ## Two runs -/

namespace Sample
open Runner

/-- One accumulator row. -/
def accumulatorRow : List Cell :=
  [.int 1, .text "orders", .int 0, .int 0, .int 3, .null, .null, .null, .null, .null, .null]

/-- A batch that leaves one accumulator row and a state blob. -/
def countingTurn (n : Nat) : Turn Unit :=
  plainTurn n fun _ _ => .ran (dataWith accumulatorSchema [accumulatorRow]) (.ok (some [7]))

abbrev countingApi : Externals Unit (List Cell) := externals [(accumulatorSchema, [accumulatorRow])]

abbrev runCounting (ts : List (Turn Unit)) : List (List Event) × Ending Runner (SaciResult Nat) :=
  runWithShutdown countingApi (fun _ resources => resources) config ts

abbrev replayCounting (ts : List (Turn Unit)) : Carry :=
  Carry.replay countingApi (fun _ resources => resources) config
    (acknowledged ts (runCounting ts).1)

/-- `handed_eq_replay` after one acknowledged batch. -/
theorem handed_after_countingTurn :
    ∃ s carry, (runCounting [countingTurn 1]).2 = .next s ∧
      handed countingApi s (countingTurn 2) = some carry ∧
      carry = replayCounting [countingTurn 1] := by
  refine ⟨_, ⟨some ⟨accumulatorSchema, [accumulatorRow]⟩, some [7]⟩, rfl, by decide, ?_⟩
  refine handed_eq_replay (ArrowIpc.faithful_ofTable (by decide)) (by decide)
    ⟨?_, fun _ _ => trivial⟩ rfl (by decide : handed _ _ (countingTurn 2) = _)
  intro claim loaded prior data blob _ hran _ _
  obtain ⟨-, -, -, fresh, -, hrun⟩ := hran
  cases hrun
  exact ⟨.inl fun _ h => by cases h; rfl, fun _ _ h => (nomatch h)⟩

/-- A state save that fails without having written. -/
def failingTurn (n : Nat) : Turn Unit :=
  { countingTurn n with stateSave := .failed (.generic "raft timeout") false }

/-- The state save of the first batch fails after its accumulator was saved. The batch is released,
and yet the next claim is handed its accumulator. -/
theorem accumulator_of_released_batch :
    ∃ s carry, (runCounting [failingTurn 1]).2 = .next s ∧
      handed countingApi s (countingTurn 2) = some carry ∧
      carry ≠ replayCounting [failingTurn 1] :=
  ⟨_, ⟨some ⟨accumulatorSchema, [accumulatorRow]⟩, none⟩, rfl, by decide, by decide⟩

end Sample
end Saci.Distributed
