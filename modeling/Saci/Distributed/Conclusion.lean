import Saci.Distributed.Runner

/-!
# Every claim is concluded

A claim that was obtained is to be concluded by one ack or one release, and acked only once the
pipeline and every save it makes due have succeeded. `ClaimPhase` follows one claim at a time
through the events of the loop and gets stuck on an event that breaks this. The loop keeps to it
just if no loaded accumulator fails to be restored: that failure alone leaves the loop with the
claim neither acked nor released.
-/

namespace Saci.Distributed

/-- The rows of a loaded accumulator go into the fresh dataset of the turn. -/
def Runner.Restores {R V : Type} (api : Externals R V) (insertKeyPartition : KeyPartition → R → R)
    (cfg : RunnerConfig) (s : Runner) (t : Turn R) : Prop :=
  ∀ claim loaded, (∀ max ∈ cfg.maxBatches, s.processed < max) → t.cancelled = false →
    t.claim = .ok (some claim) → loadAccumulator api s t = .ok loaded →
    ∃ data, restoreAccumulator api (freshData insertKeyPartition cfg t) loaded = .ok data

/-- The stages whose save an answer of the pipeline makes due: the stage checkpoint of the
strategy, the window accumulator, and a state blob that is not empty. -/
def owedSaves (strategy : CheckpointStrategy) (blob : Option Bytes) (windowed : Bool) :
    List UInt32 :=
  (if strategy.shouldCheckpoint 0 then [0] else []) ++
  (if windowed then [ACCUMULATOR_STAGE_SENTINEL] else []) ++
  (if blob.getD [] = [] then [] else [PROCESSOR_STATE_STAGE_SENTINEL])

/-- Where the claim of the moment is. -/
inductive ClaimPhase
  | idle
  | held (claimId : Uuid)
  /-- The pipeline succeeded, and these saves have not yet. -/
  | ran (claimId : Uuid) (owed : List UInt32)
  | failed (claimId : Uuid)
  deriving DecidableEq

namespace ClaimPhase

/-- One event, or stuck. An ack needs a pipeline that succeeded and no save owed. -/
def observe (strategy : CheckpointStrategy) : ClaimPhase → Event → Option ClaimPhase
  | .idle, .reclaimExpired => some .idle
  | .idle, .claimed claimId => some (.held claimId)
  | .held claimId, .ran claimId' (.ok blob) windowed =>
    if claimId' = claimId then some (.ran claimId (owedSaves strategy blob windowed)) else none
  | .held claimId, .ran claimId' (.error _) _ =>
    if claimId' = claimId then some (.failed claimId) else none
  | .ran claimId owed, .saved claimId' stageIdx =>
    if claimId' = claimId then some (.ran claimId (owed.erase stageIdx)) else none
  | .ran claimId _, .saveFailed claimId' _ =>
    if claimId' = claimId then some (.failed claimId) else none
  | .ran claimId [], .ack claimId' => if claimId' = claimId then some .idle else none
  | .held claimId, .release claimId' => if claimId' = claimId then some .idle else none
  | .ran claimId _, .release claimId' => if claimId' = claimId then some .idle else none
  | .failed claimId, .release claimId' => if claimId' = claimId then some .idle else none
  | _, _ => none

/-- The phase some events lead to. -/
def follow (strategy : CheckpointStrategy) (phase : ClaimPhase) (events : List Event) :
    Option ClaimPhase :=
  events.foldlM (observe strategy) phase

variable {strategy : CheckpointStrategy} {phase : ClaimPhase} {claimId : Uuid}

theorem follow_append {events events' : List Event} :
    follow strategy phase (events ++ events') =
      (follow strategy phase events).bind fun phase' => follow strategy phase' events' := by
  simp [follow, List.foldlM_append]

theorem follow_cons {event : Event} {events : List Event} :
    follow strategy phase (event :: events) =
      (observe strategy phase event).bind fun phase' => follow strategy phase' events := by
  simp [follow]

theorem follow_cons_of {phase' : ClaimPhase} {event : Event} {events : List Event}
    (h : observe strategy phase event = some phase') :
    follow strategy phase (event :: events) = follow strategy phase' events := by
  rw [follow_cons, h, Option.bind_some]

@[simp] theorem follow_nil : follow strategy phase [] = some phase := rfl

@[simp] theorem follow_claimed {events : List Event} :
    follow strategy .idle (.claimed claimId :: events) = follow strategy (.held claimId) events := rfl

@[simp] theorem follow_reclaimExpired {events : List Event} :
    follow strategy .idle (.reclaimExpired :: events) = follow strategy .idle events := rfl

@[simp] theorem follow_saved {owed : List UInt32} {stageIdx : UInt32} :
    follow strategy (.ran claimId owed) [.saved claimId stageIdx] =
      some (.ran claimId (owed.erase stageIdx)) :=
  follow_cons_of (if_pos rfl)

@[simp] theorem follow_release_failed :
    follow strategy (.failed claimId) [.release claimId] = some .idle :=
  follow_cons_of (if_pos rfl)

@[simp] theorem follow_saveFailed {owed : List UInt32} {stageIdx : UInt32} :
    follow strategy (.ran claimId owed) [.saveFailed claimId stageIdx, .release claimId] =
      some .idle := by
  have hfailed : observe strategy (.ran claimId owed) (.saveFailed claimId stageIdx) =
      some (.failed claimId) := if_pos rfl
  rw [follow_cons_of hfailed, follow_release_failed]

@[simp] theorem follow_release_held :
    follow strategy (.held claimId) [.release claimId] = some .idle :=
  follow_cons_of (if_pos rfl)

@[simp] theorem follow_ack :
    follow strategy (.ran claimId []) [.ack claimId] = some .idle :=
  follow_cons_of (if_pos rfl)

end ClaimPhase

/-- No claim is concluded twice, none is acked before its time, and none is left behind. -/
def Concluded (strategy : CheckpointStrategy) (events : List Event) : Prop :=
  ClaimPhase.follow strategy .idle events = some .idle

instance {strategy : CheckpointStrategy} {events : List Event} :
    Decidable (Concluded strategy events) :=
  inferInstanceAs (Decidable (_ = _))

namespace Runner
open ClaimPhase
variable {R V : Type} {api : Externals R V} {insertKeyPartition : KeyPartition → R → R}
  {cfg : RunnerConfig} {s : Runner} {t : Turn R} {claim : BatchClaim} {claimId : Uuid}

/-- What the flags after the run say about the claim. -/
inductive PostRun.Tracked (strategy : CheckpointStrategy) (claimId : Uuid) (owed : List UInt32)
    (p : PostRun) : Prop
  | running (error : p.runError = none) (released : p.claimReleased = false)
      (phase : follow strategy (.held claimId) p.events = some (.ran claimId owed))
  | failed (e : SaciError) (error : p.runError = some e) (released : p.claimReleased = false)
      (phase : follow strategy (.held claimId) p.events = some (.failed claimId))
  | released (e : SaciError) (error : p.runError = some e) (released : p.claimReleased = true)
      (phase : follow strategy (.held claimId) p.events = some .idle)

theorem PostRun.Tracked.save {strategy : CheckpointStrategy} {owed : List UInt32} {p : PostRun}
    (h : p.Tracked strategy claimId owed)
    (stageIdx : UInt32) (due : Bool) (attempt : Checkpoints → Checkpoints × SaciResult Unit)
    (advance : Runner → Runner) :
    (p.save claimId stageIdx due attempt advance).Tracked strategy claimId
      (if due then owed.erase stageIdx else owed) := by
  rcases p.save_cases claimId stageIdx due attempt advance with
    ⟨hskip, heq⟩ | ⟨herror, hreleased, hdue, cps, -, heq⟩ | ⟨herror, hreleased, hdue, cps, e, -, heq⟩
  · rw [heq]
    cases h with
    | running error released phase =>
      have hdue : due = false := by
        cases due
        · rfl
        · exact absurd ⟨error, released, rfl⟩ hskip
      rw [hdue]
      exact .running error released phase
    | failed e error released phase => exact .failed e error released phase
    | released e error released phase => exact .released e error released phase
  · rw [heq, hdue]
    cases h with
    | running _ _ phase =>
      refine .running herror hreleased ?_
      simp [follow_append, phase]
    | failed e error => exact absurd herror (by simp [error])
    | released e error => exact absurd herror (by simp [error])
  · rw [heq, hdue]
    cases h with
    | running _ _ phase =>
      refine .released e rfl rfl ?_
      simp [follow_append, phase]
    | failed e error => exact absurd herror (by simp [error])
    | released e error => exact absurd herror (by simp [error])

/-- The saves that are attempted cover the ones that are owed. -/
theorem erase_owedSaves (strategy : CheckpointStrategy) (blob : Option Bytes) (windowed : Bool) :
    let owed := owedSaves strategy blob windowed
    let owed := if strategy.shouldCheckpoint 0 then owed.erase 0 else owed
    let owed := owed.erase ACCUMULATOR_STAGE_SENTINEL
    (if blob.isSome then owed.erase PROCESSOR_STATE_STAGE_SENTINEL else owed) = [] := by
  cases h : strategy.shouldCheckpoint 0 <;> cases windowed <;> rcases blob with _ | ⟨_ | _⟩ <;>
    simp only [owedSaves, h, Option.getD_none, Option.getD_some, Option.isSome_none,
      Option.isSome_some, reduceCtorEq, if_true, if_false, Bool.false_eq_true] <;>
    decide

/-- The flags after the saves, with no save left owed. -/
theorem tracked_saveAll (s : Runner) (t : Turn R) (claimId : Uuid) (data : Dataset R)
    (result : SaciResult (Option Bytes)) :
    (saveAll api cfg s t claimId data result).Tracked cfg.checkpointStrategy claimId [] := by
  unfold saveAll
  extract_lets windowed nextState runError p₀ p₁ p₂
  have h₀ : p₀.Tracked cfg.checkpointStrategy claimId
      (owedSaves cfg.checkpointStrategy nextState windowed) := by
    cases result with
    | ok blob => exact .running rfl rfl (by simp [p₀, follow_cons, observe, nextState])
    | error e => exact .failed e rfl rfl (by simp [p₀, follow_cons, observe])
  have h₁ : p₁.Tracked _ _ _ := h₀.save 0 _ _ _
  have h₂ : p₂.Tracked _ _ _ := h₁.save ACCUMULATOR_STAGE_SENTINEL true _ _
  have h₃ := h₂.save PROCESSOR_STATE_STAGE_SENTINEL nextState.isSome
    (fun cps => saveProcessorState cps t.stateSave claimId (nextState.getD []) data.fingerprint)
    fun s => { s with stateClaimId := some claimId }
  rwa [if_pos rfl, erase_owedSaves] at h₃

/-- From the run on, every path acks or releases the claim as it should. -/
theorem follow_conclude (s : Runner) (t : Turn R) (claimId : Uuid) (data : Dataset R)
    (result : SaciResult (Option Bytes)) :
    follow cfg.checkpointStrategy (.held claimId) (conclude api cfg s t claimId data result).1 =
      some .idle := by
  rw [conclude, PostRun.finish]
  have htracked : (saveAll api cfg s t claimId data result).Tracked _ claimId [] :=
    tracked_saveAll s t claimId data result
  cases htracked with
  | running error released phase =>
    simp only [error]
    split
    · simp [follow_append, phase]
    · simp [follow_append, phase]
  | failed e error released phase => simp [error, released, follow_append, phase]
  | released e error released phase => simp [error, released, phase]

/-- After a claim, either the loaded accumulator cannot be restored and the claim stays held, or the
claim is concluded. -/
theorem follow_process (s : Runner) (t : Turn R) (claim : BatchClaim) :
    (∃ loaded e, loadAccumulator api s t = .ok loaded ∧
        restoreAccumulator api (freshData insertKeyPartition cfg t) loaded = .error e ∧
        process api insertKeyPartition cfg s t claim = ([], .leave (.error e))) ∨
      (∀ loaded, loadAccumulator api s t = .ok loaded →
        ∃ data, restoreAccumulator api (freshData insertKeyPartition cfg t) loaded = .ok data) ∧
      follow cfg.checkpointStrategy (.held claim.claimId)
        (process api insertKeyPartition cfg s t claim).1 = some .idle := by
  cases hload : loadAccumulator api s t with
  | error e =>
    refine .inr ⟨fun _ h => (nomatch h), ?_⟩
    simp [process, hload]
  | ok loaded =>
    cases hrestore : restoreAccumulator api (freshData insertKeyPartition cfg t) loaded with
    | error e => exact .inl ⟨loaded, e, rfl, hrestore, by simp [process, hload, hrestore]⟩
    | ok data =>
      refine .inr ⟨fun _ h => by cases h; exact ⟨data, hrestore⟩, ?_⟩
      simp only [process, hload, hrestore]
      split
      · simp
      · split
        · simp
        · split
          · simp
          · exact follow_conclude s t claim.claimId _ _

/-- A turn keeps to the discipline just if it restores what it loaded, and always does so when the
loop goes on. -/
theorem concluded_turn (s : Runner) (t : Turn R) :
    (Concluded cfg.checkpointStrategy (turn api insertKeyPartition cfg s t).1 ∧
        Restores api insertKeyPartition cfg s t) ∨
      (¬ Concluded cfg.checkpointStrategy (turn api insertKeyPartition cfg s t).1 ∧
        ¬ Restores api insertKeyPartition cfg s t ∧
        ∃ r, (turn api insertKeyPartition cfg s t).2 = .leave r) := by
  rw [turn]
  split
  · next hmax =>
    obtain ⟨max, hmax, hle⟩ := hmax
    exact .inl ⟨rfl, fun _ _ hlt => absurd (hlt max hmax) (by omega)⟩
  · next hmax =>
    have hlt : ∀ max ∈ cfg.maxBatches, s.processed < max := fun max hmem =>
      Nat.lt_of_not_le fun hle => hmax ⟨max, hmem, hle⟩
    split
    · next hcancelled => exact .inl ⟨rfl, fun _ _ _ h => absurd hcancelled (by simp [h])⟩
    · next hcancelled =>
      have hswept : ∀ events, follow cfg.checkpointStrategy .idle
          ((if t.sweepDue then [Event.reclaimExpired] else []) ++ events) =
            follow cfg.checkpointStrategy .idle events := by
        intro events
        split <;> simp
      cases hclaim : t.claim with
      | error e =>
        refine .inl ⟨?_, fun _ _ _ _ h => by simp [hclaim] at h⟩
        simpa [Concluded] using hswept []
      | ok granted =>
        cases granted with
        | none =>
          refine .inl ⟨?_, fun _ _ _ _ h => by simp [hclaim] at h⟩
          simpa [Concluded] using hswept []
        | some claim =>
          dsimp only
          rcases follow_process s t claim with ⟨loaded, e, hload, hrestore, heq⟩ | ⟨hrestore, hfollow⟩
          · refine .inr ⟨?_, ?_, .error e, by rw [heq]⟩
            · rw [Concluded, hswept, heq]
              simp
            · intro h
              obtain ⟨data, hdata⟩ := h claim loaded hlt (by simpa using hcancelled) hclaim hload
              cases hdata.symm.trans hrestore
          · refine .inl ⟨?_, fun _ loaded _ _ _ hload => hrestore loaded hload⟩
            rw [Concluded, hswept]
            simpa using hfollow

/-- For every configuration, every dataset code and every sequence of turns, the claims are
concluded as they should be just if every turn that is reached restores the accumulator it loads. -/
theorem runWithShutdown_concluded_iff (api : Externals R V)
    (insertKeyPartition : KeyPartition → R → R) (cfg : RunnerConfig) (ts : List (Turn R)) :
    Concluded cfg.checkpointStrategy (runWithShutdown api insertKeyPartition cfg ts).1.flatten ↔
      EachTurn (turn api insertKeyPartition cfg) (Restores api insertKeyPartition cfg) start ts := by
  refine monitor_loop_iff ?_ ?_
  · intro s t s' hnext
    rcases concluded_turn s t with h | ⟨-, -, r, hleave⟩
    · exact h
    · cases hnext.symm.trans hleave
  · intro s t r _
    rcases concluded_turn s t with ⟨h, hR⟩ | ⟨h, hR, -⟩
    · exact iff_of_true h hR
    · exact iff_of_false h hR

end Runner

/-! ## A claim that is left held -/

namespace Sample

/-- `WindowAccumulator::schema`. -/
def accumulatorSchema : Schema := ⟨[
  ⟨"version", .uInt32, true⟩, ⟨"source_component", .utf8, false⟩, ⟨"window_id", .int64, false⟩,
  ⟨"key_hash", .int64, false⟩, ⟨"count", .int64, false⟩, ⟨"sum_f64", .float64, true⟩,
  ⟨"min_f64", .float64, true⟩, ⟨"max_f64", .float64, true⟩, ⟨"session_start_ts", .int64, true⟩,
  ⟨"session_end_ts", .int64, true⟩, ⟨"finalized_at_watermark", .int64, true⟩]⟩

/-- A dataset whose accumulator component holds some rows. -/
def dataWith (schema : Schema) (rows : List (List Cell)) : Dataset Unit :=
  { components := [⟨WINDOW_ACCUMULATOR, 1, schema, [⟨schema, rows⟩], none⟩]
    rowCount := rows.length
    alive := List.replicate rows.length true
    liveCount := rows.length
    deadCount := 0
    resources := () }

/-- Rows are converted as they are, and only between batches of the accumulator's schema. -/
def externals (table : List (Schema × List (List Cell))) : Externals Unit (List Cell) where
  arrow := .ofTable <| table.flatMap fun entry =>
    let data := dataWith entry.1 entry.2
    data.components.map Dataset.componentSegment ++ [data.aliveSegment]
  fromRecordBatch batch :=
    if batch.schema = accumulatorSchema then .ok batch.rows
    else .error (.generic "serde_arrow deserialization error: missing field")
  toRecordBatch rows := .ok ⟨accumulatorSchema, rows⟩
  noResources := ()

/-- A turn in which the store and the lease do what they are asked. -/
def plainTurn (n : Nat) (run : Dataset Unit → Option Bytes → RunOutcome Unit) : Turn Unit where
  cancelled := false
  sweepDue := false
  claim := .ok (some ⟨.fromU128 n, .zero⟩)
  world := dataWith accumulatorSchema []
  accumulatorLoadFault := none
  stateLoadFault := none
  shouldRenew := false
  renew := .ok 0
  run := run
  checkpointSave := .saved
  accumulatorSave := .saved
  stateSave := .saved
  ack := .ok ()

def config : RunnerConfig := ⟨.none, none, none⟩

/-- A guest whose accumulator has lost all but one of its fields. -/
def guestSchema : Schema := ⟨[⟨"window_id", .int64, false⟩]⟩

end Sample

open Sample in
/-- The first batch leaves an accumulator that cannot be decoded. Restoring it for the second claim
fails, and the loop is left with that claim neither acked nor released. -/
theorem claim_left_held :
    ¬ Concluded .none (Runner.runWithShutdown (externals [(guestSchema, [[.int 7]])])
      (fun _ resources => resources) config
      [plainTurn 1 fun _ _ => .ran (dataWith guestSchema [[.int 7]]) (.ok none),
        plainTurn 2 fun data _ => .ran data (.ok none)]).1.flatten := by
  decide

end Saci.Distributed
