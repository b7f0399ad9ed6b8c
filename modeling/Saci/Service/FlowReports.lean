import Saci.Service.FlowSearch

/-!
# What the flow controller reports

`observe` answers with what it did to the size. What it answers is so, but for one way a guard is reported:
a candidate that trips one above an incumbent at the floor is divided back onto the floor, and the report
that the size was held there names two sizes (`tellsTruth_iff`).
-/

namespace Saci
namespace FlowController

/-! ## Alarms -/

/-- The backlog of a sink has grown on as many passes in a row as make a trend. -/
def BacklogGrows (c : FlowController) (sample : FlowSample) : Prop :=
  ∃ previous pending, c.lastSinkPending = some previous ∧ sample.sinkPending = some pending ∧
    previous < pending ∧ PRESSURE_TREND_PASSES ≤ c.pendingRises + 1

/-- At the weight of the sample's rows, the next pass would be past the ceiling of bytes. -/
def BytesOver (c : FlowController) (sample : FlowSample) : Prop :=
  0 < c.settings.maxChunkBytes ∧ 0 < sample.rows ∧ 0 < sample.bytes ∧
    (c.settings.maxChunkBytes : ℚ) < sample.bytes / sample.rows * c.targetRows

/-- A sample carries an error, a sustained growth of a backlog, or a breach of the ceiling of bytes. -/
def Alarming (c : FlowController) (sample : FlowSample) : Prop :=
  sample.failed = true ∨ c.BacklogGrows sample ∨ c.BytesOver sample

variable {settings : FlowSettings} {c c' : FlowController} {sample : FlowSample} {cause : FlowCause}

theorem trackSinkPressure_snd_iff :
    (c.trackSinkPressure sample.sinkPending).2 = true ↔ c.BacklogGrows sample := by
  rw [BacklogGrows]
  rcases hpending : sample.sinkPending with _ | pending
  · exact iff_of_false Bool.false_ne_true (by rintro ⟨_, _, -, hnone, -⟩; cases hnone)
  rw [trackSinkPressure, decide_eq_true_iff]
  rcases hlast : c.lastSinkPending with _ | previous
  · refine iff_of_false (by simp [PRESSURE_TREND_PASSES]) ?_
    rintro ⟨_, _, hnone, -⟩
    cases hnone
  · rw [Option.any_some]
    split_ifs with hgrows
    · rw [decide_eq_true_iff] at hgrows
      refine ⟨fun h => ⟨previous, pending, rfl, rfl, hgrows, h⟩, ?_⟩
      rintro ⟨_, _, -, -, -, h⟩
      exact h
    · rw [decide_eq_true_iff] at hgrows
      refine iff_of_false (by decide) ?_
      rintro ⟨_, _, hprevious, hpending, hlt, -⟩
      cases hprevious
      cases hpending
      exact hgrows hlt

theorem chunkBytesOverCeiling_isSome_iff :
    (c.chunkBytesOverCeiling sample).isSome = true ↔ c.BytesOver sample := by
  rw [chunkBytesOverCeiling, BytesOver, Nat.pos_iff_ne_zero, Nat.pos_iff_ne_zero, Nat.pos_iff_ne_zero]
  dsimp only
  split_ifs with hzero hover
  · refine iff_of_false Bool.false_ne_true ?_
    rintro ⟨hmax, hrows, hbytes, -⟩
    exact hzero.elim hmax (·.elim hrows hbytes)
  · rw [not_or, not_or] at hzero
    exact iff_of_true rfl ⟨hzero.1, hzero.2.1, hzero.2.2, hover⟩
  · exact iff_of_false Bool.false_ne_true fun h => hover h.2.2.2

theorem guardOf_isSome_iff {pressure : Bool} : (c.guardOf sample pressure).isSome = true ↔
    sample.failed = true ∨ pressure = true ∨ c.BytesOver sample := by
  rw [guardOf]
  split_ifs with hfailed hgrows
  · exact iff_of_true rfl (.inl hfailed)
  · exact iff_of_true rfl (.inr (.inl hgrows))
  · rw [Option.isSome_map, chunkBytesOverCeiling_isSome_iff, or_iff_right hfailed, or_iff_right hgrows]

/-! ## What a pass answers -/

/-- The bookkeeping that every pass begins with. -/
def booked (c : FlowController) (sample : FlowSample) : FlowController :=
  { c with
    latencyNotice := none
    throughput := match sample.measured with
      | none => c.throughput
      | some rate =>
        if c.throughput = 0 then rate
        else EWMA_ALPHA * rate + (1 - EWMA_ALPHA) * c.throughput }

/-- The bookkeeping of a pass. -/
def tracked (c : FlowController) (sample : FlowSample) : FlowController :=
  ((c.booked sample).trackSinkPressure sample.sinkPending).1

theorem sameSearch_booked : SameSearch c (c.booked sample) := ⟨rfl, rfl, rfl, rfl, rfl, rfl, rfl, rfl⟩

theorem sameSearch_tracked : SameSearch c (c.tracked sample) :=
  sameSearch_booked.trans (sameSearch_trackSinkPressure sample.sinkPending)

theorem tracked_cooldown : (c.tracked sample).cooldown = c.cooldown := by
  rw [tracked]
  rcases sample.sinkPending with _ | pending
  · rfl
  · rfl

theorem tracked_targetRows : (c.tracked sample).targetRows = c.targetRows := by
  rw [targetRows, targetRows, tracked_cooldown, sameSearch_tracked.arm, sameSearch_tracked.incumbent,
    sameSearch_tracked.candidate]

/-- A guard trips on what is alarming. -/
theorem guardOf_tracked_iff :
    ((c.tracked sample).guardOf sample
        ((c.booked sample).trackSinkPressure sample.sinkPending).2).isSome = true ↔
      c.Alarming sample := by
  rw [guardOf_isSome_iff, trackSinkPressure_snd_iff, Alarming, BytesOver, BytesOver, tracked_targetRows,
    sameSearch_tracked.settings]
  rfl

/-- What a pass comes to before epochs are looked at, and when. -/
inductive JudgedAs (c : FlowController) (sample : FlowSample) : Judged → Prop
  /-- The controller does not adapt, or cools down. -/
  | idle {c' : FlowController} (h : c.isAdaptive = false ∨ 0 < c.cooldown) (same : SameSearch c c') :
      JudgedAs c sample (.ends c' .held)
  | guarded {c' : FlowController} {cause : FlowCause} (adaptive : c.isAdaptive = true)
      (cool : c.cooldown = 0) (alarm : c.Alarming sample) (same : SameSearch c c') (cool' : c'.cooldown = 0) :
      JudgedAs c sample (.ends (c'.backOff cause).1 (c'.backOff cause).2)
  | unmeasured {c' : FlowController} (calm : ¬c.Alarming sample) (cool : c.cooldown = 0) (same : SameSearch c c') :
      JudgedAs c sample (.ends c' .held)
  | measured {c' : FlowController} (calm : ¬c.Alarming sample) (cool : c.cooldown = 0) (same : SameSearch c c') :
      JudgedAs c sample (.counts (c'.count sample))

/-- A pass over its bookkeeping. -/
theorem judge_eq (c : FlowController) (sample : FlowSample) : c.judge sample =
    if ¬(c.booked sample).isAdaptive then .ends (c.booked sample) .held
    else
      let (c, pressure) := (c.booked sample).trackSinkPressure sample.sinkPending
      let guard_ := c.guardOf sample pressure
      if 0 < c.cooldown then
        .ends { c with
          cooldown := if guard_.isSome then c.settings.backoffCooldown else c.cooldown - 1 } .held
      else
        match guard_ with
        | some cause => .ends (c.backOff cause).1 (c.backOff cause).2
        | none =>
          match sample.measured with
          | none => .ends (c.trackLatencyObjective sample) .held
          | some _ => .counts ((c.trackLatencyObjective sample).count sample) := rfl

theorem judgedAs_judge (c : FlowController) (sample : FlowSample) : JudgedAs c sample (c.judge sample) := by
  rw [judge_eq]
  by_cases hadaptive : c.isAdaptive = true
  · rw [if_neg (show ¬¬(c.booked sample).isAdaptive = true from not_not.mpr hadaptive)]
    have htracked : SameSearch c (c.tracked sample) := sameSearch_tracked
    have hcooldown : (c.tracked sample).cooldown = c.cooldown := tracked_cooldown
    have halarm := @guardOf_tracked_iff c sample
    rw [tracked] at htracked hcooldown halarm
    generalize (c.booked sample).trackSinkPressure sample.sinkPending = result at htracked hcooldown halarm
    obtain ⟨tracked, pressure⟩ := result
    dsimp only at htracked hcooldown halarm ⊢
    by_cases hcool : 0 < tracked.cooldown
    · rw [if_pos hcool]
      exact .idle (.inr (hcooldown ▸ hcool)) (htracked.trans ⟨rfl, rfl, rfl, rfl, rfl, rfl, rfl, rfl⟩)
    · rw [if_neg hcool]
      have hcold := Nat.eq_zero_of_not_pos hcool
      rcases hguard : tracked.guardOf sample pressure with _ | cause
      · have hcalm : ¬c.Alarming sample := by
          rw [← halarm, hguard]
          exact Bool.false_ne_true
        have hlatency := htracked.trans (sameSearch_trackLatencyObjective sample)
        rcases sample.measured with _ | rate
        · exact .unmeasured hcalm (hcooldown ▸ hcold) hlatency
        · exact .measured hcalm (hcooldown ▸ hcold) hlatency
      · exact .guarded hadaptive (hcooldown ▸ hcold) (halarm.mp (by rw [hguard]; rfl)) htracked hcold
  · rw [if_pos (show ¬(c.booked sample).isAdaptive = true from hadaptive)]
    exact .idle (.inl (Bool.eq_false_iff.mpr hadaptive)) sameSearch_booked

/-! ## What is reported -/

/-- What a guard divides the size to, where it is above the floor. -/
def divided (c : FlowController) : Nat :=
  clampRows (max (((max c.targetRows c.incumbent : Nat) : ℚ) / c.settings.backoffFactor).floor.toNat 1) c.settings

/-- What a guard reports. -/
theorem backOff_reports (c : FlowController) (cause : FlowCause) :
    if max c.targetRows c.incumbent ≤ c.floorRows then
      (c.backOff cause).1.incumbent = c.incumbent ∧
        (c.backOff cause).2 = .heldAtFloor ⟨max c.targetRows c.incumbent, max c.targetRows c.incumbent, cause⟩
    else
      (c.backOff cause).1.incumbent = c.divided ∧
        (c.backOff cause).2 =
          if c.divided = c.incumbent ∧ c.divided ≤ c.floorRows then
            .heldAtFloor ⟨max c.targetRows c.incumbent, c.divided, cause⟩
          else .backedOff ⟨max c.targetRows c.incumbent, c.divided, cause⟩ := by
  have hheld : ({ c with settled := 0, phase := .experiment } : FlowController).floorRows = c.floorRows := rfl
  rw [FlowController.backOff]
  dsimp only
  rw [hheld]
  by_cases hfloor : max c.targetRows c.incumbent ≤ c.floorRows
  · rw [if_pos hfloor, if_pos hfloor]
    exact ⟨rfl, rfl⟩
  · rw [if_neg hfloor, if_neg hfloor]
    have hdivided : ∀ ceiling, ({ c with
        settled := 0
        phase := .experiment
        ceiling := some ceiling
        incumbent := c.divided
        direction := .down } : FlowController).proposeCandidate.incumbent = c.divided :=
      fun _ => proposeCandidate_incumbent
    have hfloorRows : ∀ ceiling, ({ c with
        settled := 0
        phase := .experiment
        ceiling := some ceiling
        incumbent := c.divided
        direction := .down } : FlowController).proposeCandidate.settings = c.settings :=
      fun _ => proposeCandidate_settings
    refine ⟨hdivided _, ?_⟩
    simp only [FlowController.startEpoch, floorRows, ← divided.eq_def, hdivided, hfloorRows]
    by_cases hback : c.divided = c.incumbent ∧ c.divided ≤ max c.settings.minRows 1
    · simp only [if_pos hback]
      exact (if_pos hback).symm
    · simp only [if_neg hback]
      exact (if_neg hback).symm

/-- What closing an experiment reports. -/
theorem closeEpoch_reports (c : FlowController) :
    (c.closeEpoch.2 = .held ∧ c.closeEpoch.1.incumbent = c.incumbent) ∨
      c.candidate ≠ c.incumbent ∧ c.closeEpoch.1.incumbent = c.candidate ∧
        ∃ cause, c.closeEpoch.2 =
          if c.incumbent < c.candidate then .grew ⟨c.incumbent, c.candidate, cause⟩
          else .shrank ⟨c.incumbent, c.candidate, cause⟩ := by
  have hlose : ∀ breaches, (c.startEpoch.loseEpoch breaches).incumbent = c.incumbent := by
    intro breaches
    rw [loseEpoch, restIfSettled]
    split_ifs <;> exact proposeCandidate_incumbent
  have hwin : c.startEpoch.winEpoch.incumbent = c.candidate := proposeCandidate_incumbent
  rw [closeEpoch]
  dsimp only
  by_cases hequal : c.startEpoch.candidate = c.startEpoch.incumbent
  · rw [if_pos hequal]
    exact .inl ⟨rfl, rfl⟩
  rw [if_neg hequal]
  by_cases hfew : c.incumbentStats.samples < c.startEpoch.settings.minSamplesPerArm ∨
      c.candidateStats.samples < c.startEpoch.settings.minSamplesPerArm
  · rw [if_pos hfew]
    exact .inl ⟨rfl, rfl⟩
  rw [if_neg hfew]
  by_cases hwins : c.startEpoch.candidateWins c.incumbentStats c.candidateStats = true
  · rw [if_neg (not_not.mpr hwins)]
    dsimp only
    rw [hwin]
    exact .inr ⟨hequal, rfl, _, rfl⟩
  · rw [if_pos hwins]
    exact .inl ⟨rfl, hlose _⟩

/-- What closing a rest epoch reports. -/
theorem closeRestEpoch_reports (c : FlowController) (remaining : Nat) :
    (c.closeRestEpoch remaining).2 = .held ∧ (c.closeRestEpoch remaining).1.incumbent = c.incumbent := by
  rw [closeRestEpoch]
  by_cases hbreached : c.startEpoch.settings.minSamplesPerArm ≤ c.incumbentStats.samples ∧
      c.startEpoch.breachesObjective c.incumbentStats = true
  · rw [if_pos (.inl hbreached), if_pos hbreached]
    exact ⟨rfl, proposeCandidate_incumbent⟩
  by_cases hend : remaining ≤ 1
  · rw [if_pos (.inr hend), if_neg hbreached]
    exact ⟨rfl, proposeCandidate_incumbent⟩
  · rw [if_neg (not_or.mpr ⟨hbreached, hend⟩), if_neg hbreached]
    exact ⟨rfl, rfl⟩

/-- A guard that divides the size leaves less of it. -/
theorem divided_lt (hbackoff : 1 < c.settings.backoffFactor) (h : c.floorRows < max c.targetRows c.incumbent) :
    c.divided < max c.targetRows c.incumbent := by
  have hreduced := floor_div_lt hbackoff ((Nat.zero_le _).trans_lt h)
  rw [floorRows] at h
  rw [divided, clampRows]
  omega

/-- The report of a pass is so. -/
structure TellsTruth (c : FlowController) (sample : FlowSample) : Prop where
  held : (c.observe sample).2 = .held → (c.observe sample).1.incumbent = c.incumbent
  grew : ∀ move, (c.observe sample).2 = .grew move →
    move.fromRows = c.incumbent ∧ move.toRows = (c.observe sample).1.incumbent ∧ move.fromRows < move.toRows
  shrank : ∀ move, (c.observe sample).2 = .shrank move →
    move.fromRows = c.incumbent ∧ move.toRows = (c.observe sample).1.incumbent ∧ move.toRows < move.fromRows
  backedOff : ∀ move, (c.observe sample).2 = .backedOff move →
    move.toRows = (c.observe sample).1.incumbent ∧ move.toRows < move.fromRows
  heldAtFloor : ∀ move, (c.observe sample).2 = .heldAtFloor move →
    c.incumbent = c.floorRows ∧ (c.observe sample).1.incumbent = c.floorRows ∧ move.toRows = move.fromRows
  /-- Outside a cooldown an alarm is not met with silence. -/
  alarmed : c.cooldown = 0 → c.Alarming sample → (c.observe sample).2 ≠ .held
  /-- Inside one nothing is divided. -/
  cooling : 0 < c.cooldown → (c.observe sample).2 = .held ∧ (c.observe sample).1.incumbent = c.incumbent

/-- A candidate above an incumbent at the floor is under test, and would be divided onto the floor. -/
def FallsToFloor (c : FlowController) : Prop :=
  c.incumbent = c.floorRows ∧ c.floorRows < c.targetRows ∧
    ((c.targetRows : ℚ) / c.settings.backoffFactor).floor.toNat ≤ c.floorRows

instance : Decidable c.FallsToFloor := inferInstanceAs (Decidable (_ ∧ _ ∧ _))

/-- An answer of silence that leaves the size alone is so where no alarm is raised. -/
theorem tellsTruth_of_held (h : (c.observe sample).2 = .held)
    (hincumbent : (c.observe sample).1.incumbent = c.incumbent) (hcalm : c.cooldown = 0 → ¬c.Alarming sample) :
    TellsTruth c sample := by
  have hother : ∀ adjustment, adjustment ≠ .held → (c.observe sample).2 ≠ adjustment := by
    rintro _ hne rfl
    exact hne h
  refine ⟨fun _ => hincumbent, fun move hmove => ?_, fun move hmove => ?_, fun move hmove => ?_,
    fun move hmove => ?_, fun hcool halarm => absurd halarm (hcalm hcool), fun _ => ⟨h, hincumbent⟩⟩
  all_goals exact absurd hmove (hother _ nofun)

theorem fallsToFloor_iff (hs : settings.Sound) (h : Framed settings c) :
    (c.divided = c.incumbent ∧ c.divided ≤ c.floorRows ∧ c.floorRows < max c.targetRows c.incumbent) ↔
      c.FallsToFloor := by
  have hone := hs.one_le_min
  have hrange := h.incumbent
  have htop : c.targetRows ≤ settings.maxRows := by
    rw [targetRows]
    split_ifs
    · exact hrange.2
    · rcases c.arm with _ | _
      · exact hrange.2
      · exact h.candidate.2
  rw [InRange] at hrange
  rw [FallsToFloor, divided, floorRows, h.settings_eq, hs.clampRows_eq, max_eq_left hone]
  constructor
  · rintro ⟨heq, hle, hlt⟩
    have hfloor : c.incumbent = settings.minRows := by omega
    have htarget : max c.targetRows c.incumbent = c.targetRows := by omega
    rw [htarget] at heq hle
    exact ⟨hfloor, by omega, by omega⟩
  · rintro ⟨hfloor, hlt, hreduced⟩
    have htarget : max c.targetRows c.incumbent = c.targetRows := by omega
    rw [htarget]
    omega

/-- What a guard reports is so unless the candidate falls back to the floor. -/
theorem tellsTruth_of_backOff (hs : settings.Sound) (h : Framed settings c) (same : SameSearch c c')
    (hcool : c.cooldown = 0) (hcool' : c'.cooldown = 0) {cause : FlowCause}
    (hjudge : c.judge sample = .ends (c'.backOff cause).1 (c'.backOff cause).2) :
    TellsTruth c sample ↔ ¬c.FallsToFloor := by
  have hobserve : c.observe sample = c'.backOff cause := by rw [observe, hjudge]
  have htarget : c'.targetRows = c.targetRows := by
    rw [targetRows, targetRows, hcool, hcool', same.arm, same.incumbent, same.candidate]
  have hfloorRows : c'.floorRows = c.floorRows := by rw [floorRows, floorRows, same.settings]
  have hreports := backOff_reports c' cause
  rw [← hobserve, htarget, hfloorRows, same.incumbent] at hreports
  have hdivided : c'.divided = c.divided := by rw [divided, divided, htarget, same.incumbent, same.settings]
  rw [hdivided] at hreports
  rw [← fallsToFloor_iff hs h]
  have hfloor : c.floorRows = settings.minRows := by
    rw [floorRows, h.settings_eq]
    exact max_eq_left hs.one_le_min
  split_ifs at hreports with hlow hback
  · obtain ⟨hincumbent, hanswer⟩ := hreports
    have hmin := h.incumbent.1
    have hbottom : c.incumbent = c.floorRows := by omega
    refine iff_of_true ?_ (by omega)
    constructor
    all_goals rw [hanswer]
    · rintro ⟨⟩
    · rintro _ ⟨⟩
    · rintro _ ⟨⟩
    · rintro _ ⟨⟩
    · rintro _ ⟨⟩
      exact ⟨hbottom, hincumbent.trans hbottom, rfl⟩
    · rintro _ _ ⟨⟩
    · exact fun hpos => absurd hcool hpos.ne'
  · obtain ⟨hincumbent, hanswer⟩ := hreports
    refine iff_of_false (fun htells => ?_) (by omega)
    have hsame := (htells.heldAtFloor _ hanswer).2.2
    dsimp only at hsame
    omega
  · obtain ⟨hincumbent, hanswer⟩ := hreports
    have hlt := divided_lt (h.settings_eq ▸ hs.backoff) (not_le.mp hlow)
    refine iff_of_true ?_ (by omega)
    constructor
    all_goals rw [hanswer]
    · rintro ⟨⟩
    · rintro _ ⟨⟩
    · rintro _ ⟨⟩
    · rintro _ ⟨⟩
      exact ⟨hincumbent.symm, hlt⟩
    · rintro _ ⟨⟩
    · rintro _ _ ⟨⟩
    · exact fun hpos => absurd hcool hpos.ne'

/-- What a measured pass reports is so. -/
theorem tellsTruth_of_counts (same : SameSearch c c') (hcalm : ¬c.Alarming sample)
    (hcool : c.cooldown = 0) (hjudge : c.judge sample = .counts (c'.count sample)) : TellsTruth c sample := by
  have hcount := counted_count c' sample
  have hincumbent : (c'.count sample).incumbent = c.incumbent := hcount.incumbent.trans same.incumbent
  by_cases hover : (c'.count sample).epochOver sample = true
  · rcases hphase : (c'.count sample).phase with _ | remaining
    · have hobserve : c.observe sample = (c'.count sample).closeEpoch := by
        rw [observe, hjudge]
        dsimp only
        rw [if_neg (not_not.mpr hover), hphase]
      rcases closeEpoch_reports (c'.count sample) with ⟨hanswer, hsame⟩ | ⟨hne, hmoved, cause, hanswer⟩
      · rw [← hobserve] at hanswer hsame
        exact tellsTruth_of_held hanswer (hsame.trans hincumbent) fun _ => hcalm
      · rw [← hobserve] at hanswer hmoved
        rw [hincumbent] at hanswer hne
        split_ifs at hanswer with hgrew
        all_goals
          constructor
          all_goals rw [hanswer]
        · rintro ⟨⟩
        · rintro _ ⟨⟩
          exact ⟨rfl, hmoved.symm, hgrew⟩
        · rintro _ ⟨⟩
        · rintro _ ⟨⟩
        · rintro _ ⟨⟩
        · rintro _ _ ⟨⟩
        · exact fun hpos => absurd hcool hpos.ne'
        · rintro ⟨⟩
        · rintro _ ⟨⟩
        · rintro _ ⟨⟩
          exact ⟨rfl, hmoved.symm, lt_of_le_of_ne (not_lt.mp hgrew) hne⟩
        · rintro _ ⟨⟩
        · rintro _ ⟨⟩
        · rintro _ _ ⟨⟩
        · exact fun hpos => absurd hcool hpos.ne'
    · have hobserve : c.observe sample = (c'.count sample).closeRestEpoch remaining := by
        rw [observe, hjudge]
        dsimp only
        rw [if_neg (not_not.mpr hover), hphase]
      obtain ⟨hanswer, hsame⟩ := closeRestEpoch_reports (c'.count sample) remaining
      rw [← hobserve] at hanswer hsame
      exact tellsTruth_of_held hanswer (hsame.trans hincumbent) fun _ => hcalm
  · have hobserve : c.observe sample = (c'.count sample, .held) := by
      rw [observe, hjudge]
      dsimp only
      rw [if_pos hover]
    refine tellsTruth_of_held (by rw [hobserve]) ?_ fun _ => hcalm
    rw [hobserve]
    exact hincumbent

/-- A framed controller reports truly unless it falls to the floor, and one that does not adapt unless an
alarm is raised. -/
theorem tellsTruth_iff_of_framed (hs : settings.Sound) (h : c.isAdaptive = true → Framed settings c) :
    TellsTruth c sample ↔ (c.cooldown = 0 → c.Alarming sample → c.isAdaptive = true ∧ ¬c.FallsToFloor) := by
  have hheld : ∀ c', c.judge sample = .ends c' .held → SameSearch c c' →
      (c.observe sample).2 = .held ∧ (c.observe sample).1.incumbent = c.incumbent := by
    intro c' hjudge same
    rw [observe, hjudge]
    exact ⟨rfl, same.incumbent⟩
  generalize hjudge : c.judge sample = judged
  have hjudged := judgedAs_judge c sample
  rw [hjudge] at hjudged
  cases hjudged with
  | idle hidle same =>
    obtain ⟨hanswer, hincumbent⟩ := hheld _ hjudge same
    constructor
    · exact fun htells hcool halarm => absurd hanswer (htells.alarmed hcool halarm)
    · intro hcalm
      refine tellsTruth_of_held hanswer hincumbent fun hcool halarm => ?_
      rcases hidle with hidle | hpos
      · rw [(hcalm hcool halarm).1] at hidle
        cases hidle
      · exact hpos.ne' hcool
  | guarded adaptive cool alarm same cool' =>
    rw [tellsTruth_of_backOff hs (h adaptive) same cool cool' hjudge]
    exact ⟨fun hnot _ _ => ⟨adaptive, hnot⟩, fun hnot => (hnot cool alarm).2⟩
  | unmeasured calm cool same =>
    obtain ⟨hanswer, hincumbent⟩ := hheld _ hjudge same
    exact iff_of_true (tellsTruth_of_held hanswer hincumbent fun _ => calm) fun _ halarm => absurd halarm calm
  | measured calm cool same =>
    exact iff_of_true (tellsTruth_of_counts same calm cool hjudge) fun _ halarm => absurd halarm calm

/-! ## Settings stay -/

theorem restIfSettled_settings : c.restIfSettled.settings = c.settings := by
  rw [restIfSettled]
  split_ifs <;> rfl

theorem closeEpoch_settings : c.closeEpoch.1.settings = c.settings := by
  rcases closeEpoch_cases (c := c) with heq | ⟨-, ⟨breaches, heq⟩ | heq⟩ <;> rw [heq]
  · rfl
  · rw [loseEpoch]
    exact restIfSettled_settings.trans proposeCandidate_settings
  · exact proposeCandidate_settings

theorem closeRestEpoch_settings (remaining : Nat) : (c.closeRestEpoch remaining).1.settings = c.settings := by
  rw [closeRestEpoch]
  by_cases hbreached : c.startEpoch.settings.minSamplesPerArm ≤ c.incumbentStats.samples ∧
      c.startEpoch.breachesObjective c.incumbentStats = true
  · rw [if_pos (.inl hbreached), if_pos hbreached]
    exact proposeCandidate_settings
  by_cases hend : remaining ≤ 1
  · rw [if_pos (.inr hend), if_neg hbreached]
    exact proposeCandidate_settings
  · rw [if_neg (not_or.mpr ⟨hbreached, hend⟩), if_neg hbreached]
    rfl

theorem backOff_settings (cause : FlowCause) : (c.backOff cause).1.settings = c.settings := by
  rw [backOff]
  dsimp only
  split_ifs
  · rfl
  · exact proposeCandidate_settings
  · exact proposeCandidate_settings

theorem observe_settings (c : FlowController) (sample : FlowSample) :
    (c.observe sample).1.settings = c.settings := by
  rcases judge_cases c sample with ⟨c', adjustment, hjudge, hsame⟩ | ⟨c', cause, hsame, -, hjudge⟩ |
    ⟨c', hsame, hjudge⟩
  · rw [observe_of_ends hjudge]
    exact hsame.settings
  · rw [observe_of_ends hjudge, backOff_settings]
    exact hsame.settings
  · have hcount := (counted_count c' sample).settings.trans hsame.settings
    rcases observe_of_counts hjudge with ⟨-, heq⟩ | ⟨-, ⟨-, heq⟩ | ⟨r, -, heq⟩⟩ <;> rw [heq]
    · exact hcount
    · exact closeEpoch_settings.trans hcount
    · exact (closeRestEpoch_settings r).trans hcount

end FlowController

open FlowController

/-! ## Any run -/

variable {settings : FlowSettings}

theorem runFlow_settings (samples : List FlowSample) : (runFlow settings samples).1.settings = settings := by
  induction samples using List.reverseRecOn with
  | nil => exact proposeCandidate_settings
  | append_singleton samples sample ih =>
    rw [runFlow_concat]
    exact (observe_settings _ sample).trans ih

/-- Over any run, a controller that adapts is framed. -/
theorem framed_of_adaptive (hs : settings.Sound) (samples : List FlowSample)
    (h : (runFlow settings samples).1.isAdaptive = true) : Framed settings (runFlow settings samples).1 := by
  rw [isAdaptive, runFlow_settings, Bool.and_eq_true, Option.isNone_iff_eq_none] at h
  refine framed_runFlow hs ?_ samples
  rw [startSize, h.2]
  exact hs.clampRows_inRange _

/-- **The truth of a report.** Over any run of a controller, the report of any further pass is so exactly
unless an alarm outside a cooldown meets a controller that does not adapt, or a candidate that would be
divided onto the floor where the incumbent is. -/
theorem tellsTruth_iff (hs : settings.Sound) (samples : List FlowSample) (sample : FlowSample) :
    TellsTruth (runFlow settings samples).1 sample ↔
      ((runFlow settings samples).1.cooldown = 0 → (runFlow settings samples).1.Alarming sample →
        (runFlow settings samples).1.isAdaptive = true ∧ ¬(runFlow settings samples).1.FallsToFloor) :=
  tellsTruth_iff_of_framed hs (framed_of_adaptive hs samples)

namespace FlowRuns

/-- A search that starts at the floor. -/
def fromFloor : FlowSettings := { FlowSettings.default with startRows := 1024 }

theorem sound_fromFloor : fromFloor.Sound := by
  constructor <;> norm_num [fromFloor, FlowSettings.default]

/-- A pass of the incumbent, then one of the candidate that fails. -/
def failing : FlowSample := { pass with failed := true }

/-- The candidate of 2048 rows fails, and the size is reported held from 2048 to 1024. -/
theorem candidate_untrue : ¬TellsTruth (runFlow fromFloor [pass]).1 failing := by
  have hfalls : (runFlow fromFloor [pass]).1.FallsToFloor := by decide +kernel
  intro h
  have hframed := framed_of_adaptive sound_fromFloor [pass]
  exact ((tellsTruth_iff_of_framed sound_fromFloor hframed).mp h (by decide +kernel) (.inl rfl)).2 hfalls

/-- An incumbent of the default size that fails is divided, and the report says so. -/
theorem incumbent_told : TellsTruth (runFlow .default []).1 failing :=
  (tellsTruth_iff FlowSettings.sound_default [] failing).mpr fun _ _ => by decide +kernel

end FlowRuns
end Saci
