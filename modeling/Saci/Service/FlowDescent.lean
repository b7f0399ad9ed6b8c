import Saci.Service.FlowReports

/-!
# The descent to a latency objective

While the size in effect misses the objective, a smaller candidate wins whatever its rate and a larger one
turns the search downwards. An incumbent under such pressure never grows, and of two experiments that are
decided the second leaves less of it than it had before the first, unless it is at the floor
(`latency_descent`). The objective is given up, and taken up again, at the floor alone.
-/

namespace Saci
namespace FlowController

/-! ## Epochs that are decided -/

/-- The controller as it stands when a pass has brought an epoch to its end. -/
def closing (c : FlowController) (sample : FlowSample) : Option FlowController :=
  match c.judge sample with
  | .ends _ _ => none
  | .counts c' => if c'.epochOver sample then some c' else none

/-- The arms that the epoch schedules have enough samples each. -/
def EnoughSamples (c : FlowController) : Prop :=
  c.settings.minSamplesPerArm ≤ c.incumbentStats.samples ∧
    (c.phase = .experiment → c.candidate ≠ c.incumbent →
      c.settings.minSamplesPerArm ≤ c.candidateStats.samples)

instance (c : FlowController) : Decidable c.EnoughSamples := inferInstanceAs (Decidable (_ ∧ (_ → _ → _)))

/-- An experiment with two arms that has enough samples of both. -/
def Conclusive (c : FlowController) : Prop :=
  c.phase = .experiment ∧ c.candidate ≠ c.incumbent ∧ c.EnoughSamples

instance (c : FlowController) : Decidable c.Conclusive := inferInstanceAs (Decidable (_ ∧ _ ∧ _))

/-- A pass that decides an experiment. -/
def Decides (c : FlowController) (sample : FlowSample) : Prop :=
  ∃ c' ∈ c.closing sample, c'.Conclusive

/-- A guard trips on a pass. -/
def GuardTrips (c : FlowController) (sample : FlowSample) : Prop := c.isAdaptive = true ∧ c.Alarming sample

instance (c : FlowController) (sample : FlowSample) : Decidable (c.GuardTrips sample) :=
  have : Decidable (c.Alarming sample) := decidable_of_iff _ guardOf_tracked_iff
  inferInstanceAs (Decidable (_ ∧ _))

/-- An epoch that a pass closes with enough samples finds the mean pass of the incumbent above an objective
that has not been given up. -/
def Misses (c : FlowController) (sample : FlowSample) : Prop :=
  ∀ c' ∈ c.closing sample, c'.EnoughSamples → c'.breachesObjective c'.incumbentStats = true

instance (c : FlowController) (sample : FlowSample) : Decidable (c.Decides sample) :=
  inferInstanceAs (Decidable (∃ c' ∈ c.closing sample, c'.Conclusive))

instance (c : FlowController) (sample : FlowSample) : Decidable (c.Misses sample) :=
  inferInstanceAs (Decidable (∀ c' ∈ c.closing sample, c'.EnoughSamples → _))

variable {settings : FlowSettings} {c c' : FlowController} {sample : FlowSample}

/-! ## The smaller candidate -/

theorem roundRows_div_lt {n : Nat} {q : ℚ} (hq : 2 ≤ q) (hn : 1 < n) : roundRows (n / q) < n := by
  obtain ⟨m, rfl⟩ := Nat.exists_eq_succ_of_ne_zero (Nat.ne_zero_of_lt hn)
  have hm : (1 : ℚ) ≤ m := by exact_mod_cast Nat.le_of_lt_succ hn
  have hhalf : ((m + 1 : Nat) : ℚ) / q ≤ (m + 1 : Nat) / 2 :=
    div_le_div_of_nonneg_left (Nat.cast_nonneg _) two_pos hq
  rw [Nat.lt_succ_iff, ← not_lt, lt_roundRows_iff, not_le]
  push_cast at hhalf ⊢
  linarith

theorem floorRows_le_clampRows (n : Nat) : c.floorRows ≤ clampRows n c.settings := by
  rw [floorRows, clampRows]
  exact le_max_left _ _

/-- Above the floor, the step down leads down. -/
theorem stepFromIncumbent_lt (hgrowth : 2 ≤ c.settings.growthFactor) (hdown : c.direction = .down)
    (hfloor : c.floorRows < c.incumbent) : c.stepFromIncumbent < c.incumbent := by
  rw [floorRows] at hfloor
  have hstepped : c.stepped < c.incumbent := by
    rw [stepped, hdown]
    rcases c.ceiling with _ | wall
    · exact roundRows_div_lt hgrowth (by omega)
    · exact Nat.sub_lt (by omega) (lt_max_of_lt_right one_pos)
  rw [stepFromIncumbent, clampRows]
  omega

theorem proposeCandidate_lt (hgrowth : 2 ≤ c.settings.growthFactor) (hdown : c.direction = .down)
    (hfloor : c.floorRows < c.incumbent) : c.proposeCandidate.candidate < c.incumbent := by
  have hlt := stepFromIncumbent_lt hgrowth hdown hfloor
  rw [proposeCandidate_candidate, if_neg hlt.ne]
  exact hlt

/-! ## One pass under pressure -/

/-- What a pass under pressure leaves of the two sizes. -/
inductive Pressed (c : FlowController) (sample : FlowSample) (c' : FlowController) : Prop
  /-- Nothing was decided. -/
  | kept (undecided : ¬c.Decides sample) (incumbent : c'.incumbent = c.incumbent)
      (candidate : c'.candidate = c.candidate)
  /-- A smaller candidate won. -/
  | shrunk (smaller : c.candidate < c.incumbent) (incumbent : c'.incumbent = c.candidate)
  /-- A larger one lost, and the next is smaller. -/
  | turned (larger : c.incumbent < c.candidate) (incumbent : c'.incumbent = c.incumbent)
      (candidate : 2 ≤ c.settings.growthFactor → c.floorRows < c.incumbent → c'.candidate < c.incumbent)

theorem Pressed.incumbent_le (h : Pressed c sample c') : c'.incumbent ≤ c.incumbent := by
  cases h with
  | kept _ incumbent _ => exact incumbent.le
  | shrunk smaller incumbent => exact (incumbent.trans_lt smaller).le
  | turned _ incumbent _ => exact incumbent.le

/-- Closing an experiment under pressure. -/
theorem pressed_closeEpoch (hphase : c.phase = .experiment)
    (hmisses : c.EnoughSamples → c.breachesObjective c.incumbentStats = true) :
    c.closeEpoch.1.phase = .experiment ∧
      ((¬c.Conclusive ∧ c.closeEpoch.1.incumbent = c.incumbent ∧ c.closeEpoch.1.candidate = c.candidate) ∨
        (c.candidate < c.incumbent ∧ c.closeEpoch.1.incumbent = c.candidate) ∨
        c.incumbent < c.candidate ∧ c.closeEpoch.1.incumbent = c.incumbent ∧
          (2 ≤ c.settings.growthFactor → c.floorRows < c.incumbent →
            c.closeEpoch.1.candidate < c.incumbent)) := by
  rw [closeEpoch]
  dsimp only
  by_cases hequal : c.startEpoch.candidate = c.startEpoch.incumbent
  · rw [if_pos hequal]
    exact ⟨hphase, .inl ⟨fun hconclusive => hconclusive.2.1 hequal, rfl, rfl⟩⟩
  rw [if_neg hequal]
  by_cases hfew : c.incumbentStats.samples < c.startEpoch.settings.minSamplesPerArm ∨
      c.candidateStats.samples < c.startEpoch.settings.minSamplesPerArm
  · rw [if_pos hfew]
    refine ⟨hphase, .inl ⟨?_, rfl, rfl⟩⟩
    rintro ⟨_, _, hincumbent, hcandidate⟩
    exact hfew.elim hincumbent.not_gt (hcandidate hphase hequal).not_gt
  rw [if_neg hfew]
  rw [not_or, not_lt, not_lt] at hfew
  have hbreaches : c.startEpoch.breachesObjective c.incumbentStats = true := hmisses ⟨hfew.1, fun _ _ => hfew.2⟩
  have hwins : c.startEpoch.candidateWins c.incumbentStats c.candidateStats = true ↔
      c.candidate < c.incumbent := by
    rw [candidateWins, if_pos hbreaches, decide_eq_true_iff]
    rfl
  by_cases hsmaller : c.candidate < c.incumbent
  · rw [if_neg (not_not.mpr (hwins.mpr hsmaller))]
    exact ⟨winEpoch_phase.trans hphase, .inr (.inl ⟨hsmaller, proposeCandidate_incumbent⟩)⟩
  · have hlarger : c.incumbent < c.candidate := lt_of_le_of_ne (not_lt.mp hsmaller) (Ne.symm hequal)
    rw [if_pos (mt hwins.mp hsmaller), hbreaches]
    -- the streak is broken, so the search does not rest
    have hlose : c.startEpoch.loseEpoch true =
        ({ c.startEpoch with direction := .down, settled := 0 } : FlowController).proposeCandidate := by
      rw [loseEpoch, if_pos ⟨rfl, hlarger⟩, if_pos rfl, restIfSettled, if_pos]
      rw [proposeCandidate_settled]
      exact Nat.eq_zero_or_pos _
    dsimp only
    rw [hlose]
    refine ⟨proposeCandidate_phase.trans hphase, .inr (.inr ⟨hlarger, proposeCandidate_incumbent, ?_⟩)⟩
    exact fun hgrowth hfloor => proposeCandidate_lt hgrowth rfl hfloor

/-- A pass of an experiment under pressure is followed by an experiment. -/
theorem pressed_observe (hphase : c.phase = .experiment) (hcalm : ¬c.GuardTrips sample)
    (hmisses : c.Misses sample) :
    (c.observe sample).1.phase = .experiment ∧ Pressed c sample (c.observe sample).1 := by
  have hended : ∀ {c' adjustment}, c.judge sample = .ends c' adjustment → SameSearch c c' →
      (c.observe sample).1.phase = .experiment ∧ Pressed c sample (c.observe sample).1 := by
    intro c' adjustment hjudge same
    have hundecided : ¬c.Decides sample := by
      rintro ⟨closed, hclosing, -⟩
      rw [closing, hjudge] at hclosing
      cases hclosing
    rw [observe_of_ends hjudge]
    exact ⟨same.phase.trans hphase, .kept hundecided same.incumbent same.candidate⟩
  generalize hjudge : c.judge sample = judged
  have hjudged := judgedAs_judge c sample
  rw [hjudge] at hjudged
  cases hjudged with
  | idle hidle same => exact hended hjudge same
  | guarded adaptive cool alarm same cool' => exact absurd ⟨adaptive, alarm⟩ hcalm
  | unmeasured calm cool same => exact hended hjudge same
  | @measured counted calm cool same =>
    have hcount := counted_count counted sample
    have hincumbent := hcount.incumbent.trans same.incumbent
    have hcandidate := hcount.candidate.trans same.candidate
    have hexperiment := hcount.phase.trans (same.phase.trans hphase)
    have hsettings := hcount.settings.trans same.settings
    rcases observe_of_counts hjudge with ⟨hopen, heq⟩ | ⟨hover, ⟨-, heq⟩ | ⟨remaining, hrest, -⟩⟩
    · have hundecided : ¬c.Decides sample := by
        rintro ⟨closed, hclosing, -⟩
        rw [closing, hjudge] at hclosing
        dsimp only at hclosing
        rw [hopen] at hclosing
        cases hclosing
      rw [heq]
      exact ⟨hexperiment, .kept hundecided hincumbent hcandidate⟩
    · have hclosing : c.closing sample = some (counted.count sample) := by
        rw [closing, hjudge]
        exact if_pos hover
      obtain ⟨hnext, hpressed⟩ := pressed_closeEpoch hexperiment (hmisses _ hclosing)
      rw [← heq, hincumbent, hcandidate, hsettings, floorRows, hsettings] at hpressed
      rw [← heq] at hnext
      refine ⟨hnext, ?_⟩
      rcases hpressed with ⟨hnot, hsame, hsame'⟩ | ⟨hsmaller, hwon⟩ | ⟨hlarger, hsame, hturned⟩
      · refine .kept ?_ hsame hsame'
        rintro ⟨closed, hclosed, hconclusive⟩
        cases hclosing.symm.trans hclosed
        exact hnot hconclusive
      · exact .shrunk hsmaller hwon
      · exact .turned hlarger hsame hturned
    · cases hexperiment.symm.trans hrest

/-- An incumbent that was above the floor at `n` is below it, or its candidate is. -/
def Halfway (n : Nat) (c : FlowController) : Prop := c.incumbent < n ∨ c.incumbent = n ∧ c.candidate < n

theorem Pressed.halfway (h : Pressed c sample c') {n : Nat} (hhalf : Halfway n c) : Halfway n c' := by
  cases h with
  | kept _ incumbent candidate =>
    rw [Halfway, incumbent, candidate]
    exact hhalf
  | shrunk smaller incumbent =>
    refine .inl ?_
    rcases hhalf with hlt | ⟨rfl, hlt⟩
    · exact incumbent.trans_lt (smaller.trans hlt)
    · exact incumbent.trans_lt hlt
  | turned larger incumbent _ =>
    rcases hhalf with hlt | ⟨rfl, hlt⟩
    · exact .inl (incumbent.trans_lt hlt)
    · exact absurd hlt larger.not_gt

/-- The first decision above the floor leaves a smaller size, in force or next to be tried. -/
theorem Pressed.halfway_of_decides (h : Pressed c sample c') (hdecides : c.Decides sample)
    (hgrowth : 2 ≤ c.settings.growthFactor) (hfloor : c.floorRows < c.incumbent) : Halfway c.incumbent c' := by
  cases h with
  | kept undecided _ _ => exact absurd hdecides undecided
  | shrunk smaller incumbent => exact .inl (incumbent.trans_lt smaller)
  | turned _ incumbent candidate => exact .inr ⟨incumbent, candidate hgrowth hfloor⟩

/-- The second decision puts it in force. -/
theorem Pressed.lt_of_halfway (h : Pressed c sample c') (hdecides : c.Decides sample) {n : Nat}
    (hhalf : Halfway n c) : c'.incumbent < n := by
  rcases hhalf with hlt | ⟨rfl, hlt⟩
  · exact h.incumbent_le.trans_lt hlt
  · cases h with
    | kept undecided _ _ => exact absurd hdecides undecided
    | shrunk smaller incumbent => exact incumbent.trans_lt smaller
    | turned larger _ _ => exact absurd hlt larger.not_gt

/-! ## The latch -/

/-- No size is below the floor. -/
def AboveFloor (c : FlowController) : Prop := c.floorRows ≤ c.incumbent ∧ c.floorRows ≤ c.candidate

theorem AboveFloor.of_same (h : c.AboveFloor) (same : SameSearch c c') : c'.AboveFloor := by
  rw [AboveFloor, floorRows, same.settings, same.incumbent, same.candidate]
  exact h

/-- The latch stands as it did, and sizes stay above the floor. -/
structure Stays (c c' : FlowController) : Prop where
  settings : c'.settings = c.settings
  latch : c'.latencyAbandoned = c.latencyAbandoned
  above : c.AboveFloor → c'.AboveFloor

theorem Stays.trans {c'' : FlowController} (h : Stays c c') (h' : Stays c' c'') : Stays c c'' :=
  ⟨h'.settings.trans h.settings, h'.latch.trans h.latch, fun habove => h'.above (h.above habove)⟩

theorem stays_proposeCandidate : Stays c c.proposeCandidate := by
  refine ⟨proposeCandidate_settings, ?_, fun habove => ?_⟩
  · rw [proposeCandidate]
    dsimp only
    split_ifs <;> rfl
  · rw [AboveFloor, floorRows, proposeCandidate_settings, proposeCandidate_incumbent, proposeCandidate_candidate]
    refine ⟨habove.1, ?_⟩
    split_ifs
    · exact floorRows_le_clampRows _
    · exact floorRows_le_clampRows _

theorem stays_restIfSettled : Stays c c.restIfSettled := by
  rw [restIfSettled]
  split_ifs <;> exact ⟨rfl, rfl, id⟩

theorem stays_loseEpoch (breaches : Bool) : Stays c (c.loseEpoch breaches) := by
  rw [loseEpoch]
  refine Stays.trans (Stays.trans ?_ stays_proposeCandidate) stays_restIfSettled
  exact ⟨rfl, rfl, id⟩

theorem stays_winEpoch : Stays c c.winEpoch := by
  rw [winEpoch]
  refine Stays.trans ?_ stays_proposeCandidate
  exact ⟨rfl, rfl, fun habove => ⟨habove.2, habove.2⟩⟩

theorem stays_closeEpoch : Stays c c.closeEpoch.1 := by
  have hstart : Stays c c.startEpoch := ⟨rfl, rfl, id⟩
  rcases closeEpoch_cases (c := c) with heq | ⟨-, ⟨breaches, heq⟩ | heq⟩ <;> rw [heq]
  · exact hstart
  · exact hstart.trans (stays_loseEpoch breaches)
  · exact hstart.trans stays_winEpoch

theorem stays_closeRestEpoch (remaining : Nat) : Stays c (c.closeRestEpoch remaining).1 := by
  have hstart (settled : Nat) (direction : Direction) (phase : Phase) :
      Stays c { c.startEpoch with settled, direction, phase } := ⟨rfl, rfl, id⟩
  rw [closeRestEpoch]
  by_cases hbreached : c.startEpoch.settings.minSamplesPerArm ≤ c.incumbentStats.samples ∧
      c.startEpoch.breachesObjective c.incumbentStats = true
  · rw [if_pos (.inl hbreached), if_pos hbreached]
    exact (hstart 0 .down .experiment).trans stays_proposeCandidate
  by_cases hend : remaining ≤ 1
  · rw [if_pos (.inr hend), if_neg hbreached]
    exact (hstart c.settled c.direction .experiment).trans stays_proposeCandidate
  · rw [if_neg (not_or.mpr ⟨hbreached, hend⟩), if_neg hbreached]
    exact ⟨rfl, rfl, id⟩

theorem stays_backOff (cause : FlowCause) : Stays c (c.backOff cause).1 := by
  obtain ⟨lowered, -, hbackOff⟩ := fst_backOff c cause
  rw [hbackOff, ← divided.eq_def]
  have hstays : Stays c ({ c with
      settled := 0
      phase := .experiment
      ceiling := some lowered
      incumbent := c.divided
      direction := .down } : FlowController).proposeCandidate := by
    refine Stays.trans ?_ stays_proposeCandidate
    exact ⟨rfl, rfl, fun habove => ⟨floorRows_le_clampRows _, habove.2⟩⟩
  split_ifs
  · exact ⟨rfl, rfl, id⟩
  · exact ⟨hstays.settings, hstays.latch, hstays.above⟩

theorem stays_count : Stays c (c.count sample) := by
  have hcount := counted_count c sample
  refine ⟨hcount.settings, ?_, fun habove => ?_⟩
  · rw [count]
    rcases c.arm <;> dsimp only <;> split_ifs <;> rfl
  · rw [AboveFloor, floorRows, hcount.settings, hcount.incumbent, hcount.candidate]
    exact habove

theorem stays_tracked : Stays c (c.tracked sample) := by
  rw [tracked]
  rcases sample.sinkPending with _ | pending
  · exact ⟨rfl, rfl, id⟩
  · exact ⟨rfl, rfl, id⟩

/-- The latch stands as it did or the pass was admitted at the floor, and sizes stay above it. -/
structure Latched (c c' : FlowController) : Prop where
  settings : c'.settings = c.settings
  latch : c'.latencyAbandoned = c.latencyAbandoned ∨ c.isAdaptive = true ∧ c.targetRows ≤ c.floorRows
  above : c.AboveFloor → c'.AboveFloor

theorem Stays.latched (h : Stays c c') : Latched c c' := ⟨h.settings, .inl h.latch, h.above⟩

theorem Latched.trans {c'' : FlowController} (h : Latched c c') (h' : Stays c' c'') : Latched c c'' :=
  ⟨h'.settings.trans h.settings, h.latch.imp_left h'.latch.trans, fun habove => h'.above (h.above habove)⟩

/-- Only the objective's own bookkeeping touches the latch, and only at the floor. -/
theorem latched_trackLatencyObjective (hadaptive : c.isAdaptive = true) :
    Latched c ((c.tracked sample).trackLatencyObjective sample) := by
  have htracked := @stays_tracked c sample
  have same := @sameSearch_trackLatencyObjective (c.tracked sample) sample
  refine ⟨same.settings.trans htracked.settings, ?_, fun habove => (htracked.above habove).of_same same⟩
  rw [trackLatencyObjective]
  dsimp only
  split_ifs with hquiet
  · exact .inl htracked.latch
  · rw [not_or, not_or, not_lt, tracked_targetRows, floorRows, htracked.settings] at hquiet
    exact .inr ⟨hadaptive, hquiet.2.2⟩
  · exact .inl htracked.latch

theorem latched_judge (c : FlowController) (sample : FlowSample) :
    match c.judge sample with
    | .ends c' _ => Latched c c'
    | .counts c' => Latched c c' := by
  rw [judge_eq]
  by_cases hadaptive : c.isAdaptive = true
  · rw [if_neg (show ¬¬(c.booked sample).isAdaptive = true from not_not.mpr hadaptive)]
    have hstays := @stays_tracked c sample
    have hlatency := @latched_trackLatencyObjective c sample hadaptive
    rw [tracked] at hstays hlatency
    generalize (c.booked sample).trackSinkPressure sample.sinkPending = result at hstays hlatency
    obtain ⟨tracked, pressure⟩ := result
    dsimp only at hstays hlatency ⊢
    by_cases hcool : 0 < tracked.cooldown
    · rw [if_pos hcool]
      exact Stays.latched (hstays.trans ⟨rfl, rfl, id⟩)
    · rw [if_neg hcool]
      rcases tracked.guardOf sample pressure with _ | cause
      · rcases sample.measured with _ | rate
        · exact hlatency
        · exact hlatency.trans stays_count
      · exact (hstays.trans (stays_backOff cause)).latched
  · rw [if_pos (show ¬(c.booked sample).isAdaptive = true from hadaptive)]
    exact Stays.latched ⟨rfl, rfl, id⟩

theorem latched_observe (c : FlowController) (sample : FlowSample) : Latched c (c.observe sample).1 := by
  have hlatched := latched_judge c sample
  generalize hjudge : c.judge sample = judged at hlatched
  cases judged with
  | ends c' adjustment =>
    rw [observe_of_ends hjudge]
    exact hlatched
  | counts c' =>
    rcases observe_of_counts hjudge with ⟨-, heq⟩ | ⟨-, ⟨-, heq⟩ | ⟨remaining, -, heq⟩⟩ <;> rw [heq]
    · exact hlatched
    · exact hlatched.trans stays_closeEpoch
    · exact hlatched.trans (stays_closeRestEpoch remaining)

/-- An adaptive controller starts above the floor. -/
theorem aboveFloor_new (h : (new settings).isAdaptive = true) : (new settings).AboveFloor := by
  rw [new, isAdaptive, proposeCandidate_settings, Bool.and_eq_true, Option.isNone_iff_eq_none] at h
  rw [new]
  refine stays_proposeCandidate.above ⟨?_, ?_⟩
  all_goals
    dsimp only
    rw [startSize, h.2]
    exact floorRows_le_clampRows _

end FlowController

open FlowController

/-! ## Any run -/

variable {settings : FlowSettings} {samples : List FlowSample} {sample : FlowSample}

/-- Over a run, sizes an adaptive controller has are not below the floor. -/
theorem aboveFloor_runFlow (samples : List FlowSample) (h : (runFlow settings samples).1.isAdaptive = true) :
    (runFlow settings samples).1.AboveFloor := by
  induction samples using List.reverseRecOn with
  | nil => exact aboveFloor_new h
  | append_singleton samples sample ih =>
    rw [runFlow_concat] at h ⊢
    have hlatched := latched_observe (runFlow settings samples).1 sample
    rw [isAdaptive, hlatched.settings] at h
    exact hlatched.above (ih h)

/-- A pass over which the latch changes was admitted at the floor. -/
theorem targetRows_of_latch (samples : List FlowSample) (sample : FlowSample)
    (h : (runFlow settings (samples ++ [sample])).1.latencyAbandoned ≠
      (runFlow settings samples).1.latencyAbandoned) :
    (runFlow settings samples).1.targetRows = (runFlow settings samples).1.floorRows := by
  rw [runFlow_concat] at h
  have hlatched := latched_observe (runFlow settings samples).1 sample
  obtain ⟨hadaptive, hle⟩ := hlatched.latch.resolve_left h
  obtain ⟨hincumbent, hcandidate⟩ := aboveFloor_runFlow samples hadaptive
  refine hle.antisymm ?_
  rw [targetRows]
  split_ifs
  · exact hincumbent
  · rcases (runFlow settings samples).1.arm
    · exact hincumbent
    · exact hcandidate

/-- A run that no guard interrupts, whose epochs all miss the objective. -/
structure UnderPressure (settings : FlowSettings) (samples : List FlowSample) : Prop where
  calm : ∀ before sample after, samples = before ++ sample :: after →
    ¬(runFlow settings before).1.GuardTrips sample
  misses : ∀ before sample after, samples = before ++ sample :: after → (runFlow settings before).1.Misses sample

theorem underPressure_iff : UnderPressure settings samples ↔
    ∀ n, (h : n < samples.length) → ¬(runFlow settings (samples.take n)).1.GuardTrips samples[n] ∧
      (runFlow settings (samples.take n)).1.Misses samples[n] := by
  constructor
  · intro h n hn
    have hsplit : samples = samples.take n ++ samples[n] :: samples.drop (n + 1) := by
      rw [List.getElem_cons_drop, List.take_append_drop]
    exact ⟨h.calm _ _ _ hsplit, h.misses _ _ _ hsplit⟩
  · intro h
    have hpass : ∀ before sample after, samples = before ++ sample :: after →
        ¬(runFlow settings before).1.GuardTrips sample ∧ (runFlow settings before).1.Misses sample := by
      rintro before sample after rfl
      have hn := h before.length (by rw [List.length_append, List.length_cons]; omega)
      rw [List.take_left] at hn
      simpa using hn
    exact ⟨fun before sample after heq => (hpass before sample after heq).1,
      fun before sample after heq => (hpass before sample after heq).2⟩

instance : Decidable (UnderPressure settings samples) := decidable_of_iff _ underPressure_iff.symm

theorem UnderPressure.of_append {first second : List FlowSample} (h : UnderPressure settings (first ++ second)) :
    UnderPressure settings first := by
  constructor
  · intro before sample after heq
    refine h.calm before sample (after ++ second) ?_
    rw [heq, List.append_assoc, List.cons_append]
  · intro before sample after heq
    refine h.misses before sample (after ++ second) ?_
    rw [heq, List.append_assoc, List.cons_append]

/-- A search under pressure does not rest. -/
theorem UnderPressure.experiment (h : UnderPressure settings samples) :
    (runFlow settings samples).1.phase = .experiment := by
  induction samples using List.reverseRecOn with
  | nil => exact proposeCandidate_phase
  | append_singleton samples sample ih =>
    rw [runFlow_concat]
    exact (pressed_observe (ih h.of_append) (h.calm samples sample [] rfl) (h.misses samples sample [] rfl)).1

theorem UnderPressure.pressed (h : UnderPressure settings (samples ++ [sample])) :
    Pressed (runFlow settings samples).1 sample (runFlow settings (samples ++ [sample])).1 := by
  rw [runFlow_concat]
  exact (pressed_observe h.of_append.experiment (h.calm samples sample [] rfl) (h.misses samples sample [] rfl)).2

/-- The incumbent never grows. -/
theorem UnderPressure.incumbent_le {first second : List FlowSample}
    (h : UnderPressure settings (first ++ second)) :
    (runFlow settings (first ++ second)).1.incumbent ≤ (runFlow settings first).1.incumbent := by
  induction second using List.reverseRecOn with
  | nil => rw [List.append_nil]
  | append_singleton second sample ih =>
    rw [← List.append_assoc] at h ⊢
    exact h.pressed.incumbent_le.trans (ih h.of_append)

/-- What the first decision leaves stays until the second. -/
theorem UnderPressure.halfway {n : Nat} {first second : List FlowSample}
    (h : UnderPressure settings (first ++ second)) (hhalf : Halfway n (runFlow settings first).1) :
    Halfway n (runFlow settings (first ++ second)).1 := by
  induction second using List.reverseRecOn with
  | nil => rwa [List.append_nil]
  | append_singleton second sample ih =>
    rw [← List.append_assoc] at h ⊢
    exact h.pressed.halfway (ih h.of_append)

/-- What a run under pressure does to the incumbent. -/
structure Descends (settings : FlowSettings) (samples : List FlowSample) : Prop where
  neverGrows : ∀ before between after, samples = before ++ between ++ after →
    (runFlow settings (before ++ between)).1.incumbent ≤ (runFlow settings before).1.incumbent
  shrinks : ∀ before first between second after, samples = before ++ first :: between ++ second :: after →
    (runFlow settings before).1.Decides first → (runFlow settings (before ++ first :: between)).1.Decides second →
    (runFlow settings before).1.floorRows < (runFlow settings before).1.incumbent →
    (runFlow settings (before ++ first :: between ++ [second])).1.incumbent <
      (runFlow settings before).1.incumbent

/-- The latch changes on passes admitted at the floor alone. -/
def LatchesAtFloor (settings : FlowSettings) (samples : List FlowSample) : Prop :=
  ∀ before sample after, samples = before ++ sample :: after →
    (runFlow settings (before ++ [sample])).1.latencyAbandoned ≠ (runFlow settings before).1.latencyAbandoned →
    (runFlow settings before).1.targetRows = (runFlow settings before).1.floorRows

/-- **The descent.** Under settings that grow by two at least, over any run that no guard interrupts and whose
epochs, where they have enough samples, all miss the objective: the incumbent never grows, and any two
experiments that are decided leave less of it, unless it is at the floor. Over any run at all the objective is
given up, and taken up again, on a pass admitted at the floor. -/
theorem latency_descent (settings : FlowSettings) (samples : List FlowSample) :
    (2 ≤ settings.growthFactor → UnderPressure settings samples → Descends settings samples) ∧
      LatchesAtFloor settings samples := by
  refine ⟨fun hgrowth h => ⟨?_, ?_⟩, fun before sample _ _ => targetRows_of_latch before sample⟩
  · rintro before between after rfl
    exact h.of_append.incumbent_le
  · rintro before first between second after rfl hfirst hsecond hfloor
    have hlast : UnderPressure settings (before ++ first :: between ++ [second]) := by
      rw [List.append_cons] at h
      exact h.of_append
    have hmiddle : UnderPressure settings (before ++ [first] ++ between) := by
      rw [← List.append_cons]
      exact hlast.of_append
    have hhalf : Halfway (runFlow settings before).1.incumbent (runFlow settings (before ++ [first])).1 := by
      refine hmiddle.of_append.pressed.halfway_of_decides hfirst ?_ hfloor
      rw [runFlow_settings]
      exact hgrowth
    have hstill := hmiddle.halfway hhalf
    rw [← List.append_cons] at hstill
    exact hlast.pressed.lt_of_halfway hsecond hstill

namespace FlowRuns

/-- An objective of a millisecond, and epochs of one. -/
def hasty : FlowSettings :=
  { FlowSettings.default with
    minRows := 1, startRows := 8, targetLatencyMs := 1, adjustIntervalMs := 1, minSamplesPerArm := 1 }

/-- A pass of ten milliseconds. -/
def slow (at_ : Nat) : FlowSample := ⟨8, 10000000, 0, none, false, at_⟩

/-- The candidate of sixteen rows loses, and that of four wins. -/
theorem eight_shrinks :
    (runFlow hasty ([slow 0] ++ slow 10000000 :: [slow 20000000] ++ [slow 30000000])).1.incumbent <
      (runFlow hasty [slow 0]).1.incumbent := by
  have hpressure : UnderPressure hasty [slow 0, slow 10000000, slow 20000000, slow 30000000] := by
    decide +kernel
  have hfirst : (runFlow hasty [slow 0]).1.Decides (slow 10000000) := by decide +kernel
  have hsecond : (runFlow hasty ([slow 0] ++ slow 10000000 :: [slow 20000000])).1.Decides (slow 30000000) := by
    decide +kernel
  have hfloor : (runFlow hasty [slow 0]).1.floorRows < (runFlow hasty [slow 0]).1.incumbent := by
    decide +kernel
  exact ((latency_descent hasty _).1 (le_refl _) hpressure).shrinks [slow 0] (slow 10000000) [slow 20000000]
    (slow 30000000) [] rfl hfirst hsecond hfloor

end FlowRuns
end Saci
