import Mathlib.Algebra.Order.Field.Basic
import Mathlib.Data.List.Induction
import Mathlib.Tactic.Linarith
import Saci.Service.Flow

/-!
# The search for a batch size

Sizes stay in their range, a ceiling stays above the incumbent, and a rest ends. The candidate
differs from the incumbent as long as no proposal is made, without a ceiling, at a size that both
rounded steps come back to; then experiments with both arms come up in any seventeen epochs
(`flow_search_iff`).
-/

namespace Saci

/-! ## Steps of a size -/

/-- The size one step up and one step down, where no ceiling stands. -/
def upSize (settings : FlowSettings) (n : Nat) : Nat :=
  clampRows (max (roundRows (n * settings.growthFactor)) 1) settings

def downSize (settings : FlowSettings) (n : Nat) : Nat :=
  clampRows (max (roundRows (n / settings.growthFactor)) 1) settings

/-- Some step leads away from a size. -/
def Moves (settings : FlowSettings) (n : Nat) : Prop :=
  upSize settings n ≠ n ∨ downSize settings n ≠ n

instance (settings : FlowSettings) (n : Nat) : Decidable (Moves settings n) :=
  inferInstanceAs (Decidable (_ ∨ _))

theorem floor_div_lt {n : Nat} {q : ℚ} (hq : 1 < q) (hn : 0 < n) :
    ((n : ℚ) / q).floor.toNat < n := by
  have hpos : (0 : ℚ) < n := Nat.cast_pos.mpr hn
  rw [Int.toNat_lt_of_ne_zero hn.ne', Rat.floor_lt_iff]
  exact_mod_cast div_lt_self hpos hq

/-- A size between the bounds. -/
def InRange (settings : FlowSettings) (n : Nat) : Prop :=
  settings.minRows ≤ n ∧ n ≤ settings.maxRows

instance (settings : FlowSettings) (n : Nat) : Decidable (InRange settings n) :=
  inferInstanceAs (Decidable (_ ∧ _))

section
variable {settings : FlowSettings} {n : Nat}

theorem FlowSettings.Sound.clampRows_eq (h : settings.Sound) (n : Nat) :
    clampRows n settings = max settings.minRows (min n settings.maxRows) := by
  have := h.one_le_min
  have := h.min_le_max
  simp only [clampRows]
  omega

theorem FlowSettings.Sound.clampRows_inRange (h : settings.Sound) (n : Nat) :
    InRange settings (clampRows n settings) := by
  have := h.min_le_max
  rw [h.clampRows_eq, InRange]
  omega

end

namespace FlowController

/-! ## What holds of a controller -/

/-- Everything but the candidate is where it should be. -/
structure Ready (settings : FlowSettings) (c : FlowController) : Prop where
  settings_eq : c.settings = settings
  incumbent : InRange settings c.incumbent
  ceiling : ∀ wall, c.ceiling = some wall → c.incumbent < wall ∧ wall ≤ settings.maxRows
  rest : ∀ remaining, c.phase = .rest remaining → 1 ≤ remaining ∧ remaining ≤ MAX_REST_EPOCHS

/-- The candidate was proposed at the incumbent. -/
structure Framed (settings : FlowSettings) (c : FlowController) : Prop
    extends Ready settings c where
  candidate : InRange settings c.candidate
  below : ∀ wall, c.ceiling = some wall → c.candidate ≤ wall
  stuck : c.candidate = c.incumbent → c.ceiling = none ∧ ¬ Moves settings c.incumbent
  proposed : c.ceiling = none →
    c.candidate = upSize settings c.incumbent ∨ c.candidate = downSize settings c.incumbent

/-- What a search is to keep: sizes in range, two different arms, a ceiling above the incumbent
and a rest that is not too long. -/
structure Searching (settings : FlowSettings) (c : FlowController) : Prop where
  incumbent : InRange settings c.incumbent
  candidate : InRange settings c.candidate
  differ : c.candidate ≠ c.incumbent
  ceiling : ∀ wall, c.ceiling = some wall → c.incumbent < wall ∧ wall ≤ settings.maxRows
  rest : ∀ remaining, c.phase = .rest remaining → 1 ≤ remaining ∧ remaining ≤ MAX_REST_EPOCHS

variable {settings : FlowSettings} {c c' : FlowController} {sample : FlowSample} {n : Nat}

/-- A framed controller searches exactly where a step leads away from its incumbent. -/
theorem Framed.searching_iff (h : Framed settings c) :
    Searching settings c ↔ (c.ceiling = none → Moves settings c.incumbent) := by
  constructor
  · intro hsearch hopen
    rcases h.proposed hopen with hup | hdown
    · exact .inl (hup ▸ hsearch.differ)
    · exact .inr (hdown ▸ hsearch.differ)
  · intro hmoves
    refine ⟨h.incumbent, h.candidate, fun heq => ?_, h.ceiling, h.rest⟩
    obtain ⟨hopen, hnot⟩ := h.stuck heq
    exact hnot (hmoves hopen)

/-! ## Proposing a candidate -/

@[simp] theorem proposeCandidate_settings : c.proposeCandidate.settings = c.settings := by
  rw [proposeCandidate]; dsimp only; split_ifs <;> rfl

@[simp] theorem proposeCandidate_incumbent : c.proposeCandidate.incumbent = c.incumbent := by
  rw [proposeCandidate]; dsimp only; split_ifs <;> rfl

@[simp] theorem proposeCandidate_ceiling : c.proposeCandidate.ceiling = c.ceiling := by
  rw [proposeCandidate]; dsimp only; split_ifs <;> rfl

@[simp] theorem proposeCandidate_phase : c.proposeCandidate.phase = c.phase := by
  rw [proposeCandidate]; dsimp only; split_ifs <;> rfl

@[simp] theorem proposeCandidate_arm : c.proposeCandidate.arm = .incumbent := rfl

@[simp] theorem proposeCandidate_epochStart : c.proposeCandidate.epochStart = c.epochStart := by
  rw [proposeCandidate]; dsimp only; split_ifs <;> rfl

@[simp] theorem proposeCandidate_candidateStats :
    c.proposeCandidate.candidateStats = c.candidateStats := by
  rw [proposeCandidate]; dsimp only; split_ifs <;> rfl

@[simp] theorem proposeCandidate_settled : c.proposeCandidate.settled = c.settled := by
  rw [proposeCandidate]; dsimp only; split_ifs <;> rfl

/-- The candidate is the step in the current direction, or in the other one if that is no step. -/
theorem proposeCandidate_candidate :
    c.proposeCandidate.candidate =
      if c.stepFromIncumbent = c.incumbent then
        { c with direction := c.direction.flipped }.stepFromIncumbent
      else c.stepFromIncumbent := by
  rw [proposeCandidate]
  dsimp only
  split_ifs
  · rfl
  · rfl

/-- Below a ceiling, a step up leads away and a step down does not lead up. -/
theorem Ready.step_of_ceiling (hs : settings.Sound) (h : Ready settings c) {wall : Nat}
    (hwall : c.ceiling = some wall) :
    c.stepFromIncumbent ≤ wall ∧ (c.direction = .up → c.incumbent < c.stepFromIncumbent) := by
  obtain ⟨hlt, hle⟩ := h.ceiling wall hwall
  obtain ⟨hmin, -⟩ := h.incumbent
  have := hs.one_le_min
  have hone : 1 ≤ max (wall / CEILING_INCREMENT_DIVISOR) 1 := le_max_right _ _
  rw [stepFromIncumbent, stepped, hwall, h.settings_eq, hs.clampRows_eq]
  rcases c.direction
  · dsimp only
    refine ⟨by omega, fun _ => by omega⟩
  · dsimp only
    refine ⟨by omega, fun hup => nomatch hup⟩

/-- Where no ceiling stands, the steps are those of the incumbent. -/
theorem Ready.step_of_open (h : Ready settings c) (hopen : c.ceiling = none) :
    c.stepFromIncumbent = match c.direction with
      | .up => upSize settings c.incumbent
      | .down => downSize settings c.incumbent := by
  rw [stepFromIncumbent, stepped, hopen, h.settings_eq]
  rcases c.direction <;> rfl

theorem Ready.flip (h : Ready settings c) (direction : Direction) :
    Ready settings { c with direction } := ⟨h.settings_eq, h.incumbent, h.ceiling, h.rest⟩

theorem Ready.step_inRange (hs : settings.Sound) (h : Ready settings c) :
    InRange settings c.stepFromIncumbent := by
  rw [stepFromIncumbent, h.settings_eq]
  exact hs.clampRows_inRange _

/-- Proposing a candidate frames the search. -/
theorem Ready.propose (hs : settings.Sound) (h : Ready settings c) :
    Framed settings c.proposeCandidate := by
  have hflip := h.flip c.direction.flipped
  refine ⟨⟨?_, ?_, ?_, ?_⟩, ?_, fun wall hwall => ?_, fun heq => ?_, fun hopen => ?_⟩
  · rw [proposeCandidate_settings]
    exact h.settings_eq
  · rw [proposeCandidate_incumbent]
    exact h.incumbent
  · rw [proposeCandidate_ceiling, proposeCandidate_incumbent]
    exact h.ceiling
  · rw [proposeCandidate_phase]
    exact h.rest
  · rw [proposeCandidate_candidate]
    split_ifs
    · exact hflip.step_inRange hs
    · exact h.step_inRange hs
  · rw [proposeCandidate_ceiling] at hwall
    rw [proposeCandidate_candidate]
    split_ifs
    · exact (hflip.step_of_ceiling hs hwall).1
    · exact (h.step_of_ceiling hs hwall).1
  · rw [proposeCandidate_candidate, proposeCandidate_incumbent] at heq
    rw [proposeCandidate_ceiling, proposeCandidate_incumbent]
    split_ifs at heq with hstay
    swap
    · exact absurd heq hstay
    rcases hceiling : c.ceiling with _ | wall
    · refine ⟨rfl, ?_⟩
      rw [h.step_of_open hceiling] at hstay
      rw [hflip.step_of_open hceiling] at heq
      rw [Moves, not_or, not_not, not_not]
      rcases hdirection : c.direction
      · rw [hdirection] at hstay heq
        exact ⟨hstay, heq⟩
      · rw [hdirection] at hstay heq
        exact ⟨heq, hstay⟩
    · -- one of the two steps is up
      exfalso
      rcases hdirection : c.direction
      · exact absurd hstay ((h.step_of_ceiling hs hceiling).2 hdirection).ne'
      · have hup := (hflip.step_of_ceiling hs hceiling).2 (by rw [hdirection]; rfl)
        exact absurd heq hup.ne'
  · rw [proposeCandidate_ceiling] at hopen
    rw [proposeCandidate_candidate, proposeCandidate_incumbent]
    have hsteps := h.step_of_open hopen
    have hflipped := hflip.step_of_open hopen
    split_ifs
    · rw [hflipped]
      rcases c.direction
      · exact .inr rfl
      · exact .inl rfl
    · rw [hsteps]
      rcases c.direction
      · exact .inl rfl
      · exact .inr rfl

/-! ## Closing an epoch -/

/-- Between two epochs: nothing has been counted. -/
structure Fresh (c : FlowController) : Prop where
  arm : c.arm = .incumbent
  epochStart : c.epochStart = none
  candidateStats : c.candidateStats = {}

theorem fresh_startEpoch : Fresh c.startEpoch := ⟨rfl, rfl, rfl⟩

theorem Fresh.propose (h : Fresh c) : Fresh c.proposeCandidate :=
  ⟨rfl, proposeCandidate_epochStart.trans h.epochStart,
    proposeCandidate_candidateStats.trans h.candidateStats⟩

theorem Framed.startEpoch (h : Framed settings c) : Framed settings c.startEpoch :=
  ⟨⟨h.settings_eq, h.incumbent, h.ceiling, h.rest⟩, h.candidate, h.below, h.stuck, h.proposed⟩

/-- A rest is entered with at least one epoch and at most sixteen. -/
theorem Framed.restIfSettled (h : Framed settings c) : Framed settings c.restIfSettled := by
  rw [FlowController.restIfSettled]
  split_ifs
  · exact h
  · refine ⟨⟨h.settings_eq, h.incumbent, h.ceiling, fun remaining hrest => ?_⟩, h.candidate, h.below,
      h.stuck, h.proposed⟩
    cases hrest
    exact ⟨le_min (Nat.one_le_two_pow) (by decide), min_le_right _ _⟩

theorem Fresh.restIfSettled (h : Fresh c) : Fresh c.restIfSettled := by
  rw [FlowController.restIfSettled]
  split_ifs
  · exact h
  · exact ⟨h.arm, h.epochStart, h.candidateStats⟩

theorem Framed.loseEpoch (hs : settings.Sound) (h : Framed settings c) (breaches : Bool) :
    Framed settings (c.loseEpoch breaches) := by
  rw [FlowController.loseEpoch]
  refine (Ready.propose hs ?_).restIfSettled
  exact ⟨h.settings_eq, h.incumbent, h.ceiling, h.rest⟩

/-- The candidate takes the incumbent's place, below a ceiling or at one that falls. -/
theorem Framed.winEpoch (hs : settings.Sound) (h : Framed settings c) :
    Framed settings c.winEpoch := by
  rw [FlowController.winEpoch]
  refine Ready.propose hs ⟨h.settings_eq, h.candidate, fun wall hwall => ?_, h.rest⟩
  dsimp only at hwall ⊢
  split_ifs at hwall with hany
  obtain ⟨-, hle⟩ := h.ceiling wall hwall
  rw [hwall, Option.any_some, decide_eq_true_eq, not_le] at hany
  exact ⟨hany, hle⟩

theorem Fresh.loseEpoch (h : Fresh c) (breaches : Bool) : Fresh (c.loseEpoch breaches) := by
  rw [FlowController.loseEpoch]
  refine Fresh.restIfSettled (Fresh.propose ?_)
  exact ⟨h.arm, h.epochStart, h.candidateStats⟩

theorem Fresh.winEpoch (h : Fresh c) : Fresh c.winEpoch := by
  rw [FlowController.winEpoch]
  exact Fresh.propose ⟨h.arm, h.epochStart, h.candidateStats⟩

theorem winEpoch_phase : c.winEpoch.phase = c.phase := by
  rw [FlowController.winEpoch]
  exact proposeCandidate_phase

/-- What closing an experiment leaves: it changes nothing but the epoch, or there was enough
evidence and the candidate lost or won. -/
theorem closeEpoch_cases :
    c.closeEpoch.1 = c.startEpoch ∨
      c.settings.minSamplesPerArm ≤ c.candidateStats.samples ∧
        ((∃ breaches, c.closeEpoch.1 = c.startEpoch.loseEpoch breaches) ∨
          c.closeEpoch.1 = c.startEpoch.winEpoch) := by
  rw [FlowController.closeEpoch]
  dsimp only
  by_cases hequal : c.startEpoch.candidate = c.startEpoch.incumbent
  · exact .inl (by rw [if_pos hequal])
  rw [if_neg hequal]
  by_cases hfew : c.incumbentStats.samples < c.startEpoch.settings.minSamplesPerArm ∨
      c.candidateStats.samples < c.startEpoch.settings.minSamplesPerArm
  · exact .inl (by rw [if_pos hfew])
  rw [if_neg hfew]
  rw [not_or, not_lt, not_lt] at hfew
  refine .inr ⟨hfew.2, ?_⟩
  by_cases hwin : c.startEpoch.candidateWins c.incumbentStats c.candidateStats = true
  · exact .inr (by rw [if_neg (not_not.mpr hwin)])
  · exact .inl ⟨_, by rw [if_pos hwin]⟩

theorem Framed.closeEpoch (hs : settings.Sound) (h : Framed settings c)
    (hphase : c.phase = .experiment) :
    Framed settings c.closeEpoch.1 ∧ Fresh c.closeEpoch.1 ∧
      (c.closeEpoch.1.phase = .experiment ∨ 1 ≤ c.candidateStats.samples) := by
  have hstart := h.startEpoch
  have hfresh : Fresh c.startEpoch := fresh_startEpoch
  rcases closeEpoch_cases (c := c) with heq | ⟨hsamples, ⟨breaches, heq⟩ | heq⟩ <;> rw [heq]
  · exact ⟨hstart, hfresh, .inl hphase⟩
  · have := hs.samples
    rw [h.settings_eq] at hsamples
    exact ⟨hstart.loseEpoch hs breaches, hfresh.loseEpoch breaches, .inr (this.trans hsamples)⟩
  · exact ⟨hstart.winEpoch hs, hfresh.winEpoch, .inl (winEpoch_phase.trans hphase)⟩

/-- What closing a rest epoch leaves. -/
theorem Framed.closeRestEpoch (hs : settings.Sound) (h : Framed settings c) {remaining : Nat}
    (hphase : c.phase = .rest remaining) :
    Framed settings (c.closeRestEpoch remaining).1 ∧ Fresh (c.closeRestEpoch remaining).1 ∧
      ((c.closeRestEpoch remaining).1.phase = .experiment ∨
        1 < remaining ∧ (c.closeRestEpoch remaining).1.phase = .rest (remaining - 1)) := by
  have hready (settled : Nat) (direction : Direction) (phase : Phase)
      (hrest : ∀ r, phase = .rest r → 1 ≤ r ∧ r ≤ MAX_REST_EPOCHS) :
      Ready settings { c.startEpoch with settled, direction, phase } :=
    ⟨h.settings_eq, h.incumbent, h.ceiling, hrest⟩
  have hexperiment : ∀ r, Phase.experiment = .rest r → 1 ≤ r ∧ r ≤ MAX_REST_EPOCHS :=
    fun _ hrest => nomatch hrest
  rw [FlowController.closeRestEpoch]
  by_cases hbreached : c.startEpoch.settings.minSamplesPerArm ≤ c.incumbentStats.samples ∧
      c.startEpoch.breachesObjective c.incumbentStats = true
  · rw [if_pos (.inl hbreached), if_pos hbreached]
    exact ⟨(hready 0 .down .experiment hexperiment).propose hs, Fresh.propose ⟨rfl, rfl, rfl⟩,
      .inl proposeCandidate_phase⟩
  by_cases hend : remaining ≤ 1
  · rw [if_pos (.inr hend), if_neg hbreached]
    exact ⟨(hready c.settled c.direction .experiment hexperiment).propose hs,
      Fresh.propose ⟨rfl, rfl, rfl⟩, .inl proposeCandidate_phase⟩
  · rw [if_neg (not_or.mpr ⟨hbreached, hend⟩), if_neg hbreached]
    rw [not_le] at hend
    refine ⟨⟨⟨h.settings_eq, h.incumbent, h.ceiling, fun r hrest => ?_⟩, h.candidate, h.below,
      h.stuck, h.proposed⟩, ⟨rfl, rfl, rfl⟩, .inr ⟨hend, rfl⟩⟩
    cases hrest
    have := (h.rest remaining hphase).2
    omega

/-! ## Backing off -/

/-- The state a guard leaves: nothing moves at the floor, else the ceiling comes down to the rows
that failed and the search starts again below them. -/
theorem fst_backOff (c : FlowController) (cause : FlowCause) :
    ∃ lowered, lowered = c.ceiling.elim (max c.targetRows c.incumbent)
        (min · (max c.targetRows c.incumbent)) ∧
      (c.backOff cause).1 =
        if max c.targetRows c.incumbent ≤ c.floorRows then { c with settled := 0, phase := .experiment }
        else { ({ c with
            settled := 0
            phase := .experiment
            ceiling := some lowered
            incumbent := clampRows (max (((max c.targetRows c.incumbent : Nat) : ℚ) /
              c.settings.backoffFactor).floor.toNat 1) c.settings
            direction := .down } : FlowController).proposeCandidate.startEpoch with
          cooldown := c.settings.backoffCooldown
          lastSinkPending := none
          pendingRises := 0 } := by
  refine ⟨_, rfl, ?_⟩
  have hfloorRows : ({ c with settled := 0, phase := .experiment } : FlowController).floorRows =
      c.floorRows := rfl
  rw [FlowController.backOff, hfloorRows]
  split_ifs
  · rfl
  · rcases c.ceiling <;> rfl

/-- What a guard leaves: at the floor the epoch goes on as an experiment, otherwise it is given up
and a ceiling stands. -/
theorem Framed.backOff (hs : settings.Sound) (h : Framed settings c) (hcool : c.cooldown = 0)
    (cause : FlowCause) :
    Framed settings (c.backOff cause).1 ∧ (c.backOff cause).1.phase = .experiment ∧
      (Fresh (c.backOff cause).1 ∨
        (c.backOff cause).1.arm = c.arm ∧ (c.backOff cause).1.epochStart = c.epochStart ∧
          (c.backOff cause).1.candidateStats = c.candidateStats) := by
  have htarget : InRange settings (max c.targetRows c.incumbent) ∧
      ∀ wall, c.ceiling = some wall → max c.targetRows c.incumbent ≤ wall := by
    have hi := h.incumbent
    have hc := h.candidate
    rw [InRange] at hi hc ⊢
    rw [targetRows, if_neg (by omega)]
    rcases c.arm
    · refine ⟨by rw [max_self]; exact hi, fun wall hwall => ?_⟩
      have := h.ceiling wall hwall
      dsimp only
      omega
    · refine ⟨by dsimp only; omega, fun wall hwall => ?_⟩
      have := h.ceiling wall hwall
      have := h.below wall hwall
      dsimp only
      omega
  obtain ⟨⟨hmin, hmax⟩, hwall⟩ := htarget
  obtain ⟨lowered, hlowered, hbackOff⟩ := fst_backOff c cause
  rw [hbackOff]
  by_cases hfloor : max c.targetRows c.incumbent ≤ c.floorRows
  · rw [if_pos hfloor]
    refine ⟨⟨⟨h.settings_eq, h.incumbent, h.ceiling, fun _ hrest => ?_⟩, h.candidate, h.below,
      h.stuck, h.proposed⟩, rfl, .inr ⟨rfl, rfl, rfl⟩⟩
    cases hrest
  · rw [if_neg hfloor]
    rw [floorRows, h.settings_eq, not_le] at hfloor
    have hpos : 0 < max c.targetRows c.incumbent := (Nat.zero_le _).trans_lt hfloor
    have hreduced := floor_div_lt hs.backoff hpos
    obtain rfl : lowered = max c.targetRows c.incumbent := by
      rcases hceiling : c.ceiling with _ | wall
      · rw [hlowered, hceiling, Option.elim_none]
      · rw [hlowered, hceiling, Option.elim_some]
        exact min_eq_right (hwall wall hceiling)
    have hready : Ready settings { c with
        settled := 0
        phase := .experiment
        ceiling := some (max c.targetRows c.incumbent)
        incumbent := clampRows (max (((max c.targetRows c.incumbent : Nat) : ℚ) /
          c.settings.backoffFactor).floor.toNat 1) c.settings
        direction := .down } := by
      rw [h.settings_eq]
      refine ⟨rfl, hs.clampRows_inRange _, fun wall heq => ?_, fun _ hrest => ?_⟩
      · cases heq
        refine ⟨?_, hmax⟩
        dsimp only
        rw [hs.clampRows_eq]
        have := hs.one_le_min
        omega
      · cases hrest
    have hframed := (hready.propose hs).startEpoch
    exact ⟨⟨⟨hframed.settings_eq, hframed.incumbent, hframed.ceiling, hframed.rest⟩,
      hframed.candidate, hframed.below, hframed.stuck, hframed.proposed⟩, proposeCandidate_phase,
      .inl ⟨rfl, rfl, rfl⟩⟩

/-! ## One pass -/

/-- What bookkeeping leaves as it is. -/
structure SameSearch (c c' : FlowController) : Prop where
  settings : c'.settings = c.settings
  incumbent : c'.incumbent = c.incumbent
  candidate : c'.candidate = c.candidate
  arm : c'.arm = c.arm
  phase : c'.phase = c.phase
  ceiling : c'.ceiling = c.ceiling
  epochStart : c'.epochStart = c.epochStart
  candidateStats : c'.candidateStats = c.candidateStats

theorem Framed.of_same (h : Framed settings c) (hsame : SameSearch c c') : Framed settings c' := by
  refine ⟨⟨?_, ?_, ?_, ?_⟩, ?_, ?_, ?_, ?_⟩
  · exact hsame.settings.trans h.settings_eq
  · exact hsame.incumbent ▸ h.incumbent
  · rw [hsame.ceiling, hsame.incumbent]
    exact h.ceiling
  · exact hsame.phase ▸ h.rest
  · exact hsame.candidate ▸ h.candidate
  · rw [hsame.ceiling, hsame.candidate]
    exact h.below
  · rw [hsame.ceiling, hsame.candidate, hsame.incumbent]
    exact h.stuck
  · rw [hsame.ceiling, hsame.candidate, hsame.incumbent]
    exact h.proposed

theorem sameSearch_trackSinkPressure (pending : Option Nat) :
    SameSearch c (c.trackSinkPressure pending).1 := by
  rcases pending with _ | pending
  · exact ⟨rfl, rfl, rfl, rfl, rfl, rfl, rfl, rfl⟩
  · exact ⟨rfl, rfl, rfl, rfl, rfl, rfl, rfl, rfl⟩

theorem sameSearch_trackLatencyObjective (sample : FlowSample) :
    SameSearch c (c.trackLatencyObjective sample) := by
  rw [trackLatencyObjective]
  dsimp only
  split_ifs <;> exact ⟨rfl, rfl, rfl, rfl, rfl, rfl, rfl, rfl⟩

theorem SameSearch.trans {c'' : FlowController} (h : SameSearch c c') (h' : SameSearch c' c'') :
    SameSearch c c'' :=
  ⟨h'.settings.trans h.settings, h'.incumbent.trans h.incumbent, h'.candidate.trans h.candidate,
    h'.arm.trans h.arm, h'.phase.trans h.phase, h'.ceiling.trans h.ceiling,
    h'.epochStart.trans h.epochStart, h'.candidateStats.trans h.candidateStats⟩

/-- A pass leaves the search alone, backs off, or counts. -/
theorem judge_cases (c : FlowController) (sample : FlowSample) :
    (∃ c' adjustment, c.judge sample = .ends c' adjustment ∧ SameSearch c c') ∨
      (∃ c' cause, SameSearch c c' ∧ c'.cooldown = 0 ∧
        c.judge sample = .ends (c'.backOff cause).1 (c'.backOff cause).2) ∨
      ∃ c', SameSearch c c' ∧ c.judge sample = .counts (c'.count sample) := by
  delta judge
  extract_lets throughput book
  have hsame : SameSearch c book := ⟨rfl, rfl, rfl, rfl, rfl, rfl, rfl, rfl⟩
  clear_value book
  dsimp only
  by_cases hadaptive : book.isAdaptive = true
  · rw [if_neg (not_not.mpr hadaptive)]
    have htracked := hsame.trans (sameSearch_trackSinkPressure sample.sinkPending)
    generalize book.trackSinkPressure sample.sinkPending = result at htracked
    obtain ⟨tracked, pressure⟩ := result
    by_cases hcool : 0 < tracked.cooldown
    · rw [if_pos hcool]
      refine .inl ⟨_, _, rfl, htracked.trans ?_⟩
      exact ⟨rfl, rfl, rfl, rfl, rfl, rfl, rfl, rfl⟩
    · rw [if_neg hcool]
      rcases hguard : tracked.guardOf sample pressure with _ | cause
      · have hlatency := htracked.trans (sameSearch_trackLatencyObjective sample)
        rcases hmeasured : sample.measured with _ | rate
        · exact .inl ⟨_, _, rfl, hlatency⟩
        · exact .inr (.inr ⟨_, hlatency, rfl⟩)
      · exact .inr (.inl ⟨tracked, cause, htracked, Nat.eq_zero_of_not_pos hcool, rfl⟩)
  · rw [if_pos hadaptive]
    exact .inl ⟨_, _, rfl, hsame⟩

/-- What counting a pass leaves. -/
structure Counted (c c' : FlowController) (sample : FlowSample) : Prop where
  settings : c'.settings = c.settings
  incumbent : c'.incumbent = c.incumbent
  candidate : c'.candidate = c.candidate
  phase : c'.phase = c.phase
  ceiling : c'.ceiling = c.ceiling
  epochStart : c'.epochStart = some (c.epochStart.getD sample.at_)
  samples : c'.candidateStats.samples =
    c.candidateStats.samples + if c.arm = .candidate then 1 else 0
  turns : c.phase = .experiment → c.candidate ≠ c.incumbent → c'.arm ≠ c.arm
  stays : c.phase ≠ .experiment → c'.arm = c.arm

theorem counted_count (c : FlowController) (sample : FlowSample) :
    Counted c (c.count sample) sample := by
  rw [count]
  dsimp only
  rcases harm : c.arm <;> dsimp only
  all_goals
    split_ifs with hturn
    · exact ⟨rfl, rfl, rfl, rfl, rfl, rfl, by simp [ArmStats.add, harm], fun _ _ => by simp [harm],
        fun hne => absurd hturn.1 hne⟩
    · refine ⟨rfl, rfl, rfl, rfl, rfl, rfl, by simp [ArmStats.add, harm], fun hphase hne => ?_,
        fun _ => harm.symm⟩
      exact absurd ⟨hphase, hne⟩ hturn

/-- A pass keeps a search framed. -/
theorem Framed.count (h : Framed settings c) (hcounted : Counted c c' sample) :
    Framed settings c' := by
  refine ⟨⟨?_, ?_, ?_, ?_⟩, ?_, ?_, ?_, ?_⟩
  · exact hcounted.settings.trans h.settings_eq
  · exact hcounted.incumbent ▸ h.incumbent
  · rw [hcounted.ceiling, hcounted.incumbent]
    exact h.ceiling
  · exact hcounted.phase ▸ h.rest
  · exact hcounted.candidate ▸ h.candidate
  · rw [hcounted.ceiling, hcounted.candidate]
    exact h.below
  · rw [hcounted.ceiling, hcounted.candidate, hcounted.incumbent]
    exact h.stuck
  · rw [hcounted.ceiling, hcounted.candidate, hcounted.incumbent]
    exact h.proposed

theorem observe_of_ends {adjustment : FlowAdjustment} (h : c.judge sample = .ends c' adjustment) :
    (c.observe sample).1 = c' := by
  rw [observe, h]

/-- What a pass that counted comes to: it goes on, or the epoch is closed. -/
theorem observe_of_counts (h : c.judge sample = .counts c') :
    (c'.epochOver sample = false ∧ (c.observe sample).1 = c') ∨
      c'.epochOver sample = true ∧
        ((c'.phase = .experiment ∧ (c.observe sample).1 = c'.closeEpoch.1) ∨
          ∃ remaining, c'.phase = .rest remaining ∧
            (c.observe sample).1 = (c'.closeRestEpoch remaining).1) := by
  rw [observe, h]
  dsimp only
  by_cases hover : c'.epochOver sample = true
  · rw [if_neg (not_not.mpr hover)]
    refine .inr ⟨hover, ?_⟩
    rcases hphase : c'.phase with _ | remaining
    · exact .inl ⟨rfl, rfl⟩
    · exact .inr ⟨remaining, rfl, rfl⟩
  · rw [if_pos hover]
    exact .inl ⟨Bool.eq_false_iff.mpr hover, rfl⟩

theorem Framed.observe (hs : settings.Sound) (h : Framed settings c) (sample : FlowSample) :
    Framed settings (c.observe sample).1 := by
  rcases judge_cases c sample with ⟨c', adjustment, hjudge, hsame⟩ |
    ⟨c', cause, hsame, hcool, hjudge⟩ | ⟨c', hsame, hjudge⟩
  · rw [observe_of_ends hjudge]
    exact h.of_same hsame
  · rw [observe_of_ends hjudge]
    exact ((h.of_same hsame).backOff hs hcool cause).1
  · have hcount := (h.of_same hsame).count (counted_count c' sample)
    rcases observe_of_counts hjudge with ⟨-, heq⟩ | ⟨-, ⟨hphase, heq⟩ | ⟨r, hphase, heq⟩⟩ <;> rw [heq]
    · exact hcount
    · exact (hcount.closeEpoch hs hphase).1
    · exact (hcount.closeRestEpoch hs hphase).1

/-- The start frames the search if it is in range. -/
theorem framed_new (hs : settings.Sound) (h : InRange settings (startSize settings)) :
    Framed settings (new settings) := by
  refine Ready.propose hs ⟨rfl, h, fun wall hwall => ?_, fun remaining hrest => ?_⟩
  · cases hwall
  · cases hrest

end FlowController

/-! ## Epochs -/

/-- The arms of the passes that counted: those of the epoch that is open, and those of every epoch
that was closed. -/
structure EpochLog where
  current : List Arm := []
  closed : List (List Arm) := []

/-- A pass in the log. An epoch is closed by a pass that counts and leaves no epoch open, and given
up by one that does not count. -/
def EpochLog.record (log : EpochLog) (c : FlowController) (sample : FlowSample) : EpochLog :=
  let closes := (c.observe sample).1.epochStart.isNone
  match c.judge sample with
  | .counts _ =>
    let current := log.current ++ [c.arm]
    if closes then ⟨[], log.closed ++ [current]⟩ else ⟨current, log.closed⟩
  | .ends _ _ => if closes then ⟨[], log.closed⟩ else log

/-- A controller over a sequence of passes, with its log. -/
def runFlow (settings : FlowSettings) (samples : List FlowSample) : FlowController × EpochLog :=
  samples.foldl (fun (c, log) sample => ((c.observe sample).1, log.record c sample))
    (.new settings, {})

/-- An epoch that scheduled both arms. -/
def BothArms (epoch : List Arm) : Prop := Arm.incumbent ∈ epoch ∧ Arm.candidate ∈ epoch

instance (epoch : List Arm) : Decidable (BothArms epoch) := inferInstanceAs (Decidable (_ ∧ _))

/-- Among any seventeen consecutive epochs one scheduled both arms. -/
def ExperimentsRecur (closed : List (List Arm)) : Prop :=
  ∀ before window after, closed = before ++ window ++ after →
    window.length = MAX_REST_EPOCHS + 1 → ∃ epoch ∈ window, BothArms epoch

/-- How many epochs at the end have not scheduled both arms. -/
def dryRun (closed : List (List Arm)) : Nat :=
  closed.foldl (fun n epoch => if BothArms epoch then 0 else n + 1) 0

theorem dryRun_concat (closed : List (List Arm)) (epoch : List Arm) :
    dryRun (closed ++ [epoch]) = if BothArms epoch then 0 else dryRun closed + 1 := by
  rw [dryRun, List.foldl_append]
  rfl

theorem dryRun_append {closed window : List (List Arm)} (h : ∀ epoch ∈ window, ¬ BothArms epoch) :
    dryRun (closed ++ window) = dryRun closed + window.length := by
  induction window using List.reverseRecOn with
  | nil => simp
  | append_singleton window epoch ih =>
    obtain ⟨hwindow, hlast⟩ := List.forall_mem_append.mp h
    rw [← List.append_assoc, dryRun_concat, if_neg (hlast epoch (List.mem_singleton_self epoch)),
      ih hwindow, List.length_append, List.length_singleton, Nat.add_assoc]

theorem experimentsRecur_of_dryRun {closed : List (List Arm)}
    (h : ∀ before, before <+: closed → dryRun before ≤ MAX_REST_EPOCHS) :
    ExperimentsRecur closed := by
  intro before window after heq hlength
  by_contra hnone
  have hdry : ∀ epoch ∈ window, ¬ BothArms epoch :=
    fun epoch hmem hboth => hnone ⟨epoch, hmem, hboth⟩
  have := h (before ++ window) ⟨after, heq.symm⟩
  rw [dryRun_append hdry, hlength] at this
  omega

namespace FlowController
variable {settings : FlowSettings} {c : FlowController} {sample : FlowSample} {log : EpochLog}

/-- How the log of a search that is not stuck and its controller go together. -/
structure Scheduled (c : FlowController) (log : EpochLog) : Prop where
  dry : ∀ before, before <+: log.closed → dryRun before ≤ MAX_REST_EPOCHS
  opened : c.epochStart = none ↔ log.current = []
  first : log.current ≠ [] → Arm.incumbent ∈ log.current
  arm : log.current = [] → c.arm = .incumbent
  evidence : 1 ≤ c.candidateStats.samples → Arm.candidate ∈ log.current
  resting : ∀ remaining, c.phase = .rest remaining → c.arm = .incumbent ∧
    Arm.candidate ∉ log.current ∧ dryRun log.closed + remaining ≤ MAX_REST_EPOCHS
  experimenting : c.phase = .experiment → Arm.candidate ∈ log.current ∨ c.arm = .candidate ∨
    log.current = [] ∨ dryRun log.closed < MAX_REST_EPOCHS

theorem scheduled_new : Scheduled (new settings) {} where
  dry before hbefore := by
    rw [List.prefix_nil.mp hbefore]
    exact Nat.zero_le _
  opened := iff_of_true proposeCandidate_epochStart rfl
  first hne := absurd rfl hne
  arm _ := proposeCandidate_arm
  evidence hsamples := by
    rw [new, proposeCandidate_candidateStats] at hsamples
    exact absurd hsamples (Nat.not_succ_le_zero 0)
  resting remaining hrest := by
    rw [new, proposeCandidate_phase] at hrest
    cases hrest
  experimenting _ := .inr (.inr (.inl rfl))

theorem prefixes_concat {closed : List (List Arm)} {epoch : List Arm}
    (h : ∀ before, before <+: closed → dryRun before ≤ MAX_REST_EPOCHS)
    (hlast : dryRun (closed ++ [epoch]) ≤ MAX_REST_EPOCHS) :
    ∀ before, before <+: closed ++ [epoch] → dryRun before ≤ MAX_REST_EPOCHS := by
  intro before hbefore
  rcases List.prefix_concat_iff.mp hbefore with rfl | hbefore
  · exact hlast
  · exact h before hbefore

theorem record_of_ends {c' : FlowController} {adjustment : FlowAdjustment}
    (h : c.judge sample = .ends c' adjustment) :
    log.record c sample = if c'.epochStart.isNone then ⟨[], log.closed⟩ else log := by
  rw [EpochLog.record, observe_of_ends h, h]

theorem record_of_counts {c' : FlowController} (h : c.judge sample = .counts c') :
    log.record c sample =
      if (c.observe sample).1.epochStart.isNone then
        ⟨[], log.closed ++ [log.current ++ [c.arm]]⟩
      else ⟨log.current ++ [c.arm], log.closed⟩ := by
  rw [EpochLog.record, h]

/-- A pass that does not count and leaves the search as it is. -/
theorem Scheduled.same {c' : FlowController} (h : Scheduled c log) (hsame : SameSearch c c') :
    Scheduled c' log where
  dry := h.dry
  opened := by rw [hsame.epochStart]; exact h.opened
  first := h.first
  arm hnil := hsame.arm.trans (h.arm hnil)
  evidence hsamples := h.evidence (hsame.candidateStats ▸ hsamples)
  resting remaining hrest := by
    rw [hsame.phase] at hrest
    rw [hsame.arm]
    exact h.resting remaining hrest
  experimenting hphase := by
    rw [hsame.phase] at hphase
    rw [hsame.arm]
    exact h.experimenting hphase

/-- A controller between two epochs. -/
theorem scheduled_fresh {c' : FlowController} {closed : List (List Arm)} (hfresh : Fresh c')
    (hdry : ∀ before, before <+: closed → dryRun before ≤ MAX_REST_EPOCHS)
    (hrest : ∀ remaining, c'.phase = .rest remaining →
      dryRun closed + remaining ≤ MAX_REST_EPOCHS) : Scheduled c' ⟨[], closed⟩ where
  dry := hdry
  opened := iff_of_true hfresh.epochStart rfl
  first hne := absurd rfl hne
  arm _ := hfresh.arm
  evidence hsamples := by
    rw [hfresh.candidateStats] at hsamples
    exact absurd hsamples (Nat.not_succ_le_zero 0)
  resting remaining hphase := ⟨hfresh.arm, List.not_mem_nil, hrest remaining hphase⟩
  experimenting _ := .inr (.inr (.inl rfl))

/-- A guard ends the epoch, or turns what is left of it into an experiment. -/
theorem Scheduled.backOff (hs : settings.Sound) (hframed : Framed settings c)
    (h : Scheduled c log) (hcool : c.cooldown = 0) (cause : FlowCause) :
    Scheduled (c.backOff cause).1
      (if (c.backOff cause).1.epochStart.isNone then ⟨[], log.closed⟩ else log) := by
  obtain ⟨-, hphase, hfresh | ⟨harm, hepoch, hstats⟩⟩ := hframed.backOff hs hcool cause
  · rw [hfresh.epochStart]
    refine scheduled_fresh hfresh h.dry fun remaining hrest => ?_
    rw [hphase] at hrest
    cases hrest
  · have hlog : (if (c.backOff cause).1.epochStart.isNone then ⟨[], log.closed⟩ else log) = log := by
      split_ifs with hnone
      · rw [hepoch, Option.isNone_iff_eq_none] at hnone
        rw [← h.opened.mp hnone]
      · rfl
    rw [hlog]
    refine ⟨h.dry, by rw [hepoch]; exact h.opened, h.first, fun hnil => harm.trans (h.arm hnil),
      fun hsamples => h.evidence (hstats ▸ hsamples), fun remaining hrest => ?_, fun _ => ?_⟩
    · rw [hphase] at hrest
      cases hrest
    · rw [harm]
      rcases hbefore : c.phase with _ | remaining
      · exact h.experimenting hbefore
      · have hdry := (h.resting remaining hbefore).2.2
        have hpos := (hframed.rest remaining hbefore).1
        exact .inr (.inr (.inr (by omega)))

section
variable {c' : FlowController}

/-- The first pass of an epoch is the incumbent's. -/
theorem Scheduled.incumbent_mem (h : Scheduled c log) : Arm.incumbent ∈ log.current ++ [c.arm] := by
  by_cases hnil : log.current = []
  · rw [h.arm hnil]
    exact List.mem_append_right _ (List.mem_singleton_self _)
  · exact List.mem_append_left _ (h.first hnil)

theorem Scheduled.candidate_mem (h : Scheduled c log) (hcounted : Counted c c' sample)
    (hsamples : 1 ≤ c'.candidateStats.samples) : Arm.candidate ∈ log.current ++ [c.arm] := by
  rw [hcounted.samples] at hsamples
  split_ifs at hsamples with harm
  · rw [harm]
    exact List.mem_append_right _ (List.mem_singleton_self _)
  · exact List.mem_append_left _ (h.evidence hsamples)

/-- A pass that counts and leaves the epoch open. -/
theorem Scheduled.goesOn (hdiffer : c.candidate ≠ c.incumbent) (h : Scheduled c log)
    (hcounted : Counted c c' sample) : Scheduled c' ⟨log.current ++ [c.arm], log.closed⟩ where
  dry := h.dry
  opened := by
    rw [hcounted.epochStart]
    exact iff_of_false (Option.some_ne_none _) (List.append_ne_nil_of_right_ne_nil _ (List.cons_ne_nil _ _))
  first _ := h.incumbent_mem
  arm hnil := absurd hnil (List.append_ne_nil_of_right_ne_nil _ (List.cons_ne_nil _ _))
  evidence := h.candidate_mem hcounted
  resting remaining hrest := by
    rw [hcounted.phase] at hrest
    obtain ⟨harm, hnot, hdry⟩ := h.resting remaining hrest
    refine ⟨?_, ?_, hdry⟩
    · rw [hcounted.stays (by rw [hrest]; exact Phase.noConfusion), harm]
    · rw [List.mem_append, harm, List.mem_singleton, not_or]
      exact ⟨hnot, Arm.noConfusion⟩
  experimenting hphase := by
    rw [hcounted.phase] at hphase
    have hturn := hcounted.turns hphase hdiffer
    rcases harm : c.arm
    · rw [harm] at hturn
      refine .inr (.inl ?_)
      rcases harm' : c'.arm
      · exact absurd harm' hturn
      · rfl
    · exact .inl (List.mem_append_right _ (List.mem_singleton_self _))

/-- A pass that counts and closes an experiment. -/
theorem Scheduled.closeEpoch (hs : settings.Sound) (hframed : Framed settings c') (h : Scheduled c log)
    (hcounted : Counted c c' sample) (hover : c'.epochOver sample = true) (hphase : c'.phase = .experiment) :
    Scheduled c'.closeEpoch.1 ⟨[], log.closed ++ [log.current ++ [c.arm]]⟩ := by
  obtain ⟨hclosed, hfresh, hrests⟩ := hframed.closeEpoch hs hphase
  have hlast : dryRun (log.closed ++ [log.current ++ [c.arm]]) ≤ MAX_REST_EPOCHS := by
    rw [dryRun_concat]
    split_ifs with hboth
    · exact Nat.zero_le _
    · rw [hcounted.phase] at hphase
      rcases h.experimenting hphase with hmem | harm | hnil | hdry
      · exact absurd ⟨h.incumbent_mem, List.mem_append_left _ hmem⟩ hboth
      · refine absurd ⟨h.incumbent_mem, ?_⟩ hboth
        rw [harm]
        exact List.mem_append_right _ (List.mem_singleton_self _)
      · -- an epoch does not end with the pass it starts with
        rw [epochOver, hcounted.epochStart, h.opened.mpr hnil] at hover
        simp at hover
      · exact hdry
  refine scheduled_fresh hfresh (prefixes_concat h.dry hlast) fun remaining hrest => ?_
  rcases hrests with hexperiment | hsamples
  · rw [hexperiment] at hrest
    cases hrest
  · rw [dryRun_concat, if_pos ⟨h.incumbent_mem, h.candidate_mem hcounted hsamples⟩, Nat.zero_add]
    exact (hclosed.rest remaining hrest).2

/-- A pass that counts and closes a rest epoch. -/
theorem Scheduled.closeRestEpoch (hs : settings.Sound) (hframed : Framed settings c') (h : Scheduled c log)
    (hcounted : Counted c c' sample) {r : Nat} (hphase : c'.phase = .rest r) :
    Scheduled (c'.closeRestEpoch r).1 ⟨[], log.closed ++ [log.current ++ [c.arm]]⟩ := by
  obtain ⟨-, hfresh, hrests⟩ := hframed.closeRestEpoch hs hphase
  have hpos := (hframed.rest r hphase).1
  rw [hcounted.phase] at hphase
  obtain ⟨harm, hnot, hdry⟩ := h.resting r hphase
  have hboth : ¬ BothArms (log.current ++ [c.arm]) := by
    rintro ⟨-, hmem⟩
    rw [List.mem_append, harm, List.mem_singleton] at hmem
    exact hmem.elim hnot Arm.noConfusion
  have hlast : dryRun (log.closed ++ [log.current ++ [c.arm]]) = dryRun log.closed + 1 := by
    rw [dryRun_concat, if_neg hboth]
  refine scheduled_fresh hfresh (prefixes_concat h.dry (by omega)) fun remaining hrest => ?_
  rcases hrests with hexperiment | ⟨hgo, hnext⟩
  · rw [hexperiment] at hrest
    cases hrest
  · rw [hnext] at hrest
    cases hrest
    omega

/-- A pass that counts, in an epoch that goes on or is closed. -/
theorem Scheduled.counts (hs : settings.Sound) (hframed : Framed settings c)
    (hdiffer : c.candidate ≠ c.incumbent) (h : Scheduled c log)
    (hjudge : c.judge sample = .counts c') (hcounted : Counted c c' sample) :
    Scheduled (c.observe sample).1 (log.record c sample) := by
  have hframed' := hframed.count hcounted
  rw [record_of_counts hjudge]
  rcases observe_of_counts hjudge with ⟨-, heq⟩ | ⟨hover, ⟨hphase, heq⟩ | ⟨r, hphase, heq⟩⟩
  · rw [heq, hcounted.epochStart, Option.isNone_some, if_neg Bool.false_ne_true]
    exact h.goesOn hdiffer hcounted
  · rw [heq, (hframed'.closeEpoch hs hphase).2.1.epochStart, Option.isNone_none, if_pos rfl]
    exact h.closeEpoch hs hframed' hcounted hover hphase
  · rw [heq, (hframed'.closeRestEpoch hs hphase).2.1.epochStart, Option.isNone_none, if_pos rfl]
    exact h.closeRestEpoch hs hframed' hcounted hphase

end

theorem Scheduled.record (hs : settings.Sound) (hframed : Framed settings c)
    (hdiffer : c.candidate ≠ c.incumbent) (h : Scheduled c log) (sample : FlowSample) :
    Scheduled (c.observe sample).1 (log.record c sample) := by
  rcases judge_cases c sample with ⟨c', adjustment, hjudge, hsame⟩ |
    ⟨c', cause, hsame, hcool, hjudge⟩ | ⟨c', hsame, hjudge⟩
  · have hsame' := h.same hsame
    rw [record_of_ends hjudge, observe_of_ends hjudge]
    split_ifs with hnone
    · rw [Option.isNone_iff_eq_none] at hnone
      have hlog : (⟨[], log.closed⟩ : EpochLog) = log := by rw [← hsame'.opened.mp hnone]
      rw [hlog]
      exact hsame'
    · exact hsame'
  · rw [record_of_ends hjudge, observe_of_ends hjudge]
    exact (h.same hsame).backOff hs (hframed.of_same hsame) hcool cause
  · have hcount := counted_count c' sample
    refine h.counts hs hframed hdiffer hjudge ?_
    exact ⟨hcount.settings.trans hsame.settings, hcount.incumbent.trans hsame.incumbent,
      hcount.candidate.trans hsame.candidate, hcount.phase.trans hsame.phase,
      hcount.ceiling.trans hsame.ceiling, by rw [hcount.epochStart, hsame.epochStart],
      by rw [hcount.samples, hsame.candidateStats, hsame.arm],
      fun hphase hne => hsame.arm ▸ hcount.turns (hsame.phase.trans hphase)
        (by rw [hsame.candidate, hsame.incumbent]; exact hne),
      fun hphase => (hcount.stays (hsame.phase ▸ hphase)).trans hsame.arm⟩

end FlowController

open FlowController

section
variable {settings : FlowSettings}

theorem runFlow_concat (samples : List FlowSample) (sample : FlowSample) :
    runFlow settings (samples ++ [sample]) =
      (((runFlow settings samples).1.observe sample).1,
        (runFlow settings samples).2.record (runFlow settings samples).1 sample) := by
  rw [runFlow, List.foldl_append]
  rfl

/-- Over any run, a search that starts in range is framed. -/
theorem framed_runFlow (hs : settings.Sound) (h : InRange settings (startSize settings))
    (samples : List FlowSample) : Framed settings (runFlow settings samples).1 := by
  induction samples using List.reverseRecOn with
  | nil => exact framed_new hs h
  | append_singleton samples sample ih =>
    rw [runFlow_concat]
    exact ih.observe hs sample

/-- Over a run whose arms differ all along, epochs are scheduled as they should be. -/
theorem scheduled_runFlow (hs : settings.Sound) (h : InRange settings (startSize settings))
    (samples : List FlowSample)
    (hdiffer : ∀ n, (runFlow settings (samples.take n)).1.candidate ≠
      (runFlow settings (samples.take n)).1.incumbent) :
    Scheduled (runFlow settings samples).1 (runFlow settings samples).2 := by
  induction samples using List.reverseRecOn with
  | nil => exact scheduled_new
  | append_singleton samples sample ih =>
    have hprefix : ∀ n, ∃ m, samples.take n = (samples ++ [sample]).take m := fun n =>
      ⟨min n samples.length, by rw [List.take_append_of_le_length (min_le_right _ _),
        List.take_eq_take_iff]; omega⟩
    have hbefore : ∀ n, (runFlow settings (samples.take n)).1.candidate ≠
        (runFlow settings (samples.take n)).1.incumbent := by
      intro n
      obtain ⟨m, hm⟩ := hprefix n
      rw [hm]
      exact hdiffer m
    have hlast := hbefore samples.length
    rw [List.take_length] at hlast
    rw [runFlow_concat]
    exact (ih hbefore).record hs (framed_runFlow hs h samples) hlast sample

end

/-! ## When every size moves -/

section
variable {settings : FlowSettings} {n : Nat}

theorem lt_roundRows_iff {q : ℚ} : n < roundRows q ↔ (n : ℚ) + 1 / 2 ≤ q := by
  rw [roundRows, Int.lt_toNat, ← Int.add_one_le_iff, Rat.le_floor_iff]
  push_cast
  constructor <;> intro h <;> linarith

theorem upSize_eq (hs : settings.Sound) (n : Nat) : upSize settings n =
    max settings.minRows (min (max (roundRows (n * settings.growthFactor)) 1)
      settings.maxRows) := hs.clampRows_eq _

theorem downSize_eq (hs : settings.Sound) (n : Nat) : downSize settings n =
    max settings.minRows (min (max (roundRows (n / settings.growthFactor)) 1)
      settings.maxRows) := hs.clampRows_eq _

/-- A size below the largest one steps up when growth gives it half a row at least. -/
theorem moves_of_lt (hs : settings.Sound) (hlt : n < settings.maxRows)
    (h : 1 / 2 ≤ (n : ℚ) * (settings.growthFactor - 1)) : Moves settings n := by
  have hround : n < roundRows (n * settings.growthFactor) := by
    rw [lt_roundRows_iff]
    linarith
  refine .inl ?_
  rw [upSize_eq hs]
  omega

/-- The smallest size cannot step down, and steps up only so. -/
theorem growth_of_moves (hs : settings.Sound) (h : Moves settings settings.minRows) :
    1 / 2 ≤ (settings.minRows : ℚ) * (settings.growthFactor - 1) := by
  have hone := hs.one_le_min
  have hmax := hs.min_le_max
  have hpos : (0 : ℚ) < settings.minRows := by exact_mod_cast hone
  rcases h with hup | hdown
  · rw [upSize_eq hs] at hup
    have hround : settings.minRows < roundRows (settings.minRows * settings.growthFactor) := by
      omega
    rw [lt_roundRows_iff] at hround
    linarith
  · exfalso
    have hround : ¬ settings.minRows < roundRows (settings.minRows / settings.growthFactor) := by
      rw [lt_roundRows_iff, not_le]
      have := div_lt_self hpos hs.growth
      linarith
    rw [downSize_eq hs] at hdown
    omega

/-- The largest size steps down when the smallest one steps up. -/
theorem moves_max (hs : settings.Sound) (hlt : settings.minRows < settings.maxRows)
    (h : 1 / 2 ≤ (settings.minRows : ℚ) * (settings.growthFactor - 1)) :
    Moves settings settings.maxRows := by
  have hone := hs.one_le_min
  have hgrowth := hs.growth
  have hsucc : (settings.minRows : ℚ) + 1 ≤ settings.maxRows := by exact_mod_cast hlt
  have hstep : ((settings.minRows : ℚ) + 1) * (settings.growthFactor - 1) ≤
      settings.maxRows * (settings.growthFactor - 1) :=
    mul_le_mul_of_nonneg_right hsucc (by linarith)
  have hround : ¬ settings.maxRows - 1 < roundRows (settings.maxRows / settings.growthFactor) := by
    rw [lt_roundRows_iff, not_le, div_lt_iff₀ (by linarith), Nat.cast_sub (by omega), Nat.cast_one]
    linarith
  refine .inr ?_
  rw [downSize_eq hs]
  omega

/-- Every size of the range moves exactly when the smallest one does, upwards. -/
theorem moves_everywhere_iff (hs : settings.Sound) (hlt : settings.minRows < settings.maxRows) :
    (∀ n, InRange settings n → Moves settings n) ↔
      1 / 2 ≤ (settings.minRows : ℚ) * (settings.growthFactor - 1) := by
  refine ⟨fun h => growth_of_moves hs (h _ ⟨le_refl _, hlt.le⟩), fun h n hn => ?_⟩
  rcases hn.2.lt_or_eq with hless | rfl
  · refine moves_of_lt hs hless (h.trans ?_)
    have hle : (settings.minRows : ℚ) ≤ n := by exact_mod_cast hn.1
    exact mul_le_mul_of_nonneg_right hle (by linarith [hs.growth])
  · exact moves_max hs hlt h

end

/-! ## Any run -/

/-- For accepted settings and any run of passes: every state it reaches searches, and experiments
with both arms come up in any seventeen epochs that are closed one after the other, exactly when
the size it starts from is in range and no state without a ceiling has an incumbent that both
rounded steps come back to. Where the range has two sizes, none of its sizes is like that exactly
when growth gives the smallest one half a row at least. -/
theorem flow_search_iff (fmt : ℚ → String) (what : String) (config inherited : FlowControlConfig)
    (defaults : FlowSettings)
    (hdefaults : defaults = .default ∨ defaults = .streamDefaults)
    (haccepted : config.validate fmt inherited what = .ok ()) (samples : List FlowSample) :
    let settings := config.resolve inherited defaults
    ((∀ n, Searching settings (runFlow settings (samples.take n)).1) ∧
        ExperimentsRecur (runFlow settings samples).2.closed ↔
      InRange settings (startSize settings) ∧
        ∀ n, (runFlow settings (samples.take n)).1.ceiling = none →
          Moves settings (runFlow settings (samples.take n)).1.incumbent) ∧
    (settings.minRows < settings.maxRows →
      ((∀ n, InRange settings n → Moves settings n) ↔
        1 / 2 ≤ (settings.minRows : ℚ) * (settings.growthFactor - 1))) := by
  intro settings
  have hs : settings.Sound := by
    refine FlowControlConfig.sound_of_validate ?_ haccepted
    rcases hdefaults with rfl | rfl
    · exact FlowSettings.sound_default
    · exact FlowSettings.sound_streamDefaults
  refine ⟨⟨fun ⟨hsearch, _⟩ => ?_, fun ⟨hstart, hmoves⟩ => ?_⟩, moves_everywhere_iff hs⟩
  · have hstart : InRange settings (startSize settings) := by
      have h := (hsearch 0).incumbent
      rwa [List.take_zero, runFlow, List.foldl_nil, new, proposeCandidate_incumbent] at h
    exact ⟨hstart, fun n => (framed_runFlow hs hstart _).searching_iff.mp (hsearch n)⟩
  · have hsearch : ∀ n, Searching settings (runFlow settings (samples.take n)).1 :=
      fun n => (framed_runFlow hs hstart _).searching_iff.mpr (hmoves n)
    refine ⟨hsearch, experimentsRecur_of_dryRun ?_⟩
    exact (scheduled_runFlow hs hstart samples fun n => (hsearch n).differ).dry

namespace FlowRuns

/-- A growth that rounds back to the smallest size. -/
def slowGrowth : FlowControlConfig where
  minRows := some 1
  maxRows := some 4
  startRows := some 1
  growthFactor := some (5 / 4)

/-- The search starts with two equal arms, and no pass can be one of the candidate. -/
theorem slow_growth_stuck :
    slowGrowth.validate (fun _ => "") {} "flow_control" = .ok () ∧
      ¬ Searching (slowGrowth.resolve {} .default)
        (runFlow (slowGrowth.resolve {} .default) []).1 := by
  refine ⟨by decide +kernel, fun h => h.differ ?_⟩
  decide +kernel

/-- A pass of ten rows in a second. -/
def pass : FlowSample := ⟨10, 1000000000, 0, none, false, 0⟩

theorem defaults_search :
    (∀ n, Searching (FlowControlConfig.resolve {} {} .default)
        (runFlow (FlowControlConfig.resolve {} {} .default) ([pass].take n)).1) ∧
      ExperimentsRecur (runFlow (FlowControlConfig.resolve {} {} .default) [pass]).2.closed := by
  refine (flow_search_iff (fun _ => "") "flow_control" {} {} .default (.inl rfl) rfl [pass]).1.mpr
    ⟨by decide +kernel, fun n _ => ?_⟩
  rcases n with _ | n
  · decide +kernel
  · rw [List.take_succ_cons, List.take_nil]
    decide +kernel

end FlowRuns
end Saci
