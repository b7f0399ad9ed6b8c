import Mathlib.Algebra.Order.Field.Rat
import Mathlib.Tactic.NormNum
import Saci.Core.Error

/-!
# Flow-control settings

The `flow_control` block (`saci-service/src/service/config.rs`): what it may say, what it comes to
over the block it inherits from, and the settings a controller gets (`flow.rs`). Factors and
thresholds are exact rationals. The host is a 64-bit one, where a declared row count is a `usize`.
-/

namespace Saci

/-- `FlowSettings`. -/
structure FlowSettings where
  minRows : Nat
  maxRows : Nat
  startRows : Nat
  maxChunkBytes : Nat
  targetLatencyMs : Nat
  adjustIntervalMs : Nat
  growthFactor : ℚ
  improveThreshold : ℚ
  minSamplesPerArm : Nat
  settleAfterEpochs : Nat
  backoffFactor : ℚ
  backoffCooldown : Nat
  fixedRows : Option Nat
  enabled : Bool

namespace FlowSettings

/-- The batch-mode policy. -/
def default : FlowSettings where
  minRows := 1024
  maxRows := 65536
  startRows := 4096
  maxChunkBytes := 8 * 1024 * 1024
  targetLatencyMs := 0
  adjustIntervalMs := 60000
  growthFactor := 2
  improveThreshold := 1 / 20
  minSamplesPerArm := 4
  settleAfterEpochs := 3
  backoffFactor := 2
  backoffCooldown := 4
  fixedRows := none
  enabled := true

/-- The stream-mode policy. -/
def streamDefaults : FlowSettings := { default with targetLatencyMs := 250 }

end FlowSettings

/-- `FlowControlConfig`: the keys of a block, all of them optional. -/
structure FlowControlConfig where
  enabled : Option Bool := none
  minRows : Option Nat := none
  maxRows : Option Nat := none
  startRows : Option Nat := none
  maxChunkBytes : Option Nat := none
  targetLatencyMs : Option Nat := none
  adjustIntervalMs : Option Nat := none
  growthFactor : Option ℚ := none
  improveThreshold : Option ℚ := none
  minSamplesPerArm : Option Nat := none
  settleAfterEpochs : Option Nat := none
  backoffFactor : Option ℚ := none
  backoffCooldown : Option Nat := none
  rows : Option Nat := none

/-- `declared_count`: a count as a `u32`, saturating. -/
def declaredCount (declared : Option Nat) (default : Nat) : Nat :=
  match declared with
  | some count => min count 4294967295
  | none => default

namespace FlowControlConfig

/-- `resolve`: this block wins, then the inherited one, then the defaults. -/
def resolve (config inherited : FlowControlConfig) (defaults : FlowSettings) : FlowSettings :=
  let minRows := max ((config.minRows <|> inherited.minRows).getD defaults.minRows) 1
  let maxRows := max ((config.maxRows <|> inherited.maxRows).getD defaults.maxRows) minRows
  let startRows := (config.startRows <|> inherited.startRows).getD defaults.startRows
  { minRows
    maxRows
    startRows := max minRows (min startRows maxRows)
    maxChunkBytes :=
      (config.maxChunkBytes <|> inherited.maxChunkBytes).getD defaults.maxChunkBytes
    targetLatencyMs :=
      (config.targetLatencyMs <|> inherited.targetLatencyMs).getD defaults.targetLatencyMs
    adjustIntervalMs :=
      (config.adjustIntervalMs <|> inherited.adjustIntervalMs).getD defaults.adjustIntervalMs
    growthFactor := (config.growthFactor <|> inherited.growthFactor).getD defaults.growthFactor
    improveThreshold :=
      (config.improveThreshold <|> inherited.improveThreshold).getD defaults.improveThreshold
    minSamplesPerArm := declaredCount (config.minSamplesPerArm <|> inherited.minSamplesPerArm)
      defaults.minSamplesPerArm
    settleAfterEpochs := declaredCount (config.settleAfterEpochs <|> inherited.settleAfterEpochs)
      defaults.settleAfterEpochs
    backoffFactor := (config.backoffFactor <|> inherited.backoffFactor).getD defaults.backoffFactor
    backoffCooldown := declaredCount (config.backoffCooldown <|> inherited.backoffCooldown)
      defaults.backoffCooldown
    fixedRows := (config.rows <|> inherited.rows).map fun rows => max rows 1
    enabled := (config.enabled <|> inherited.enabled).getD defaults.enabled }

/-- One of the two factors. `fmt` is how a number shows in a message. -/
def checkFactor (fmt : ℚ → String) (what key : String) (factor : Option ℚ) : SaciResult Unit :=
  match factor with
  | some factor =>
    if factor ≤ 1 then
      .error <| .configuration
        s!"{what}: {key} must be a finite number greater than 1.0, got {fmt factor}"
    else .ok ()
  | none => .ok ()

/-- A key that must not be zero. -/
def checkPositive (what text : String) (value : Option Nat) : SaciResult Unit :=
  if value = some 0 then .error (.configuration s!"{what}: {text}") else .ok ()

/-- The row range that takes effect. -/
def checkRange (what : String) (minRows maxRows startRows : Option Nat) : SaciResult Unit :=
  let effectiveMin := max (minRows.getD FlowSettings.default.minRows) 1
  let effectiveMax := maxRows.getD FlowSettings.default.maxRows
  if (minRows.isSome || maxRows.isSome) ∧ effectiveMax < effectiveMin then
    .error <| .configuration <|
      s!"{what}: max_rows ({effectiveMax}) must be at least min_rows ({effectiveMin})"
  else
    let effectiveMax := max effectiveMax effectiveMin
    match startRows with
    | some start =>
      if start < effectiveMin ∨ effectiveMax < start then
        .error <| .configuration <|
          s!"{what}: start_rows ({start}) must be within " ++
          s!"min_rows ({effectiveMin})..=max_rows ({effectiveMax})"
      else .ok ()
    | none => .ok ()

def checkThreshold (fmt : ℚ → String) (what : String) (threshold : Option ℚ) : SaciResult Unit :=
  match threshold with
  | some threshold =>
    if 0 ≤ threshold ∧ threshold < 1 then .ok ()
    else
      .error <| .configuration
        s!"{what}: improve_threshold must be within 0.0..1.0, got {fmt threshold}"
  | none => .ok ()

/-- `validate`: this block on its own and against what it inherits. -/
def validate (fmt : ℚ → String) (config inherited : FlowControlConfig) (what : String) :
    SaciResult Unit := do
  if config.rows.isSome ∧
      (config.minRows.isSome || config.maxRows.isSome || config.startRows.isSome) then
    .error <| .configuration <|
      s!"{what}: rows pins a fixed size and cannot be combined with " ++
      "min_rows/max_rows/start_rows; declare one intent or the other"
  else
    checkPositive what "min_rows must be at least 1" (config.minRows <|> inherited.minRows)
    checkPositive what "rows must be at least 1" (config.rows <|> inherited.rows)
    checkRange what (config.minRows <|> inherited.minRows) (config.maxRows <|> inherited.maxRows)
      (config.startRows <|> inherited.startRows)
    let adaptive :=
      (config.rows <|> inherited.rows).isNone && (config.enabled <|> inherited.enabled).getD true
    (if adaptive then
      checkPositive what "adjust_interval_ms must be at least 1; it paces adjustment decisions"
        (config.adjustIntervalMs <|> inherited.adjustIntervalMs)
    else .ok ())
    checkFactor fmt what "growth_factor" (config.growthFactor <|> inherited.growthFactor)
    checkFactor fmt what "backoff_factor" (config.backoffFactor <|> inherited.backoffFactor)
    checkThreshold fmt what (config.improveThreshold <|> inherited.improveThreshold)
    checkPositive what "min_samples_per_arm must be at least 1"
      (config.minSamplesPerArm <|> inherited.minSamplesPerArm)

end FlowControlConfig

/-! ## What validation accepts -/

/-- Settings a controller can work with. -/
structure FlowSettings.Sound (settings : FlowSettings) : Prop where
  one_le_min : 1 ≤ settings.minRows
  min_le_max : settings.minRows ≤ settings.maxRows
  growth : 1 < settings.growthFactor
  backoff : 1 < settings.backoffFactor
  samples : 1 ≤ settings.minSamplesPerArm

section
variable {fmt : ℚ → String} {config inherited : FlowControlConfig} {what : String}
  {defaults : FlowSettings}

theorem FlowControlConfig.checkFactor_eq_ok {key : String} {factor : Option ℚ} :
    checkFactor fmt what key factor = .ok () ↔ ∀ q ∈ factor, 1 < q := by
  rcases factor with _ | q
  · simp [checkFactor]
  · rw [checkFactor]
    split_ifs with h
    · simp [h]
    · simpa using h

theorem FlowControlConfig.checkPositive_eq_ok {text : String} {value : Option Nat} :
    checkPositive what text value = .ok () ↔ ∀ n ∈ value, 1 ≤ n := by
  rcases value with _ | n
  · simp [checkPositive]
  · rw [checkPositive]
    split_ifs with h
    · simp [Option.some.inj h]
    · simp only [Option.mem_def, Option.some.injEq, forall_eq', true_iff]
      exact Nat.one_le_iff_ne_zero.mpr fun hzero => h (hzero ▸ rfl)

theorem getD_of_forall {α : Type} {p : α → Prop} {value : Option α} {default : α}
    (h : ∀ a ∈ value, p a) (hdefault : p default) : p (value.getD default) := by
  rcases value with _ | a
  · exact hdefault
  · exact h a rfl

theorem FlowSettings.sound_default : default.Sound := by
  constructor <;> norm_num [default]

theorem FlowSettings.sound_streamDefaults : streamDefaults.Sound := by
  constructor <;> norm_num [streamDefaults, default]

/-- The settings of an accepted block are sound. -/
theorem FlowControlConfig.sound_of_validate (hdefaults : defaults.Sound)
    (h : config.validate fmt inherited what = .ok ()) :
    (config.resolve inherited defaults).Sound := by
  rw [validate] at h
  split_ifs at h
  obtain ⟨-, -, h⟩ := bind_eq_ok_iff.mp h
  obtain ⟨-, -, h⟩ := bind_eq_ok_iff.mp h
  obtain ⟨-, -, h⟩ := bind_eq_ok_iff.mp h
  obtain ⟨-, -, h⟩ := bind_eq_ok_iff.mp h
  obtain ⟨⟨⟩, hgrowth, h⟩ := bind_eq_ok_iff.mp h
  obtain ⟨⟨⟩, hbackoff, h⟩ := bind_eq_ok_iff.mp h
  obtain ⟨-, -, hsamples⟩ := bind_eq_ok_iff.mp h
  refine ⟨le_max_right _ _, le_max_right _ _, ?_, ?_, ?_⟩
  · exact getD_of_forall (checkFactor_eq_ok.mp hgrowth) hdefaults.growth
  · exact getD_of_forall (checkFactor_eq_ok.mp hbackoff) hdefaults.backoff
  · have hall := checkPositive_eq_ok.mp hsamples
    simp only [resolve, declaredCount]
    rcases hcount : config.minSamplesPerArm <|> inherited.minSamplesPerArm with _ | count
    · exact hdefaults.samples
    · exact le_min (hall count hcount) (by norm_num)

end
end Saci
