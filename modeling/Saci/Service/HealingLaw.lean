import Saci.Service.Healing
import Saci.Library.Run
import Mathlib.Data.List.Induction

/-!
# The budget of self-healing

A rebuild is provoked by the failures of its outage, comes no earlier than it was scheduled, and the
attempts of an outage are numbered in turn, up to the budget. The numbers are of 32 bits: past the last of
them the count starts over, and so does the budget (`paced_source_iff`, `paced_sink_iff`).
-/

namespace Saci

/-! ## Outages -/

namespace HealEvent

def isRebuilt : HealEvent → Bool
  | .rebuilt .. => true
  | _ => false

end HealEvent

/-- What has happened since the last operation that succeeded. -/
def outage (log : List HealEvent) : List HealEvent := log.rtakeWhile fun event => event ≠ .succeeded

def rebuilds (events : List HealEvent) : Nat := events.countP HealEvent.isRebuilt

def failures (events : List HealEvent) : Nat := events.count .failed

/-- The last rebuild failed, or did not hold. -/
def Unheld (since : List HealEvent) : Prop :=
  ∃ before attempt now failure after, since = before ++ .rebuilt attempt now failure :: after ∧
    rebuilds after = 0 ∧ (failure.isSome = true ∨ .failed ∈ after)

/-- An outage gives cause for a rebuild. -/
def Provoked (settings : HealSettings) (since : List HealEvent) : Prop :=
  rebuilds since = 0 ∧ settings.afterFailures.toNat ≤ failures since ∨ Unheld since

/-- The attempt was scheduled for an instant, and only failures came after. -/
def ScheduledFor (since : List HealEvent) (attempt : UInt32) (due : Nat) : Prop :=
  ∃ before after, since = before ++ .scheduled attempt due :: after ∧ ∀ event ∈ after, event = .failed

/-- A rebuild as it is to be: provoked, at or after its instant, the next in number of its outage, and
within the budget. -/
structure InTurn (settings : HealSettings) (since : List HealEvent) (attempt : UInt32) (now : Nat) : Prop where
  provoked : Provoked settings since
  scheduled : ∃ due ≤ now, ScheduledFor since attempt due
  number : attempt.toNat = rebuilds since + 1
  budget : settings.maxAttempts = 0 ∨ rebuilds since + 1 ≤ settings.maxAttempts.toNat

/-- What holds of every rebuild in the log, told what had happened in its outage, its number and its instant. -/
def AtRebuilds (P : List HealEvent → UInt32 → Nat → Prop) (log : List HealEvent) : Prop :=
  ∀ before attempt now failure after, log = before ++ .rebuilt attempt now failure :: after →
    P (outage before) attempt now

/-- The last rebuild has failed, and its reason is on record. -/
def Grounded (healer : Healer) : Prop :=
  ∃ reason before attempt now after, healer.down = some reason ∧
    healer.log = before ++ .rebuilt attempt now (some reason) :: after ∧ rebuilds after = 0

/-- Every rebuild is in turn, and there is no instance only where the last rebuild has failed. -/
structure Paced {κ : Type} (node : Healing κ) : Prop where
  inTurn : AtRebuilds (InTurn node.healer.settings) node.healer.log
  grounded : node.inner = none → Grounded node.healer

theorem outage_concat {log : List HealEvent} {event : HealEvent} (h : event ≠ .succeeded) :
    outage (log ++ [event]) = outage log ++ [event] :=
  List.rtakeWhile_concat_pos _ _ _ (decide_eq_true h)

theorem outage_succeeded (log : List HealEvent) : outage (log ++ [.succeeded]) = [] :=
  List.rtakeWhile_concat_neg _ _ _ (by decide)

theorem rebuilds_append (events more : List HealEvent) :
    rebuilds (events ++ more) = rebuilds events + rebuilds more := List.countP_append

theorem failures_append (events more : List HealEvent) :
    failures (events ++ more) = failures events + failures more := List.count_append

section
variable {settings : HealSettings} {since : List HealEvent} {event : HealEvent}

theorem Unheld.concat (h : Unheld since) (hevent : event.isRebuilt = false) : Unheld (since ++ [event]) := by
  obtain ⟨before, attempt, now, failure, after, rfl, hnone, hcause⟩ := h
  refine ⟨before, attempt, now, failure, after ++ [event], by rw [List.append_assoc, List.cons_append], ?_, ?_⟩
  · rw [rebuilds_append, hnone, rebuilds, List.countP_singleton, hevent]
    rfl
  · exact hcause.imp_right (List.mem_append_left _)

theorem rebuilds_concat (hevent : event.isRebuilt = false) : rebuilds (since ++ [event]) = rebuilds since := by
  rw [rebuilds_append, rebuilds, rebuilds, List.countP_singleton, hevent]
  rfl

theorem Provoked.concat (h : Provoked settings since) (hevent : event.isRebuilt = false) :
    Provoked settings (since ++ [event]) := by
  refine h.imp (fun ⟨hnone, hfailures⟩ => ⟨?_, ?_⟩) (·.concat hevent)
  · rw [rebuilds_concat hevent, hnone]
  · rw [failures_append]
    exact hfailures.trans (Nat.le_add_right _ _)

end

/-! ## What holds of a healer -/

/-- A rebuild as it is: in turn, but for its number, which is of 32 bits. -/
structure Attempted (settings : HealSettings) (since : List HealEvent) (attempt : UInt32) (now : Nat) : Prop where
  provoked : Provoked settings since
  scheduled : ∃ due ≤ now, ScheduledFor since attempt due
  number : attempt.toNat = (rebuilds since + 1) % 2 ^ 32
  budget : settings.maxAttempts = 0 ∨ attempt ≤ settings.maxAttempts

/-- Where a healer stands in its outage. -/
def Stands (settings : HealSettings) (since : List HealEvent) : HealState → Prop
  | .healthy => since = []
  | .failing consecutive =>
    rebuilds since = 0 ∧ failures since = consecutive.toNat ∧ consecutive < settings.afterFailures
  | .scheduled attempt due =>
    Provoked settings since ∧ ScheduledFor since attempt due ∧
      attempt.toNat = (rebuilds since + 1) % 2 ^ 32 ∧
      (settings.maxAttempts = 0 ∨ attempt ≤ settings.maxAttempts)
  | .probing attempt =>
    attempt.toNat = rebuilds since % 2 ^ 32 ∧ ∃ before now, since = before ++ [.rebuilt attempt now none]
  | .exhausted => True

structure Healer.Sound (settings : HealSettings) (healer : Healer) : Prop where
  settings_eq : healer.settings = settings
  stands : Stands settings (outage healer.log) healer.state
  /-- Every rebuild in the log was attempted as it should be, but for its number. -/
  logged : AtRebuilds (Attempted settings) healer.log

variable {settings : HealSettings} {healer : Healer} {attempt : UInt32} {clock : HealClock}

theorem atRebuilds_concat_iff {P : List HealEvent → UInt32 → Nat → Prop} {log : List HealEvent}
    {event : HealEvent} : AtRebuilds P (log ++ [event]) ↔ AtRebuilds P log ∧
      ∀ attempt now failure, event = .rebuilt attempt now failure → P (outage log) attempt now := by
  constructor
  · intro h
    refine ⟨fun before attempt now failure after hsplit => ?_, fun attempt now failure heq => ?_⟩
    · exact h before attempt now failure (after ++ [event])
        (by rw [hsplit, List.append_assoc, List.cons_append])
    · exact h log attempt now failure [] (by rw [heq])
  · rintro ⟨h, hevent⟩ before attempt now failure after hsplit
    rcases List.eq_nil_or_concat after with rfl | ⟨after, last, rfl⟩
    · obtain ⟨rfl, hlast⟩ := List.append_inj' hsplit rfl
      exact hevent attempt now failure (List.singleton_inj.mp hlast)
    · rw [List.concat_eq_append, ← List.cons_append, ← List.append_assoc] at hsplit
      exact h before attempt now failure after (List.append_inj' hsplit rfl).1

theorem atRebuilds_other_iff {P : List HealEvent → UInt32 → Nat → Prop} {log : List HealEvent}
    {event : HealEvent} (hevent : event.isRebuilt = false) :
    AtRebuilds P (log ++ [event]) ↔ AtRebuilds P log := by
  refine atRebuilds_concat_iff.trans (and_iff_left fun attempt now failure heq => ?_)
  rw [heq] at hevent
  cases hevent

theorem atRebuilds_rebuilt_iff {P : List HealEvent → UInt32 → Nat → Prop} {log : List HealEvent} {now : Nat}
    {failure : Option String} : AtRebuilds P (log ++ [.rebuilt attempt now failure]) ↔
      AtRebuilds P log ∧ P (outage log) attempt now := by
  refine atRebuilds_concat_iff.trans (and_congr_right fun _ => ⟨fun h => h _ _ _ rfl, ?_⟩)
  intro h _ _ _ heq
  cases heq
  exact h

/-- Scheduling the next attempt of an outage that gives cause for it. -/
theorem Healer.sound_schedule (hsettings : healer.settings = settings)
    (hlogged : AtRebuilds (Attempted settings) healer.log)
    (hprovoked : Provoked settings (outage healer.log))
    (hnumber : attempt.toNat = (rebuilds (outage healer.log) + 1) % 2 ^ 32) :
    (healer.schedule attempt clock).Sound settings := by
  rw [Healer.schedule]
  split_ifs with hspent
  · exact ⟨hsettings, trivial, hlogged⟩
  · refine ⟨hsettings, ?_, (atRebuilds_other_iff rfl).mpr hlogged⟩
    have houtage := @outage_concat healer.log (.scheduled attempt
      (clock.now + healer.settings.delayFor attempt clock.drawn * 1000000)) nofun
    rw [Healer.record]
    dsimp only [Stands]
    rw [houtage, rebuilds_concat rfl]
    refine ⟨hprovoked.concat rfl, ⟨_, [], rfl, nofun⟩, hnumber, ?_⟩
    rw [not_and_or, not_not, hsettings, not_lt] at hspent
    exact hspent

theorem toNat_succ {n : Nat} (h : attempt.toNat = n % 2 ^ 32) : (attempt + 1).toNat = (n + 1) % 2 ^ 32 := by
  rw [UInt32.toNat_add, h]
  exact Nat.mod_add_mod n (2 ^ 32) 1

/-- An operation that fails. -/
theorem Healer.Sound.failure (h : healer.Sound settings) : (healer.failure clock).Sound settings := by
  have hlogged := (atRebuilds_other_iff (rfl : HealEvent.failed.isRebuilt = false)).mpr h.logged
  have houtage : outage (healer.record .failed).log = outage healer.log ++ [.failed] := outage_concat nofun
  have hstands := h.stands
  have hstate : (healer.record .failed).state = healer.state := rfl
  rw [Healer.failure, hstate]
  cases hhealer : healer.state with
  | healthy =>
    rw [hhealer] at hstands
    rw [show outage healer.log = [] from hstands] at houtage
    dsimp only
    split_ifs with hfew
    · refine Healer.sound_schedule h.settings_eq hlogged (.inl ?_) ?_
      · rw [houtage, ← h.settings_eq]
        exact ⟨rfl, UInt32.le_iff_toNat_le.mp hfew⟩
      · rw [houtage]
        rfl
    · refine ⟨h.settings_eq, ?_, hlogged⟩
      dsimp only [Stands]
      rw [houtage, ← h.settings_eq]
      exact ⟨rfl, rfl, not_le.mp hfew⟩
  | failing consecutive =>
    rw [hhealer] at hstands
    obtain ⟨hnone, hfailures, hlt⟩ := hstands
    have hcount : failures (outage healer.log ++ [.failed]) = (consecutive + 1).toNat := by
      rw [failures_append, hfailures, UInt32.toNat_add, Nat.mod_eq_of_lt]
      · rfl
      · have hlt := UInt32.lt_iff_toNat_lt.mp hlt
        have hbound := settings.afterFailures.toNat_lt
        have hone : (1 : UInt32).toNat = 1 := rfl
        omega
    have hnone' : rebuilds (outage healer.log ++ [.failed]) = 0 := (rebuilds_concat rfl).trans hnone
    dsimp only
    split_ifs with hfew
    · refine Healer.sound_schedule h.settings_eq hlogged (.inl ?_) ?_
      · rw [houtage, ← h.settings_eq, hcount]
        exact ⟨hnone', UInt32.le_iff_toNat_le.mp hfew⟩
      · rw [houtage, hnone']
        rfl
    · refine ⟨h.settings_eq, ?_, hlogged⟩
      dsimp only [Stands]
      rw [houtage, ← h.settings_eq]
      exact ⟨hnone', hcount, not_le.mp hfew⟩
  | scheduled attempt due =>
    rw [hhealer] at hstands
    obtain ⟨hprovoked, ⟨before, after, hsince, hafter⟩, hnumber, hbudget⟩ := hstands
    refine ⟨h.settings_eq, ?_, hlogged⟩
    rw [hstate, hhealer]
    dsimp only [Stands]
    rw [houtage, rebuilds_concat rfl]
    refine ⟨hprovoked.concat rfl, ⟨before, after ++ [.failed], ?_, ?_⟩, hnumber, hbudget⟩
    · rw [hsince, List.append_assoc, List.cons_append]
    · rintro event hevent
      rcases List.mem_append.mp hevent with hold | hnew
      · exact hafter event hold
      · exact List.mem_singleton.mp hnew
  | probing attempt =>
    rw [hhealer] at hstands
    obtain ⟨hnumber, before, now, hsince⟩ := hstands
    refine Healer.sound_schedule h.settings_eq hlogged (.inr ?_) ?_
    · rw [houtage, hsince]
      refine ⟨before, attempt, now, none, [.failed], by rw [List.append_assoc]; rfl, rfl, .inr ?_⟩
      exact List.mem_singleton.mpr rfl
    · rw [houtage, rebuilds_concat rfl]
      exact toNat_succ hnumber
  | exhausted =>
    refine ⟨h.settings_eq, ?_, hlogged⟩
    rw [hstate, hhealer]
    trivial

/-- An operation that succeeds ends the outage. -/
theorem Healer.Sound.success (h : healer.Sound settings) : healer.success.Sound settings := by
  have hlogged := (atRebuilds_other_iff (rfl : HealEvent.succeeded.isRebuilt = false)).mpr h.logged
  have houtage : outage (healer.record .succeeded).log = [] := outage_succeeded healer.log
  have hstate : (healer.record .succeeded).state = healer.state := rfl
  rw [Healer.success, hstate]
  cases hhealer : healer.state with
  | healthy =>
    refine ⟨h.settings_eq, ?_, hlogged⟩
    rw [hstate, hhealer]
    exact houtage
  | failing consecutive => exact ⟨h.settings_eq, houtage, hlogged⟩
  | scheduled attempt due => exact ⟨h.settings_eq, houtage, hlogged⟩
  | probing attempt => exact ⟨h.settings_eq, houtage, hlogged⟩
  | exhausted => exact ⟨h.settings_eq, houtage, hlogged⟩

/-- An attempt that is due is in the state. -/
theorem Healer.due_eq_some {now : Nat} (h : healer.due now = some attempt) :
    ∃ due, healer.state = .scheduled attempt due ∧ due ≤ now := by
  unfold Healer.due at h
  split at h
  · rename_i due hstate
    split_ifs at h with hnow
    cases h
    exact ⟨due, hstate, hnow⟩
  · cases h

theorem Healer.Sound.attempted {now : Nat} (h : healer.Sound settings) (hdue : healer.due now = some attempt) :
    Attempted settings (outage healer.log) attempt now := by
  obtain ⟨due, hstate, hnow⟩ := Healer.due_eq_some hdue
  have hstands := h.stands
  rw [hstate] at hstands
  obtain ⟨hprovoked, hscheduled, hnumber, hbudget⟩ := hstands
  exact ⟨hprovoked, ⟨due, hnow, hscheduled⟩, hnumber, hbudget⟩

theorem rebuilds_rebuilt (since : List HealEvent) (now : Nat) (failure : Option String) :
    rebuilds (since ++ [.rebuilt attempt now failure]) = rebuilds since + 1 := rebuilds_append _ _

/-- A rebuild that lands. -/
theorem Healer.Sound.built {now : Nat} (h : healer.Sound settings) (hdue : healer.due now = some attempt) :
    (healer.built attempt now).Sound settings := by
  have hattempted := h.attempted hdue
  have houtage : outage (healer.log ++ [.rebuilt attempt now none]) =
    outage healer.log ++ [.rebuilt attempt now none] := outage_concat nofun
  refine ⟨h.settings_eq, ?_, atRebuilds_rebuilt_iff.mpr ⟨h.logged, hattempted⟩⟩
  rw [Healer.built, Healer.record]
  dsimp only [Stands]
  rw [houtage, rebuilds_rebuilt]
  exact ⟨hattempted.number, _, _, rfl⟩

/-- A rebuild that fails. -/
theorem Healer.Sound.buildFailed {now : Nat} (h : healer.Sound settings) (hdue : healer.due now = some attempt)
    (error : String) : (healer.buildFailed attempt now error clock).Sound settings := by
  have hattempted := h.attempted hdue
  have houtage : outage (healer.log ++ [.rebuilt attempt now (some error)]) =
    outage healer.log ++ [.rebuilt attempt now (some error)] := outage_concat nofun
  rw [Healer.buildFailed]
  refine Healer.sound_schedule h.settings_eq (atRebuilds_rebuilt_iff.mpr ⟨h.logged, hattempted⟩) (.inr ?_) ?_
  · rw [Healer.record]
    dsimp only
    rw [houtage]
    exact ⟨_, attempt, now, some error, [], rfl, rfl, .inl rfl⟩
  · rw [Healer.record]
    dsimp only
    rw [houtage, rebuilds_rebuilt]
    exact toNat_succ hattempted.number

/-! ## What holds of a node -/

namespace Healing
variable {κ α : Type} {instances : Instances κ} {node : Healing κ} {call : HealCall κ α}

/-- What holds of a node in every run. -/
structure Sound (settings : HealSettings) (node : Healing κ) : Prop where
  healer : node.healer.Sound settings
  grounded : node.inner = none → Grounded node.healer

theorem sound_new (inner : κ) (nodeId : String) :
    (Healing.new instances inner settings nodeId).Sound settings where
  healer := ⟨rfl, rfl, fun _ _ _ _ _ h => by cases (List.append_eq_nil_iff.mp h.symm).2⟩
  grounded := nofun

end Healing

theorem Healer.schedule_log : (healer.schedule attempt clock).log = healer.log ∨
    ∃ due, (healer.schedule attempt clock).log = healer.log ++ [.scheduled attempt due] := by
  rw [Healer.schedule]
  split_ifs
  · exact .inl rfl
  · exact .inr ⟨_, rfl⟩

theorem Healer.schedule_down : (healer.schedule attempt clock).down = healer.down := by
  rw [Healer.schedule]
  split_ifs <;> rfl

/-- A rebuild that fails leaves its reason. -/
theorem Healer.grounded_buildFailed {now : Nat} {error : String} :
    Grounded (healer.buildFailed attempt now error clock) := by
  rw [Healer.buildFailed]
  rcases Healer.schedule_log with hlog | ⟨due, hlog⟩
  · exact ⟨error, healer.log, attempt, now, [], Healer.schedule_down, hlog, rfl⟩
  · refine ⟨error, healer.log, attempt, now, [.scheduled (attempt + 1) due], Healer.schedule_down, ?_, rfl⟩
    rw [hlog, Healer.record, List.append_assoc]
    rfl

namespace Healing
variable {κ α : Type} {instances : Instances κ} {node : Healing κ} {call : HealCall κ α}

/-- What a call does at its head. -/
inductive HealsTo (node : Healing κ) (call : HealCall κ α) : Healing κ → Prop
  | undue : node.healer.due call.now = none → HealsTo node call node
  | failed {attempt : UInt32} (error : String) : node.healer.due call.now = some attempt →
    HealsTo node call
      { node with inner := none, healer := node.healer.buildFailed attempt call.now error call.clock }
  | built {attempt : UInt32} (inner : κ) : node.healer.due call.now = some attempt →
    HealsTo node call { node with inner := some inner, healer := node.healer.built attempt call.now }

theorem healsTo_healIfDue : HealsTo node call (node.healIfDue instances call) := by
  unfold healIfDue
  split
  · exact .undue ‹_›
  · split
    · exact .failed _ ‹_›
    · split
      · exact .failed _ ‹_›
      · exact .built _ ‹_›

theorem Sound.healIfDue (h : node.Sound settings) : (node.healIfDue instances call).Sound settings := by
  have hheals := @healsTo_healIfDue κ α instances node call
  generalize node.healIfDue instances call = healed at hheals ⊢
  cases hheals with
  | undue hdue => exact h
  | failed error hdue => exact ⟨h.healer.buildFailed hdue error, fun _ => Healer.grounded_buildFailed⟩
  | built inner hdue => exact ⟨h.healer.built hdue, nofun⟩

theorem Sound.delegate (h : node.Sound settings) : (node.delegate call).1.Sound settings := by
  unfold Healing.delegate
  split
  · exact h
  · rename_i inner hinner
    have hheld : node.inner ≠ none := by
      rw [hinner]
      nofun
    split
    · exact ⟨h.healer.success, fun hnone => absurd hnone hheld⟩
    · exact ⟨h.healer.failure, fun hnone => absurd hnone hheld⟩

end Healing

section
variable {κ : Type} {instances : Instances κ} {node : Healing κ}

theorem HealingSource.sound_step (input : SourceInput κ) (h : node.Sound settings) :
    (HealingSource.step instances node input).Sound settings := by
  cases input with
  | nextBatch call => exact h.healIfDue.delegate
  | requestBatchRows rows => exact ⟨h.healer, fun hnone => h.grounded (Option.map_eq_none_iff.mp hnone)⟩
  | finish call => exact h.delegate

theorem HealingSink.sound_step (input : SinkInput κ) (h : node.Sound settings) :
    (HealingSink.step instances node input).Sound settings := by
  cases input with
  | writeBatch call => exact h.healIfDue.delegate
  | finish call => exact h.delegate

theorem HealingSource.sound_run (inner : κ) (nodeId : String) (inputs : List (SourceInput κ)) :
    (HealingSource.run instances inner settings nodeId inputs).Sound settings :=
  List.foldlRecOn inputs _ (Healing.sound_new inner nodeId) fun _ h input _ => HealingSource.sound_step input h

theorem HealingSink.sound_run (inner : κ) (nodeId : String) (inputs : List (SinkInput κ)) :
    (HealingSink.run instances inner settings nodeId inputs).Sound settings :=
  List.foldlRecOn inputs _ (Healing.sound_new inner nodeId) fun _ h input _ => HealingSink.sound_step input h

end

/-! ## The numbers that 32 bits hold -/

/-- The next rebuild of an outage can be numbered. -/
def Numbered (since : List HealEvent) : Prop := rebuilds since + 1 < 2 ^ 32

def NumberedAll (log : List HealEvent) : Prop := AtRebuilds (fun since _ _ => Numbered since) log

/-- An attempt that is due can be numbered. -/
def CountedAt {κ : Type} (node : Healing κ) (now : Nat) : Prop :=
  ∀ attempt, node.healer.due now = some attempt → Numbered (outage node.healer.log)

theorem Attempted.inTurn_iff {since : List HealEvent} {now : Nat} (h : Attempted settings since attempt now) :
    InTurn settings since attempt now ↔ Numbered since := by
  constructor
  · intro hturn
    rw [Numbered, ← hturn.number]
    exact attempt.toNat_lt
  · intro hnumbered
    have hnumber : attempt.toNat = rebuilds since + 1 := h.number.trans (Nat.mod_eq_of_lt hnumbered)
    refine ⟨h.provoked, h.scheduled, hnumber, h.budget.imp_right fun hle => ?_⟩
    rw [← hnumber]
    exact UInt32.le_iff_toNat_le.mp hle

theorem Healing.Sound.paced_iff_numberedAll {κ : Type} {node : Healing κ} (h : node.Sound settings) :
    Paced node ↔ NumberedAll node.healer.log := by
  have hsettings := h.healer.settings_eq
  constructor
  · intro hpaced before attempt now failure after hsplit
    have hturn := hpaced.inTurn before attempt now failure after hsplit
    rw [hsettings] at hturn
    exact (h.healer.logged before attempt now failure after hsplit).inTurn_iff.mp hturn
  · intro hnumbered
    refine ⟨fun before attempt now failure after hsplit => ?_, h.grounded⟩
    rw [hsettings]
    exact (h.healer.logged before attempt now failure after hsplit).inTurn_iff.mpr
      (hnumbered before attempt now failure after hsplit)

theorem Healer.numberedAll_schedule_iff :
    NumberedAll (healer.schedule attempt clock).log ↔ NumberedAll healer.log := by
  rcases Healer.schedule_log with hlog | ⟨due, hlog⟩
  · rw [hlog]
  · rw [hlog]
    exact atRebuilds_other_iff rfl

theorem Healer.numberedAll_failure_iff : NumberedAll (healer.failure clock).log ↔ NumberedAll healer.log := by
  have hfailed : NumberedAll (healer.record .failed).log ↔ NumberedAll healer.log := atRebuilds_other_iff rfl
  rw [← hfailed, Healer.failure]
  split
  · split_ifs
    · exact Healer.numberedAll_schedule_iff
    · exact Iff.rfl
  · split_ifs
    · exact Healer.numberedAll_schedule_iff
    · exact Iff.rfl
  · exact Healer.numberedAll_schedule_iff
  · exact Iff.rfl
  · exact Iff.rfl

theorem Healer.numberedAll_success_iff : NumberedAll healer.success.log ↔ NumberedAll healer.log := by
  have hlog : healer.success.log = healer.log ++ [.succeeded] := by
    rw [Healer.success]
    split <;> rfl
  rw [hlog]
  exact atRebuilds_other_iff rfl

section
variable {κ α : Type} {instances : Instances κ} {node : Healing κ} {call : HealCall κ α}

theorem Healing.numberedAll_delegate_iff :
    NumberedAll (node.delegate call).1.healer.log ↔ NumberedAll node.healer.log := by
  unfold Healing.delegate
  split
  · exact Iff.rfl
  · split
    · exact Healer.numberedAll_success_iff
    · exact Healer.numberedAll_failure_iff

/-- The only rebuild of a call is the one that is due at its head. -/
theorem Healing.numberedAll_healIfDue_iff :
    NumberedAll (node.healIfDue instances call).healer.log ↔
      NumberedAll node.healer.log ∧ CountedAt node call.now := by
  have hdue {attempt : UInt32} (h : node.healer.due call.now = some attempt) :
      CountedAt node call.now ↔ Numbered (outage node.healer.log) :=
    ⟨fun hcounted => hcounted attempt h, fun hnumbered _ _ => hnumbered⟩
  have hheals := @Healing.healsTo_healIfDue κ α instances node call
  generalize node.healIfDue instances call = healed at hheals ⊢
  cases hheals with
  | undue hnone =>
    refine (and_iff_left fun attempt hsome => ?_).symm
    cases hnone.symm.trans hsome
  | failed error hsome =>
    rw [hdue hsome, Healer.buildFailed, Healer.numberedAll_schedule_iff]
    exact atRebuilds_rebuilt_iff
  | built inner hsome =>
    rw [hdue hsome]
    exact atRebuilds_rebuilt_iff

end

/-! ## Runs -/

/-- An attempt that is due when a source is polled can be numbered. -/
def HealingSource.Counted {κ : Type} (node : Healing κ) : SourceInput κ → Prop
  | .nextBatch call => CountedAt node call.now
  | .requestBatchRows _ | .finish _ => True

/-- An attempt that is due when a sink is written to can be numbered. -/
def HealingSink.Counted {κ : Type} (node : Healing κ) : SinkInput κ → Prop
  | .writeBatch call => CountedAt node call.now
  | .finish _ => True

section
variable {κ ι : Type} {instances : Instances κ} {node : Healing κ}

theorem HealingSource.numberedAll_step_iff (input : SourceInput κ) :
    NumberedAll (HealingSource.step instances node input).healer.log ↔
      NumberedAll node.healer.log ∧ HealingSource.Counted node input := by
  cases input with
  | nextBatch call => exact Healing.numberedAll_delegate_iff.trans Healing.numberedAll_healIfDue_iff
  | requestBatchRows rows => exact (and_iff_left trivial).symm
  | finish call => exact Healing.numberedAll_delegate_iff.trans (and_iff_left trivial).symm

theorem HealingSink.numberedAll_step_iff (input : SinkInput κ) :
    NumberedAll (HealingSink.step instances node input).healer.log ↔
      NumberedAll node.healer.log ∧ HealingSink.Counted node input := by
  cases input with
  | writeBatch call => exact Healing.numberedAll_delegate_iff.trans Healing.numberedAll_healIfDue_iff
  | finish call => exact Healing.numberedAll_delegate_iff.trans (and_iff_left trivial).symm

/-- What each step adds to a log, over a whole run. -/
theorem numberedAll_foldl_iff {step : Healing κ → ι → Healing κ} {counted : Healing κ → ι → Prop}
    (hstep : ∀ node input, NumberedAll (step node input).healer.log ↔
      NumberedAll node.healer.log ∧ counted node input) (inputs : List ι) :
    NumberedAll (inputs.foldl step node).healer.log ↔ NumberedAll node.healer.log ∧
      ∀ input before later, inputs = before ++ input :: later → counted (before.foldl step node) input := by
  induction inputs generalizing node with
  | nil =>
    refine (and_iff_left fun input before later h => ?_).symm
    cases (List.append_eq_nil_iff.mp h.symm).2
  | cons first inputs ih =>
    rw [List.foldl_cons, ih, hstep, and_assoc]
    refine and_congr_right fun _ => ?_
    have hsplit (input : ι) := @before_cons_iff ι input first
      (fun before => counted (before.foldl step node) input) inputs
    constructor
    · rintro ⟨hfirst, hrest⟩ input
      refine (hsplit input).mpr ⟨?_, hrest input⟩
      rintro rfl
      exact hfirst
    · intro hall
      exact ⟨((hsplit first).mp (hall first)).1 rfl, fun input => ((hsplit input).mp (hall input)).2⟩

theorem paced_source_iff (inner : κ) (nodeId : String) (inputs : List (SourceInput κ)) :
    Paced (HealingSource.run instances inner settings nodeId inputs) ↔
      ∀ input before later, inputs = before ++ input :: later →
        HealingSource.Counted (HealingSource.run instances inner settings nodeId before) input := by
  refine (HealingSource.sound_run inner nodeId inputs).paced_iff_numberedAll.trans ?_
  refine (numberedAll_foldl_iff (fun _ => HealingSource.numberedAll_step_iff) inputs).trans ?_
  exact and_iff_right fun _ _ _ _ _ h => by cases (List.append_eq_nil_iff.mp h.symm).2

theorem paced_sink_iff (inner : κ) (nodeId : String) (inputs : List (SinkInput κ)) :
    Paced (HealingSink.run instances inner settings nodeId inputs) ↔
      ∀ input before later, inputs = before ++ input :: later →
        HealingSink.Counted (HealingSink.run instances inner settings nodeId before) input := by
  refine (HealingSink.sound_run inner nodeId inputs).paced_iff_numberedAll.trans ?_
  refine (numberedAll_foldl_iff (fun _ => HealingSink.numberedAll_step_iff) inputs).trans ?_
  exact and_iff_right fun _ _ _ _ _ h => by cases (List.append_eq_nil_iff.mp h.symm).2

/-- Self-healing keeps to its pace exactly where an attempt that comes due can be numbered: in every run of a
source, and in every run of a sink. -/
theorem paced_iff (instances : Instances κ) (inner : κ) (settings : HealSettings) (nodeId : String) :
    (∀ inputs, Paced (HealingSource.run instances inner settings nodeId inputs) ↔
      ∀ input before later, inputs = before ++ input :: later →
        HealingSource.Counted (HealingSource.run instances inner settings nodeId before) input) ∧
    (∀ inputs, Paced (HealingSink.run instances inner settings nodeId inputs) ↔
      ∀ input before later, inputs = before ++ input :: later →
        HealingSink.Counted (HealingSink.run instances inner settings nodeId before) input) :=
  ⟨paced_source_iff inner nodeId, paced_sink_iff inner nodeId⟩

end

/-! ## Budgets that are counted -/

/-! ## An outage that outlasts the numbers -/

namespace LongOutage

/-- One failure is enough, every delay is a millisecond, and nothing gives up. -/
def unending : HealSettings := ⟨1, 1, 1, 1, 0, 0⟩

def instances : Instances Unit := ⟨fun _ => ⟨[]⟩, fun _ _ => ()⟩

/-- A write each millisecond, to a peer that stays away. -/
def write (i : Nat) : SinkInput Unit :=
  .writeBatch ⟨i * 1000000, .error (.generic "connection refused"), .error (.generic "connection reset"),
    ⟨i * 1000000, 0⟩⟩

def writes (n : Nat) : List (SinkInput Unit) := (List.range n).map write

theorem delayFor (attempt : UInt32) (drawn : ℚ) : unending.delayFor attempt drawn = 1 := by
  rw [HealSettings.delayFor, unending]
  simp only [Nat.cast_one, one_pow, mul_one, min_self, lt_self_iff_false, if_false]
  rfl

theorem schedule (h : healer.settings = unending) : healer.schedule attempt clock =
    { healer with state := .scheduled attempt (clock.now + 1000000) }.record
      (.scheduled attempt (clock.now + 1000000)) := by
  rw [Healer.schedule, if_neg (by rw [h]; exact fun hspent => hspent.1 rfl), h, delayFor]

/-- A sink after so many rebuilds. -/
structure Down (n : Nat) (node : Healing Unit) : Prop where
  settings_eq : node.healer.settings = unending
  state : ∃ attempt, node.healer.state = .scheduled attempt ((n + 1) * 1000000)
  count : rebuilds (outage node.healer.log) = n

theorem writes_succ (n : Nat) : writes (n + 1) = writes n ++ [write n] := by
  rw [writes, List.range_succ, List.map_append]
  rfl

theorem run_concat (inputs : List (SinkInput Unit)) (input : SinkInput Unit) :
    HealingSink.run instances () unending "sink" (inputs ++ [input]) =
      HealingSink.step instances (HealingSink.run instances () unending "sink" inputs) input :=
  List.foldl_append

theorem Down.due {n : Nat} {node : Healing Unit} (h : Down n node) :
    ∃ attempt, node.healer.due ((n + 1) * 1000000) = some attempt := by
  obtain ⟨attempt, hstate⟩ := h.state
  refine ⟨attempt, ?_⟩
  unfold Healer.due
  rw [hstate]
  exact if_pos (le_refl _)

/-- One more millisecond, one more rebuild. -/
theorem Down.write {n : Nat} {node : Healing Unit} (h : Down n node) :
    Down (n + 1) (HealingSink.step instances node (write (n + 1))) := by
  obtain ⟨attempt, hdue⟩ := h.due
  have hfailed : HealingSink.step instances node (LongOutage.write (n + 1)) =
      { node with
        inner := none
        healer := node.healer.buildFailed attempt ((n + 1) * 1000000)
          (toString (SaciError.generic "connection refused")) ⟨(n + 1) * 1000000, 0⟩ } := by
    rw [LongOutage.write, HealingSink.step, HealingSink.writeBatch, Healing.healIfDue]
    dsimp only
    rw [hdue]
    rfl
  have hsettings : ({ node.healer with down := some (toString (SaciError.generic "connection refused")) }.record
      (.rebuilt attempt ((n + 1) * 1000000)
        (some (toString (SaciError.generic "connection refused"))))).settings = unending := h.settings_eq
  rw [hfailed, Healer.buildFailed, schedule hsettings]
  refine ⟨h.settings_eq, ⟨attempt + 1, ?_⟩, ?_⟩
  · change HealState.scheduled _ _ = _
    rw [Nat.succ_mul (n + 1)]
  · change rebuilds (outage (_ ++ [_] ++ [_])) = _
    rw [outage_concat HealEvent.noConfusion, outage_concat HealEvent.noConfusion, rebuilds_concat rfl,
      rebuilds_rebuilt, h.count]

theorem down_run (n : Nat) : Down n (HealingSink.run instances () unending "sink" (writes (n + 1))) := by
  induction n with
  | zero =>
    have hfailed : HealingSink.run instances () unending "sink" (writes 1) =
        ⟨some (), (Healer.new unending "sink").failure ⟨0, 0⟩, ⟨[]⟩, none⟩ := rfl
    have hfirst : (Healer.new unending "sink").failure ⟨0, 0⟩ =
        ((Healer.new unending "sink").record .failed).schedule 1 ⟨0, 0⟩ := rfl
    rw [hfailed, hfirst, schedule rfl]
    exact ⟨rfl, ⟨1, rfl⟩, rfl⟩
  | succ n ih =>
    rw [writes_succ, run_concat]
    exact ih.write

/-- Past the last number the next attempt of the outage is not the next in number. -/
theorem not_paced : ¬Paced (HealingSink.run instances () unending "sink" (writes (2 ^ 32 + 1))) := by
  rw [paced_sink_iff]
  intro h
  have hdown : Down (2 ^ 32 - 1) (HealingSink.run instances () unending "sink" (writes (2 ^ 32))) :=
    down_run (2 ^ 32 - 1)
  obtain ⟨attempt, hdue⟩ := hdown.due
  have hnumbered : Numbered _ := h (write (2 ^ 32)) (writes (2 ^ 32)) [] (writes_succ _) attempt hdue
  rw [Numbered, hdown.count] at hnumbered
  exact absurd hnumbered (by decide)

end LongOutage

end Saci
