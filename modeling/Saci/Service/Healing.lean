import Mathlib.Data.List.DropRight
import Mathlib.Data.Rat.Floor
import Saci.Core.RecordBatch

/-!
# Connector self-healing

`Healer`, `HealingSource` and `HealingSink` (`saci-service/src/service/heal.rs`): after so many failures in
a row the instance is dropped, and another is asked of the factory at the head of the first call past a
deadline. Counts are 32-bit integers as in a release build, instants are whole nanoseconds, and the factor
and the jitter of a delay are exact rationals. What a factory or an instance answers, what a clock reads and
what the jitter draws are inputs of a call.
-/

namespace Saci

def MAX_BACKOFF_EXPONENT : Nat := 30

/-- `HealSettings`. -/
structure HealSettings where
  afterFailures : UInt32
  baseDelayMs : Nat
  multiplier : ℚ
  maxDelayMs : Nat
  jitter : ℚ
  /-- Zero never gives up. -/
  maxAttempts : UInt32

/-- `delay_for`: milliseconds before an attempt, where the jitter draws a number from -1 to 1. -/
def HealSettings.delayFor (settings : HealSettings) (attempt : UInt32) (drawn : ℚ) : Nat :=
  let exponent := min (attempt.toNat - 1) MAX_BACKOFF_EXPONENT
  let capped := min (settings.baseDelayMs * settings.multiplier ^ exponent) settings.maxDelayMs
  let factor := if 0 < settings.jitter then 1 + settings.jitter * drawn else 1
  (max (capped * factor) 0).floor.toNat

/-- `HealState`. -/
inductive HealState
  | healthy
  | failing (consecutive : UInt32)
  | scheduled (attempt : UInt32) (due : Nat)
  | probing (attempt : UInt32)
  | exhausted
  deriving DecidableEq

/-- What happens to a node. -/
inductive HealEvent
  | failed
  | succeeded
  | scheduled (attempt : UInt32) (due : Nat)
  /-- An attempt at an instant, and why it failed if it did. -/
  | rebuilt (attempt : UInt32) (now : Nat) (failure : Option String)
  deriving DecidableEq

/-- The clock and the jitter where a rebuild is scheduled. -/
structure HealClock where
  now : Nat
  drawn : ℚ

structure Healer where
  settings : HealSettings
  state : HealState
  nodeId : String
  /-- Why there is no instance. -/
  down : Option String
  recovered : Bool
  /-- What has happened, of which the source keeps no record. -/
  log : List HealEvent

namespace Healer

def new (settings : HealSettings) (nodeId : String) : Healer := ⟨settings, .healthy, nodeId, none, false, []⟩

def downError (healer : Healer) : SaciError :=
  .generic (healer.nodeId ++ ": connector is down: " ++ healer.down.getD "rebuild failed")

def record (healer : Healer) (event : HealEvent) : Healer := { healer with log := healer.log ++ [event] }

/-- The attempt to perform now. -/
def due (healer : Healer) (now : Nat) : Option UInt32 :=
  match healer.state with
  | .scheduled attempt due => if due ≤ now then some attempt else none
  | _ => none

def schedule (healer : Healer) (attempt : UInt32) (clock : HealClock) : Healer :=
  if healer.settings.maxAttempts ≠ 0 ∧ healer.settings.maxAttempts < attempt then
    { healer with state := .exhausted }
  else
    let due := clock.now + healer.settings.delayFor attempt clock.drawn * 1000000
    { healer with state := .scheduled attempt due }.record (.scheduled attempt due)

def built (healer : Healer) (attempt : UInt32) (now : Nat) : Healer :=
  { healer with down := none, state := .probing attempt }.record (.rebuilt attempt now none)

def buildFailed (healer : Healer) (attempt : UInt32) (now : Nat) (error : String) (clock : HealClock) : Healer :=
  ({ healer with down := some error }.record (.rebuilt attempt now (some error))).schedule (attempt + 1) clock

def success (healer : Healer) : Healer :=
  let healer := healer.record .succeeded
  match healer.state with
  | .healthy => healer
  | .probing _ => { healer with state := .healthy, recovered := true }
  | _ => { healer with state := .healthy }

def failure (healer : Healer) (clock : HealClock) : Healer :=
  let healer := healer.record .failed
  match healer.state with
  | .healthy =>
    if healer.settings.afterFailures ≤ 1 then healer.schedule 1 clock
    else { healer with state := .failing 1 }
  | .failing consecutive =>
    if healer.settings.afterFailures ≤ consecutive + 1 then healer.schedule 1 clock
    else { healer with state := .failing (consecutive + 1) }
  | .probing attempt => healer.schedule (attempt + 1) clock
  | .scheduled _ _ | .exhausted => healer

end Healer

/-! ## The wrappers -/

/-- What a host asks of an instance. -/
structure Instances (κ : Type) where
  schema : κ → Schema
  requestBatchRows : κ → Nat → κ

/-- `HealingSource` and `HealingSink`. A sink is never hinted. -/
structure Healing (κ : Type) where
  inner : Option κ
  healer : Healer
  schema : Schema
  lastHint : Option Nat

/-- An operation on a wrapped connector: the clock at its head, what the factory answers if it is asked,
what the instance answers if there is one, and the clock where a rebuild is scheduled. -/
structure HealCall (κ α : Type) where
  now : Nat
  fresh : SaciResult κ
  outcome : SaciResult α
  clock : HealClock

/-- `schema_mismatch`. -/
def schemaMismatch (pinned fresh : Schema) : Option String :=
  if pinned.fields = fresh.fields then none
  else some <|
    s!"rebuilt connector reports schema {repr fresh.fields} but the workflow was validated against " ++
    s!"{repr pinned.fields}"

namespace Healing
variable {κ α : Type} (instances : Instances κ)

/-- `new`. -/
def new (inner : κ) (settings : HealSettings) (nodeId : String) : Healing κ :=
  ⟨some inner, .new settings nodeId, instances.schema inner, none⟩

/-- `heal_if_due`. -/
def healIfDue (node : Healing κ) (call : HealCall κ α) : Healing κ :=
  match node.healer.due call.now with
  | none => node
  | some attempt =>
    match call.fresh with
    | .error e =>
      { node with inner := none, healer := node.healer.buildFailed attempt call.now (toString e) call.clock }
    | .ok fresh =>
      match schemaMismatch node.schema (instances.schema fresh) with
      | some mismatch =>
        { node with inner := none, healer := node.healer.buildFailed attempt call.now mismatch call.clock }
      | none =>
        let hinted := match node.lastHint with
          | some rows => instances.requestBatchRows fresh rows
          | none => fresh
        { node with inner := some hinted, healer := node.healer.built attempt call.now }

/-- An operation handed to the instance. -/
def delegate (node : Healing κ) (call : HealCall κ α) : Healing κ × SaciResult α :=
  match node.inner with
  | none => (node, .error node.healer.downError)
  | some _ =>
    match call.outcome with
    | .ok value => ({ node with healer := node.healer.success }, .ok value)
    | .error e => ({ node with healer := node.healer.failure call.clock }, .error e)

end Healing

namespace HealingSource
variable {κ : Type} (instances : Instances κ)

def nextBatch (node : Healing κ) (call : HealCall κ (Option RecordBatch)) :
    Healing κ × SaciResult (Option RecordBatch) := (node.healIfDue instances call).delegate call

def requestBatchRows (node : Healing κ) (rows : Nat) : Healing κ :=
  { node with
    lastHint := some rows
    inner := node.inner.map fun inner => instances.requestBatchRows inner rows }

/-- No heal at the end of a run. -/
def finish (node : Healing κ) (call : HealCall κ Unit) : Healing κ × SaciResult Unit := node.delegate call

end HealingSource

namespace HealingSink
variable {κ : Type} (instances : Instances κ)

def writeBatch (node : Healing κ) (call : HealCall κ Unit) : Healing κ × SaciResult Unit :=
  (node.healIfDue instances call).delegate call

def finish (node : Healing κ) (call : HealCall κ Unit) : Healing κ × SaciResult Unit := node.delegate call

end HealingSink

/-! ## Runs -/

/-- What is asked of a source. -/
inductive SourceInput (κ : Type)
  | nextBatch (call : HealCall κ (Option RecordBatch))
  | requestBatchRows (rows : Nat)
  | finish (call : HealCall κ Unit)

/-- What is asked of a sink. -/
inductive SinkInput (κ : Type)
  | writeBatch (call : HealCall κ Unit)
  | finish (call : HealCall κ Unit)

section
variable {κ : Type} (instances : Instances κ)

def HealingSource.step (node : Healing κ) : SourceInput κ → Healing κ
  | .nextBatch call => (HealingSource.nextBatch instances node call).1
  | .requestBatchRows rows => HealingSource.requestBatchRows instances node rows
  | .finish call => (HealingSource.finish node call).1

def HealingSink.step (node : Healing κ) : SinkInput κ → Healing κ
  | .writeBatch call => (HealingSink.writeBatch instances node call).1
  | .finish call => (HealingSink.finish node call).1

/-- A source over any inputs. -/
def HealingSource.run (inner : κ) (settings : HealSettings) (nodeId : String)
    (inputs : List (SourceInput κ)) : Healing κ :=
  inputs.foldl (HealingSource.step instances) (.new instances inner settings nodeId)

/-- A sink over any inputs. -/
def HealingSink.run (inner : κ) (settings : HealSettings) (nodeId : String)
    (inputs : List (SinkInput κ)) : Healing κ :=
  inputs.foldl (HealingSink.step instances) (.new instances inner settings nodeId)

end
end Saci
