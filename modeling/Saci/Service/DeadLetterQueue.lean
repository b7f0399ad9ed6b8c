import Saci.Service.DeadLetter

/-!
# The dead letter queue

`DeadLetterQueue` (`saci-service/src/service/dlq.rs`): recording a refused batch, and the replay
that drains the store, offers every admitted letter to its sink and writes the rest back. The store
is the list of messages it holds, oldest first; a fetch hands over some of them as one window and
consumes the window before it. What the outside decides is given: how a drain's fetches turn out,
which writes fail, and the time. The published summary, metrics and log lines are left out.
-/

namespace Saci

/-! ## The drain -/

/-- `ReplayCtx`: the workflow's nodes, with the schema of those that have a sink. Their sinks and the
wall clock are a state that a write moves on. -/
structure ReplayCtx (σ : Type) where
  ids : List String
  sinks : List (Option Schema)
  write : σ → Nat → RecordBatch → σ × SaciResult Unit
  nowUnixMs : σ → UInt64

/-- What became of a letter that was looked at. -/
inductive Offer
  | delivered (index : Nat) (letter : Letter)
  | kept (letter : Letter)
  deriving DecidableEq

/-- The body of the loop over a window's letters, on the sinks' state and the sinks that refused. -/
def offer {σ : Type} (ipc : ArrowIpcTransformer) (filter : ReplayFilter) (ctx : ReplayCtx σ)
    (s : σ × List Nat) (letter : Letter) : (σ × List Nat) × Offer :=
  if filter.admits letter then
    match ctx.ids.findIdx? fun id => id = letter.sink with
    | none => (s, .kept letter)
    | some index =>
      if index ∈ s.2 then (s, .kept letter)
      else
        match ctx.sinks[index]?.join with
        | none => (s, .kept letter)
        | some schema =>
          match letter.payloadBatch ipc schema with
          | .error e => (s, .kept (letter.retried e (ctx.nowUnixMs s.1)))
          | .ok batch =>
            match ctx.write s.1 index batch with
            | (sinks, .ok ()) => ((sinks, s.2), .delivered index letter)
            | (sinks, .error e) =>
              ((sinks, s.2 ++ [index]), .kept (letter.retried e (ctx.nowUnixMs sinks)))
  else (s, .kept letter)

/-- One turn of the drain: shutdown is seen, or the fetch brings a window of that many messages, or
it fails. Behind the last turn the source reports its end. -/
inductive DrainTurn
  | cancelled
  | window (messages : Nat)
  | error (e : SaciError)
  deriving DecidableEq

structure Drain (σ : Type) where
  /-- The sinks' state, and the sinks that refused a letter in this drain. -/
  sinks : σ × List Nat
  /-- The window fetched last, which the store still has. -/
  held : List RecordBatch
  /-- What has not been fetched. -/
  rest : List RecordBatch
  retained : List Letter
  /-- Where the letters of the last window start in `retained`. -/
  window : Nat
  delivered : List (Nat × Letter)
  purged : Nat
  error : Option String

/-- The rows of a window. -/
def envelopeRows (messages : List RecordBatch) : List (RecordBatch × Nat) :=
  messages.flatMap fun batch => (List.range batch.numRows).map fun row => (batch, row)

namespace Drain
variable {σ : Type}

def start (sinks : σ) (store : List RecordBatch) : Drain σ :=
  ⟨(sinks, []), [], store, [], 0, [], 0, none⟩

/-- Take note of an offer. -/
def note (st : Drain σ) (sinks : σ × List Nat) : Offer → Drain σ
  | .delivered index letter =>
    { st with sinks := sinks, delivered := st.delivered ++ [(index, letter)] }
  | .kept letter => { st with sinks := sinks, retained := st.retained ++ [letter] }

/-- Stop with the last window left in the store. -/
def cut (st : Drain σ) (error : String) : Drain σ :=
  { st with retained := st.retained.take st.window, error := some error }

/-- The letters of a window in turn, up to a row that does not decode. -/
def offerRows (ipc : ArrowIpcTransformer) (filter : ReplayFilter) (ctx : ReplayCtx σ) (st : Drain σ) :
    List (RecordBatch × Nat) → Drain σ × Option SaciError
  | [] => (st, none)
  | (batch, row) :: rows =>
    match Letter.fromRow batch row with
    | .error e => (st, some e)
    | .ok letter =>
      let (sinks, offered) := offer ipc filter ctx st.sinks letter
      offerRows ipc filter ctx (st.note sinks offered) rows

/-- `drain`. Every fetch, a failing one and the one that finds the end included, consumes the window
before it. -/
def drain (ipc : ArrowIpcTransformer) (filter : ReplayFilter) (ctx : ReplayCtx σ) (trigger : DlqTrigger)
    (st : Drain σ) : List DrainTurn → Drain σ
  | [] => { st with held := [] }
  | .cancelled :: _ => st.cut "cancelled"
  | .error e :: _ => { st with held := [], error := some e.display }
  | .window messages :: turns =>
    let st := { st with held := st.rest.take messages, rest := st.rest.drop messages }
    let rows := envelopeRows st.held
    -- an empty window: the mark stays where it is
    if rows.isEmpty then drain ipc filter ctx trigger st turns
    else
      let st := { st with window := st.retained.length }
      if trigger = .purge then
        drain ipc filter ctx trigger { st with purged := st.purged + rows.length } turns
      else
        match st.offerRows ipc filter ctx rows with
        | (st, some e) => st.cut e.display
        | (st, none) => drain ipc filter ctx trigger st turns

end Drain

/-! ## The queue -/

/-- `DlqReplayPoint`. -/
inductive DlqReplayPoint
  | beforeSources | afterSources
  deriving DecidableEq

structure DeadLetterQueue where
  workflowId : String
  store : DlqStoreKind
  replayPoint : DlqReplayPoint
  /-- The recording half is open. -/
  sinkOpen : Bool
  sinkAttempt : Nat
  sinkDownUntil : Option Nat
  startedOnce : Bool
  pendingLetters : Nat
  autoAttempt : Nat
  nextAutoReplay : Option Nat
  known : Bool

/-- The time of a call, and the backoff delays, with their jitter, as they come out in it. -/
structure DlqClock where
  now : Nat
  delayFor : Nat → Nat

/-- How the parts of one replay turn out. -/
structure ReplayOutside where
  clock : DlqClock
  /-- The source half cannot be built. -/
  sourceError : Option SaciError
  turns : List DrainTurn
  /-- The recording half cannot be rebuilt. -/
  sinkError : Option SaciError
  /-- The failures of the write-backs, in order. -/
  writeErrors : List (Option SaciError)

namespace DeadLetterQueue

def scheduleRecordRetry (queue : DeadLetterQueue) (clock : DlqClock) : DeadLetterQueue :=
  let attempt := min (queue.sinkAttempt + 1) (UInt32.size - 1)
  { queue with sinkAttempt := attempt, sinkDownUntil := some (clock.now + clock.delayFor attempt) }

/-- `rebuild_record_half`. -/
def rebuildRecordHalf (queue : DeadLetterQueue) (clock : DlqClock) (sinkError : Option SaciError) :
    DeadLetterQueue × Bool :=
  if queue.sinkOpen then (queue, true)
  else if queue.sinkDownUntil.any fun until_ => clock.now < until_ then (queue, false)
  else
    match sinkError with
    | none => ({ queue with sinkOpen := true, sinkAttempt := 0, sinkDownUntil := none }, true)
    | some _ => (queue.scheduleRecordRetry clock, false)

/-- `reopen_record_half`: whatever the backoff says. -/
def reopenRecordHalf (queue : DeadLetterQueue) (clock : DlqClock) (sinkError : Option SaciError) :
    DeadLetterQueue × Bool :=
  if queue.sinkOpen then (queue, true)
  else
    { queue with sinkAttempt := 0, sinkDownUntil := none }.rebuildRecordHalf clock sinkError

def scheduleAutoReplay (queue : DeadLetterQueue) (clock : DlqClock) : DeadLetterQueue :=
  if queue.nextAutoReplay = none then
    { queue with autoAttempt := 0, nextAutoReplay := some (clock.now + clock.delayFor 1) }
  else queue

/-- A refused batch, and how recording it turns out. -/
structure Refusal where
  batch : RecordBatch
  sink : String
  component : String
  error : SaciError
  nowUnixMs : UInt64
  clock : DlqClock
  sinkError : Option SaciError
  writeError : Option SaciError

/-- `record`: the queue, and the message the store took. Everything else is a letter lost. -/
def record (queue : DeadLetterQueue) (ipc : ArrowIpcTransformer) (refusal : Refusal) :
    DeadLetterQueue × Option RecordBatch :=
  match queue.rebuildRecordHalf refusal.clock refusal.sinkError with
  | (queue, false) => (queue, none)
  | (queue, true) =>
    let envelope := do
      let letter ← Letter.fromFailure ipc refusal.batch refusal.sink refusal.component refusal.error
        refusal.nowUnixMs
      letter.toEnvelope queue.workflowId
    match envelope with
    | .error _ => (queue, none)
    | .ok envelope =>
      match refusal.writeError with
      | none =>
        ({ queue with sinkAttempt := 0, pendingLetters := queue.pendingLetters + 1
          }.scheduleAutoReplay refusal.clock, some envelope)
      | some _ => ({ queue with sinkOpen := false }.scheduleRecordRetry refusal.clock, none)

/-! ## Replay -/

/-- What a write-back left: the messages written, the letters that are in them, and those lost. -/
structure Rewritten where
  stored : List RecordBatch
  kept : List Letter
  lost : List Letter

/-- The loop of `rewrite`; the flag says that the store refused a write, which ends it. -/
def rewriteLoop (workflow : String) : List Letter → List (Option SaciError) → Rewritten × Bool
  | [], _ => (⟨[], [], []⟩, false)
  | letter :: retained, writeErrors =>
    match letter.toEnvelope workflow with
    | .error _ =>
      let (rewritten, down) := rewriteLoop workflow retained writeErrors
      ({ rewritten with lost := letter :: rewritten.lost }, down)
    | .ok envelope =>
      match writeErrors.head?.getD none with
      | some _ => (⟨[], [], letter :: retained⟩, true)
      | none =>
        let (rewritten, down) := rewriteLoop workflow retained writeErrors.tail
        ({ rewritten with
            stored := envelope :: rewritten.stored
            kept := letter :: rewritten.kept }, down)

/-- `rewrite`. -/
def rewrite (queue : DeadLetterQueue) (retained : List Letter) (outside : ReplayOutside) :
    DeadLetterQueue × Rewritten :=
  if retained.isEmpty then
    (if queue.store.exclusive then
        (queue.reopenRecordHalf outside.clock outside.sinkError).1
      else queue,
      ⟨[], [], []⟩)
  else
    match queue.reopenRecordHalf outside.clock outside.sinkError with
    | (queue, false) => (queue, ⟨[], [], retained⟩)
    | (queue, true) =>
      match rewriteLoop queue.workflowId retained outside.writeErrors with
      | (rewritten, false) => (queue, rewritten)
      | (rewritten, true) =>
        ({ queue with sinkOpen := false }.scheduleRecordRetry outside.clock, rewritten)

/-- What a replay leaves. -/
structure Replayed (σ : Type) where
  queue : DeadLetterQueue
  sinks : σ
  store : List RecordBatch
  delivered : List (Nat × Letter)
  report : DlqReplayReport

/-- The drain of a replay, or its failure to build the source half. -/
def drained {σ : Type} (ipc : ArrowIpcTransformer) (trigger : DlqTrigger) (filter : ReplayFilter)
    (ctx : ReplayCtx σ) (sinks : σ) (store : List RecordBatch) (outside : ReplayOutside) :
    Drain σ :=
  match outside.sourceError with
  | some e => { Drain.start sinks store with error := some e.display }
  | none => (Drain.start sinks store).drain ipc filter ctx trigger outside.turns

/-- The end of `replay`: what was kept and how the drain ended set the schedule and `known`. -/
def settle (queue : DeadLetterQueue) (kept : List Letter) (error : Option String)
    (clock : DlqClock) : DeadLetterQueue :=
  let readThrough := error.isNone && queue.store.confirmsEnd
  let queue := { queue with pendingLetters := kept.length, known := queue.known || readThrough }
  if kept.isEmpty ∧ error.isNone then { queue with autoAttempt := 0, nextAutoReplay := none }
  else
    { queue with
      autoAttempt := queue.autoAttempt + 1
      nextAutoReplay := some (clock.now + clock.delayFor (queue.autoAttempt + 1)) }

/-- `replay`. -/
def replay {σ : Type} (queue : DeadLetterQueue) (ipc : ArrowIpcTransformer) (trigger : DlqTrigger)
    (filter : ReplayFilter) (ctx : ReplayCtx σ) (sinks : σ) (store : List RecordBatch)
    (outside : ReplayOutside) : Replayed σ :=
  let queue := if queue.store.exclusive then { queue with sinkOpen := false } else queue
  let st := drained ipc trigger filter ctx sinks store outside
  let (queue, rewritten) := queue.rewrite st.retained outside
  { queue := queue.settle rewritten.kept st.error outside.clock
    sinks := st.sinks.1
    store := st.held ++ st.rest ++ rewritten.stored
    delivered := st.delivered
    report := {
      trigger := trigger
      delivered := st.delivered.length
      retained := rewritten.kept.length
      purged := st.purged
      lost := rewritten.lost.length
      error := st.error } }

/-- The decision of `maybe_replay`: the trigger and filter of the replay it starts, if it starts
one. -/
def maybeTrigger (queue : DeadLetterQueue) (healed : Bool)
    (request : Option (DlqTrigger × ReplayFilter)) (cancelled : Bool) (now : Nat) :
    Option (DlqTrigger × ReplayFilter) :=
  match request with
  | some request => some request
  | none =>
    let emptyAndKnown := queue.pendingLetters = 0 ∧ queue.known
    if cancelled then none
    else if queue.startedOnce = false then some (.startup, ⟨none, none⟩)
    else if emptyAndKnown then none
    else if healed then some (.heal, ⟨none, none⟩)
    else if queue.nextAutoReplay.any fun due => due ≤ now then some (.schedule, ⟨none, none⟩)
    else none

/-- `maybe_replay`, with the report that answers a request. -/
def maybeReplay {σ : Type} (queue : DeadLetterQueue) (ipc : ArrowIpcTransformer) (ctx : ReplayCtx σ)
    (sinks : σ) (store : List RecordBatch) (recovered : List Bool)
    (request : Option (DlqTrigger × ReplayFilter)) (cancelled : Bool) (now : Nat)
    (outside : ReplayOutside) : DeadLetterQueue × σ × List RecordBatch × Option DlqReplayReport :=
  let queue' := { queue with startedOnce := true }
  match queue.maybeTrigger (recovered.any id) request cancelled now with
  | none => (queue', sinks, store, none)
  | some (trigger, filter) =>
    let replayed := queue'.replay ipc trigger filter ctx sinks store outside
    (replayed.queue, replayed.sinks, replayed.store, some replayed.report)

/-- What a pass hands to the queue, at its head or at its tail. -/
structure DlqPass (σ : Type) where
  ctx : ReplayCtx σ
  sinks : σ
  /-- The flags of the healed sinks. -/
  recovered : List Bool
  request : Option (DlqTrigger × ReplayFilter)
  cancelled : Bool
  now : Nat
  outside : ReplayOutside

/-- `at_head` and `at_tail`, for the point they are the hook of. -/
def atPoint {σ : Type} (point : DlqReplayPoint) (queue : DeadLetterQueue) (ipc : ArrowIpcTransformer)
    (store : List RecordBatch) (pass : DlqPass σ) :
    DeadLetterQueue × σ × List RecordBatch × Option DlqReplayReport :=
  if queue.replayPoint = point then
    queue.maybeReplay ipc pass.ctx pass.sinks store pass.recovered pass.request pass.cancelled
      pass.now pass.outside
  else (queue, pass.sinks, store, none)

/-- The part of `build` that is state: the recording half is open, and what the shared half knows
outlives the instance. -/
def built (workflowId : String) (store : DlqStoreKind) (replayPoint : DlqReplayPoint) (known : Bool) :
    DeadLetterQueue :=
  ⟨workflowId, store, replayPoint, true, 0, none, false, 0, 0, none, known⟩

end DeadLetterQueue
end Saci
