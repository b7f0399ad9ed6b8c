import Saci.Library.Text
import Saci.Connectors.Kafka

/-!
# The NATS JetStream source

`NatsSource` (`saci-connector-nats/src/source.rs`) over a JetStream pull consumer, as a machine with
one step for each answer `next_batch` waits for, beside the consumer as the server keeps it. Core
subscriptions, provisioning and the checks of the connection, the API prefix, the start time and the
provisioned stream are left out; the message decoder is whatever the transformer opens.
-/

namespace Saci.Nats

open Text (isWhitespace)
open Saci.Kafka (MessageTransformer)

/-! ## Configuration -/

inductive AckPolicyConfig
  | explicit
  | all
  | none
  deriving DecidableEq

structure JetstreamSourceMode where
  stream : String
  durableName : Option String
  consumerName : Option String
  ackPolicy : AckPolicyConfig
  doubleAck : Bool
  /-- An `i64`; 0 is unlimited, and so is what is below. -/
  maxDeliver : Int
  /-- 0 disables the bound. -/
  maxDecodeAttempts : UInt32
  fetchExpiresMs : Nat
  fetchMaxBytes : Nat
  heartbeatMs : Nat
  deriving DecidableEq

structure NatsSourceConfig where
  batchSize : Nat
  pollTimeoutMs : Nat
  stopAtEnd : Bool
  mode : JetstreamSourceMode
  deriving DecidableEq

def JetstreamSourceMode.validate (js : JetstreamSourceMode) (what : String) : SaciResult Unit :=
  if js.stream.toList.all isWhitespace then
    .error (.configuration s!"{what} config: 'mode.stream' must not be empty")
  else if js.fetchExpiresMs = 0 then
    .error (.configuration s!"{what} config: 'mode.fetch_expires_ms' must be at least 1")
  else if js.doubleAck && js.ackPolicy = .none then
    .error <| .configuration <|
      s!"{what} config: 'mode.double_ack' needs an ack policy; 'none' acknowledges nothing"
  else .ok ()

def NatsSourceConfig.validate (cfg : NatsSourceConfig) : SaciResult Unit :=
  let what := "NatsSource"
  if cfg.batchSize = 0 then
    .error (.configuration s!"{what} config: 'batch_size' must be at least 1")
  else if cfg.pollTimeoutMs = 0 then
    .error (.configuration s!"{what} config: 'poll_timeout_ms' must be at least 1")
  else cfg.mode.validate what

/-! ## The consumer, as the server keeps it -/

/-- What a consumer reads: the payload at each sequence, and which sequences it covers. -/
structure Messages where
  payload : Nat → Bytes
  selected : Nat → Bool

structure Consumer where
  /-- Deliveries of each message, also those that nobody read. -/
  count : Nat → Nat
  acknowledged : Nat → Bool
  terminated : Nat → Bool

/-- A consumer that has delivered nothing. -/
def Consumer.new : Consumer where
  count _ := 0
  acknowledged _ := false
  terminated _ := false

section
variable (js : JetstreamSourceMode) (messages : Messages) (c : Consumer)

/-- The server delivers again what was delivered: it waits for an acknowledgement, and the count is
below `max_deliver`. -/
def Redelivers (sequence : Nat) : Prop :=
  js.ackPolicy ≠ .none ∧ (0 < js.maxDeliver → (c.count sequence : Int) < js.maxDeliver)

instance (sequence : Nat) : Decidable (Redelivers js c sequence) :=
  inferInstanceAs (Decidable (_ ∧ _))

/-- The message can still be delivered. -/
def Deliverable (sequence : Nat) : Prop :=
  c.acknowledged sequence = false ∧ c.terminated sequence = false ∧
    (c.count sequence = 0 ∨ Redelivers js c sequence)

instance (sequence : Nat) : Decidable (Deliverable js c sequence) :=
  inferInstanceAs (Decidable (_ ∧ _ ∧ (_ ∨ _)))

/-- The server may deliver the message now: messages are delivered for the first time in order. -/
def Offers (sequence : Nat) : Prop :=
  messages.selected sequence = true ∧ Deliverable js c sequence ∧
    ∀ earlier < sequence, messages.selected earlier = true →
      0 < c.count sequence ∨ 0 < c.count earlier

instance (sequence : Nat) : Decidable (Offers js messages c sequence) :=
  inferInstanceAs (Decidable (_ ∧ _ ∧ _))

end

namespace Consumer

def deliver (c : Consumer) (sequence : Nat) : Consumer where
  count s := if s = sequence then c.count s + 1 else c.count s
  acknowledged := c.acknowledged
  terminated := c.terminated

/-- `+ACK`: under `all`, it acknowledges every earlier message that is not settled. -/
def acknowledge (js : JetstreamSourceMode) (messages : Messages) (c : Consumer) (sequence : Nat) :
    Consumer where
  count := c.count
  acknowledged s :=
    c.acknowledged s || !c.terminated s &&
      match js.ackPolicy with
      | .explicit => s == sequence
      | .all => messages.selected s && decide (s ≤ sequence)
      | .none => false
  terminated := c.terminated

/-- `+TERM`. -/
def terminate (c : Consumer) (sequence : Nat) : Consumer where
  count := c.count
  acknowledged := c.acknowledged
  terminated s := c.terminated s || !c.acknowledged s && s == sequence

end Consumer

/-! ## The source -/

inductive AckMode
  | never
  | single
  | double
  deriving DecidableEq

/-- A collected message. Its acker is the sequence that it acknowledges. -/
structure Received where
  sequence : Nat
  payload : Bytes
  ack : Option Nat
  /-- A `u32`. -/
  delivered : Nat
  deriving DecidableEq

structure DecodeFailure where
  index : Option Nat
  error : SaciError
  deriving DecidableEq

/-- A message that is being terminated, with the window that failed. -/
structure Termination where
  message : Received
  window : List Received
  failure : DecodeFailure
  deriving DecidableEq

/-- What does not change over the source's life. -/
structure NatsSource where
  cfg : NatsSourceConfig
  ackMode : AckMode
  maxDecodeAttempts : Nat

def u32Max : Nat := 4294967295

/-- `u32::try_from(..).unwrap_or(u32::MAX)` of an `i64`. -/
def u32Saturated (n : Int) : Nat := if 0 ≤ n ∧ n ≤ u32Max then n.toNat else u32Max

def NatsSource.new (cfg : NatsSourceConfig) : SaciResult NatsSource := do
  cfg.validate
  let js := cfg.mode
  let ackMode : AckMode :=
    match js.ackPolicy, js.doubleAck with
    | .none, _ => .never
    | _, true => .double
    | _, false => .single
  let serverCeiling := u32Saturated js.maxDeliver
  let maxDecodeAttempts :=
    if js.maxDeliver > 0 then min js.maxDecodeAttempts.toNat serverCeiling
    else js.maxDecodeAttempts.toNat
  return { cfg, ackMode, maxDecodeAttempts }

/-- Where a call waits. -/
inductive Phase
  /-- No call is under way. -/
  | idle
  /-- For the answer to the first of the pending acks. -/
  | acking
  /-- For a pull request to be taken, after the backoff if it is not the first. -/
  | requesting
  /-- For the next message of a pull. -/
  | receiving
  /-- For the consumer's own counters. -/
  | asking
  /-- For the answer to a termination. -/
  | retiring (termination : Termination)
  deriving DecidableEq

structure State where
  started : Bool
  /-- `cfg.batch_size`, which the host may overwrite. -/
  batchSize : Nat
  buffer : List Received
  pendingAcks : List Nat
  lastPending : Option Nat
  phase : Phase
  deriving DecidableEq

/-- What has happened to messages, beside what source and server remember. -/
structure History where
  /-- The messages of the batches that calls returned. -/
  returned : List Nat
  /-- The messages of windows that failed to decode, and those delivered to a pull nobody read. -/
  missed : List Nat
  terminations : List Termination
  deriving DecidableEq

structure World where
  source : State
  server : Consumer
  history : History

/-- A pull request. -/
structure Request where
  /-- `fetch`, which takes only what is there. -/
  noWait : Bool
  maxMessages : Nat
  expiresMs : Nat
  /-- 0 leaves the library default, and so for the heartbeat. -/
  maxBytes : Nat
  heartbeatMs : Nat
  deriving DecidableEq

structure Outstanding where
  pending : Nat
  ackPending : Nat
  deriving DecidableEq

def Outstanding.isDrained (o : Outstanding) : Bool := o.pending == 0 && o.ackPending == 0

/-- How `ensure_started` ends, where the source has not started. -/
inductive Start
  | ready
  | failed (error : SaciError)
  | dropped

/-- What a step is given. NATS's own errors are their texts. -/
inductive Input
  /-- `request_batch_rows`. -/
  | hint (rows : Nat)
  /-- `next_batch` is called. -/
  | call (start : Start)
  /-- An ack is answered; whether the server has taken it is another matter. -/
  | acked (landed : Bool) (answer : Except String Unit)
  | pulled (answer : Except String Unit)
  | received (sequence pending : Nat)
  /-- A message without JetStream metadata. -/
  | receivedBare (sequence : Nat) (error : String)
  | itemFailed (error : String)
  | pullEnded
  /-- The counters, and whether the time to confirm them is over. -/
  | outstanding (answer : Except String Outstanding) (expired : Bool)
  /-- A termination is answered. -/
  | terminated (landed : Bool) (answer : Except String Unit)
  /-- The call is dropped where it waits; whether the server takes the ack that was under way. -/
  | dropped (landed : Bool)
  /-- The server answers a pull that nobody reads any more. -/
  | unread (sequence : Nat)

/-- What a step shows. -/
inductive Output
  | requested (request : Request)
  | returned (result : SaciResult (Option RecordBatch))

/-! ## Decoding a window -/

section
variable (source : NatsSource) (transformer : MessageTransformer)

/-- `origin_label`. The consumer's name is what `to_consumer_config` gives it. -/
def originLabel (started : Bool) (sequence : Nat) : String :=
  let js := source.cfg.mode
  let consumer := (js.consumerName.or js.durableName).getD ""
  if started then s!"{js.stream}[{consumer}]@{sequence}" else s!"stream sequence {sequence}"

/-- The loop of `decode_window`. -/
def pushEach (started : Bool) (decoder : transformer.Decoder) (index : Nat) :
    List Received → Except DecodeFailure transformer.Decoder
  | [] => .ok decoder
  | message :: messages =>
    match transformer.push decoder message.payload with
    | .error e =>
      let label := originLabel source started message.sequence
      .error
        { index := some index, error := .generic s!"NatsSource: decode failed for {label}: {e}" }
    | .ok decoder => pushEach started decoder (index + 1) messages

/-- A failure that belongs to no one message. -/
def wholeWindow (error : SaciError) : DecodeFailure := { index := none, error }

def decodeWindow (started : Bool) (received : List Received) : Except DecodeFailure RecordBatch :=
  match transformer.openMessageDecoder with
  | .error e => .error (wholeWindow e)
  | .ok decoder =>
    match pushEach source transformer started decoder 0 received with
    | .error failure => .error failure
    | .ok decoder =>
      match transformer.flush decoder with
      | .error e => .error (wholeWindow e)
      | .ok (some batch) => .ok batch
      | .ok none => .error (wholeWindow (.generic "NatsSource: window decoded no rows"))

/-- The message a failure blames. A window of one message has nothing else to blame. -/
def blamed (window : List Received) (failure : DecodeFailure) : Option Received :=
  (failure.index.or (if window.length = 1 then some 0 else none)).bind fun index => window[index]?

/-- `retire_exhausted`, up to the message that it terminates. -/
def exhausted (window : List Received) (failure : DecodeFailure) : Option Received :=
  if source.maxDecodeAttempts = 0 then none
  else
    (blamed window failure).filter fun message =>
      decide (source.maxDecodeAttempts ≤ message.delivered) && message.ack.isSome

/-- What `retire_exhausted` reports of a message it terminated. -/
def retiredError (started : Bool) (termination : Termination) (answer : Except String Unit) :
    SaciError :=
  let label := originLabel source started termination.message.sequence
  let attempts := source.maxDecodeAttempts
  let reason := termination.failure.error.message
  match answer with
  | .ok () =>
    .generic <|
      s!"NatsSource: {label} failed to decode on all {attempts} delivery attempt(s) " ++
      "'mode.max_decode_attempts' allows and has been terminated, so the consumer can advance; " ++
      s!"the row(s) it carried are lost: {reason}"
  | .error e =>
    .generic <|
      s!"NatsSource: {label} failed to decode on all {attempts} delivery attempt(s) " ++
      s!"'mode.max_decode_attempts' allows and could not be terminated ({e}), so the server will " ++
      s!"redeliver it: {reason}"

/-! ## A call -/

/-- The call is over. -/
def finish (w : World) (result : SaciResult (Option RecordBatch)) : World × List Output :=
  ({ w with source := { w.source with phase := .idle } }, [.returned result])

/-- The end of `next_batch`: the whole buffer is taken, and then decoded. -/
def handOver (w : World) : World × List Output :=
  let window := w.source.buffer
  let sequences := window.map (·.sequence)
  let taken := { w.source with buffer := [] }
  match decodeWindow source transformer w.source.started window with
  | .ok batch =>
    finish
      { w with
        source := { taken with pendingAcks := taken.pendingAcks ++ window.filterMap (·.ack) }
        history := { w.history with returned := w.history.returned ++ sequences } }
      (.ok (some batch))
  | .error failure =>
    let history := { w.history with missed := w.history.missed ++ sequences }
    match exhausted source window failure with
    | none => finish { w with source := taken, history } (.error failure.error)
    | some message =>
      let termination := { message, window, failure }
      let terminations := history.terminations ++ [termination]
      ({ w with
          source := { taken with phase := .retiring termination }
          history := { history with terminations } }, [])

/-- The head of the loop of `collect_jetstream`: the next pull. -/
def pull (w : World) : World × List Output :=
  let room := max (w.source.batchSize - w.source.buffer.length) 1
  let js := source.cfg.mode
  let request :=
    { noWait := source.cfg.stopAtEnd
      maxMessages := room
      expiresMs := if source.cfg.stopAtEnd then js.fetchExpiresMs else source.cfg.pollTimeoutMs
      maxBytes := js.fetchMaxBytes
      heartbeatMs := js.heartbeatMs }
  ({ w with source := { w.source with phase := .requesting } }, [.requested request])

/-- `collect_jetstream` up to its first wait. -/
def collect (w : World) : World × List Output :=
  if source.cfg.stopAtEnd && !w.source.buffer.isEmpty then handOver source transformer w
  else pull source w

/-- `flush_pending_acks` up to the answer to the next ack, and what follows. -/
def flushPendingAcks (w : World) : World × List Output :=
  if source.ackMode = .never || w.source.pendingAcks.isEmpty then
    collect source transformer { w with source := { w.source with pendingAcks := [] } }
  else ({ w with source := { w.source with phase := .acking } }, [])

/-- `next_batch` up to its first wait. -/
def beginCall (w : World) (start : Start) : World × List Output :=
  if w.source.started then flushPendingAcks source transformer w
  else
    match start with
    | .ready =>
      flushPendingAcks source transformer { w with source := { w.source with started := true } }
    | .failed e => finish w (.error e)
    | .dropped => (w, [])

/-- An ack is answered. The acks that are still to be sent go with a failure. -/
def ackAnswered (w : World) (answer : Except String Unit) : World × List Output :=
  match answer with
  | .error e =>
    finish { w with source := { w.source with pendingAcks := [] } }
      (.error (.generic s!"NatsSource: ack failed: {e}"))
  | .ok () =>
    flushPendingAcks source transformer
      { w with source := { w.source with pendingAcks := w.source.pendingAcks.tail } }

/-- A pull is over. -/
def pullEnded (w : World) : World × List Output :=
  if !w.source.buffer.isEmpty then handOver source transformer w
  else if !source.cfg.stopAtEnd then pull source w
  else ({ w with source := { w.source with phase := .asking } }, [])

def unarrivedError (o : Outstanding) : SaciError :=
  .generic <|
    s!"NatsSource: stream '{source.cfg.mode.stream}' reports {o.pending} message(s) waiting and " ++
    s!"{o.ackPending} delivered but unacknowledged for this consumer, and none of them arrived; " ++
    "refusing to report end of stream"

/-- The counters tell an empty window from the end of the stream. -/
def confirm (w : World) (answer : Except String Outstanding) (expired : Bool) :
    World × List Output :=
  match answer with
  | .error e =>
    let stream := source.cfg.mode.stream
    finish w <| .error <| .generic <|
      s!"NatsSource: cannot read consumer info on stream '{stream}': {e}"
  | .ok o =>
    let w := { w with source := { w.source with lastPending := some o.pending } }
    if o.isDrained then finish w (.ok none)
    else if expired then finish w (.error (unarrivedError source o))
    else pull source w

def receivedOf (messages : Messages) (server : Consumer) (sequence : Nat) : Received where
  sequence := sequence
  payload := messages.payload sequence
  ack := if source.ackMode = .never then none else some sequence
  delivered := u32Saturated (server.count sequence)

end

/-! ## The server's side -/

/-- A message reaches a pull that the source reads. -/
def World.arrive (source : NatsSource) (messages : Messages) (w : World) (sequence pending : Nat) :
    World :=
  let server := w.server.deliver sequence
  let message := receivedOf source messages server sequence
  { w with
    server
    source :=
      { w.source with buffer := w.source.buffer ++ [message], lastPending := some pending } }

/-- A message is delivered, and nobody has it. -/
def World.miss (w : World) (sequence : Nat) : World :=
  { w with
    server := w.server.deliver sequence
    history := { w.history with missed := w.history.missed ++ [sequence] } }

/-- The ack under way reaches the server. -/
def World.land (js : JetstreamSourceMode) (messages : Messages) (w : World) : Bool → World
  | false => w
  | true =>
    match w.source.pendingAcks with
    | [] => w
    | acker :: _ => { w with server := w.server.acknowledge js messages acker }

/-- The termination under way reaches the server. -/
def World.landTermination (w : World) (termination : Termination) : Bool → World
  | false => w
  | true => { w with server := w.server.terminate termination.message.sequence }

/-! ## Steps -/

section
variable (source : NatsSource) (messages : Messages) (transformer : MessageTransformer)

/-- A call is dropped where it waits, and the acks still to be sent are dropped with it. -/
def dropCall (w : World) (landed : Bool) : World :=
  match w.source.phase with
  | .acking =>
    let w := w.land source.cfg.mode messages landed
    { w with source := { w.source with phase := .idle, pendingAcks := [] } }
  | .retiring termination =>
    let w := w.landTermination termination landed
    { w with source := { w.source with phase := .idle } }
  | _ => { w with source := { w.source with phase := .idle } }

/-- Source and server, from one wait to the next. An input that is no answer to what the source
waits for is no step, and neither is a delivery that the server does not make. -/
def step (w : World) (input : Input) : Except Unit (World × List Output) :=
  let stream := source.cfg.mode.stream
  match w.source.phase, input with
  | _, .unread sequence =>
    if Offers source.cfg.mode messages w.server sequence then .ok (w.miss sequence, []) else .error ()
  | .idle, .hint rows =>
    .ok ({ w with source := { w.source with batchSize := max rows 1 } }, [])
  | .idle, .call start => .ok (beginCall source transformer w start)
  | .idle, _ => .error ()
  | _, .dropped landed => .ok (dropCall source messages w landed, [])
  | .acking, .acked landed answer =>
    .ok (ackAnswered source transformer (w.land source.cfg.mode messages landed) answer)
  | .requesting, .pulled (.error e) =>
    .ok <| finish w <| .error <| .generic <|
      s!"NatsSource: pull request on stream '{stream}' failed: {e}"
  | .requesting, .pulled (.ok ()) =>
    .ok ({ w with source := { w.source with phase := .receiving } }, [])
  | .receiving, .received sequence pending =>
    if Offers source.cfg.mode messages w.server sequence then
      .ok (w.arrive source messages sequence pending, [])
    else .error ()
  | .receiving, .receivedBare sequence e =>
    if Offers source.cfg.mode messages w.server sequence then
      .ok <| finish (w.miss sequence) <| .error <| .generic <|
        s!"NatsSource: message on stream '{stream}' carries no JetStream metadata: {e}"
    else .error ()
  | .receiving, .itemFailed e =>
    .ok <| finish w <| .error <| .generic s!"NatsSource: pull on stream '{stream}' failed: {e}"
  | .receiving, .pullEnded => .ok (pullEnded source transformer w)
  | .asking, .outstanding answer expired => .ok (confirm source w answer expired)
  | .retiring termination, .terminated landed answer =>
    .ok <| finish (w.landTermination termination landed) <|
      .error (retiredError source w.source.started termination answer)
  | _, _ => .error ()

/-- A source that has not been called, over a consumer that has delivered nothing. -/
def start : World where
  source :=
    { started := false
      batchSize := source.cfg.batchSize
      buffer := []
      pendingAcks := []
      lastPending := none
      phase := .idle }
  server := Consumer.new
  history := { returned := [], missed := [], terminations := [] }

end
end Saci.Nats
