import Saci.Core.RecordBatch
import Saci.Library.Run

/-!
# The Kafka source

`KafkaSource` (`saci-connector-kafka/src/source.rs`) in its live and `stop_at_end` modes, as a
machine with one step for each answer `next_batch` waits for: what the broker delivers, a poll
error, the end of the poll window, or that the call is dropped. The consumer group, provisioning and
the compacted snapshot are left out; the message decoder is whatever the transformer opens.
-/

namespace Saci.Kafka

/-- One message pulled off the consumer; a tombstone has no payload. -/
structure ReceivedMessage where
  topic : String
  partition : Int
  offset : Int
  payload : Option Bytes
  deriving DecidableEq

/-- The message codec of a format, for the source's schema. -/
structure MessageTransformer where
  Decoder : Type
  openMessageDecoder : SaciResult Decoder
  push : Decoder → Bytes → SaciResult Decoder
  flush : Decoder → SaciResult (Option RecordBatch)

structure KafkaSourceConfig where
  topics : List String
  batchSize : Nat
  stopAtEnd : Bool
  commitOnDrain : Bool

/-- Where a call waits. -/
inductive Phase
  /-- No call is under way. -/
  | idle
  /-- For the first message of a live source. -/
  | blocking
  /-- For more messages until the window is over. -/
  | window (sawUnknownTopic : Bool)
  deriving DecidableEq

structure State where
  started : Bool
  /-- Messages taken from the broker and not yet handed to the caller. -/
  buffer : List ReceivedMessage
  /-- A batch has been handed to the caller and its offsets are not committed. -/
  pendingCommit : Bool
  /-- Partitions observed at their end. -/
  eof : List Int
  batchSize : Nat
  phase : Phase
  deriving DecidableEq

/-- How `ensure_started` ends, where the source has not started. -/
inductive Start
  | ready
  | failed (error : SaciError)
  | dropped

/-- What a step is given. Kafka's own errors are their texts. -/
inductive Input
  /-- `request_batch_rows`. -/
  | hint (rows : Nat)
  /-- `next_batch` is called: how the source starts, what a commit answers, and the assignment. -/
  | call (start : Start) (commit : Except String Unit) (assignment : Except String (List Int))
  | received (message : ReceivedMessage)
  | partitionEof (partition : Int) (assignment : Except String (List Int))
  /-- The topic is unknown; whether the deadline for that has passed. -/
  | unknownTopic (expired : Bool)
  | pollFailed (error : String)
  | elapsed
  /-- The call is dropped where it waits. -/
  | dropped

/-- What happens in a step. -/
inductive Output
  | delivered (message : ReceivedMessage)
  /-- `commit_consumer_state`. -/
  | committed
  | returned (window : List ReceivedMessage) (batch : RecordBatch)
  /-- The window did not decode. -/
  | undecoded (window : List ReceivedMessage) (error : SaciError)
  /-- The call failed before a window was taken. -/
  | refused (error : SaciError)
  /-- `Ok(None)`. -/
  | drained

/-! ## Decoding a window -/

section
variable (transformer : MessageTransformer)

/-- The loop of `decode_window`. -/
def pushEach (decoder : transformer.Decoder) : List ReceivedMessage → SaciResult transformer.Decoder
  | [] => .ok decoder
  | message :: messages =>
    match message.payload with
    | none => pushEach decoder messages
    | some payload =>
      match transformer.push decoder payload with
      | .error e =>
        .error <| .generic <|
          s!"KafkaSource: decode failed for {message.topic}[{message.partition}]" ++
          s!"@{message.offset}: {e}"
      | .ok decoder => pushEach decoder messages

def decodeWindow (messages : List ReceivedMessage) : SaciResult RecordBatch := do
  let decoder ← transformer.openMessageDecoder
  let decoder ← pushEach transformer decoder messages
  match ← transformer.flush decoder with
  | some batch => .ok batch
  | none => .error (.generic "KafkaSource: window decoded no rows")

end

/-! ## Collecting -/

section
variable (cfg : KafkaSourceConfig)

def unknownTopicError : SaciError :=
  .generic <|
    s!"KafkaSource: poll failed: topic(s) {repr cfg.topics} were never visible to the consumer; if " ++
    "provision.create = false, they may not exist"

def pollError (error : String) : SaciError := .generic s!"KafkaSource: poll failed: {error}"

def fullyDrained (eof : List Int) (assignment : Except String (List Int)) : SaciResult Bool :=
  match assignment with
  | .error e => .error (.generic s!"KafkaSource: cannot read assignment: {e}")
  | .ok partitions => .ok (!partitions.isEmpty && partitions.all fun partition => partition ∈ eof)

/-- A collection goes on waiting, or is over. -/
inductive Turn
  | waits (s : State)
  | ended (s : State) (result : SaciResult Unit)

/-- The end of the loop over a window. Only a `stop_at_end` source minds a topic it never saw. -/
def closeWindow (s : State) (sawUnknownTopic : Bool) : Turn :=
  .ended s (if s.buffer.isEmpty && sawUnknownTopic then .error (unknownTopicError cfg) else .ok ())

/-- The head of the loop over a window. -/
def windowTurn (s : State) (sawUnknownTopic : Bool) : Turn :=
  if s.buffer.length < s.batchSize then .waits { s with phase := .window sawUnknownTopic }
  else closeWindow cfg s sawUnknownTopic

/-- `collect_live` and `collect_bounded` up to the first wait. -/
def beginCollect (s : State) (assignment : Except String (List Int)) : Turn :=
  if cfg.stopAtEnd then
    if s.buffer.isEmpty then windowTurn cfg s false
    else
      match fullyDrained s.eof assignment with
      | .error e => .ended s (.error e)
      | .ok true => .ended s (.ok ())
      | .ok false => windowTurn cfg s false
  else if s.buffer.isEmpty then .waits { s with phase := .blocking }
  else windowTurn cfg s false

/-- What a collection does with an answer of the broker. -/
def collect (s : State) (input : Input) : Option Turn :=
  match s.phase, input with
  | .blocking, .received message =>
    some (windowTurn cfg { s with buffer := s.buffer ++ [message] } false)
  | .blocking, .partitionEof _ _ => some (.waits s)
  | .blocking, .unknownTopic expired =>
    some (if expired then .ended s (.error (unknownTopicError cfg)) else .waits s)
  | .blocking, .pollFailed e => some (.ended s (.error (pollError e)))
  | .window saw, .received message =>
    some (windowTurn cfg { s with buffer := s.buffer ++ [message] } saw)
  | .window saw, .partitionEof partition assignment =>
    if cfg.stopAtEnd then
      let seen := { s with eof := partition :: s.eof }
      match fullyDrained seen.eof assignment with
      | .error e => some (.ended seen (.error e))
      | .ok true => some (closeWindow cfg seen saw)
      | .ok false => some (windowTurn cfg seen saw)
    else some (windowTurn cfg s saw)
  | .window saw, .unknownTopic _ => some (windowTurn cfg s (saw || cfg.stopAtEnd))
  | .window _, .pollFailed e => some (.ended s (.error (pollError e)))
  | .window saw, .elapsed => some (closeWindow cfg s saw)
  | _, _ => none

/-! ## A call -/

/-- `commit_pending`, and what it leaves. -/
def commitPending (s : State) (commit : Except String Unit) : State × List Output × SaciResult Unit :=
  if s.pendingCommit && cfg.commitOnDrain then
    match commit with
    | .error e => (s, [], .error (.generic s!"KafkaSource: commit failed: {e}"))
    | .ok () => ({ s with pendingCommit := false }, [.committed], .ok ())
  else ({ s with pendingCommit := false }, [], .ok ())

/-- `next_batch` of a source that has started, up to the first wait of its collection. -/
def commitAndCollect (s : State) (commit : Except String Unit)
    (assignment : Except String (List Int)) : List Output × Turn :=
  match commitPending cfg s commit with
  | (s, outputs, .error e) => (outputs, .ended s (.error e))
  | (s, outputs, .ok ()) => (outputs, beginCollect cfg s assignment)

/-- `next_batch` up to the first wait of its collection. -/
def beginCall (s : State) (start : Start) (commit : Except String Unit)
    (assignment : Except String (List Int)) : List Output × Turn :=
  if s.started then commitAndCollect cfg s commit assignment
  else
    match start with
    | .ready => commitAndCollect cfg { s with started := true } commit assignment
    | .failed e => ([], .ended s (.error e))
    | .dropped => ([], .waits s)

/-- What a step does before a window is taken. -/
def turnOf (s : State) (input : Input) : Option (List Output × Turn) :=
  match s.phase, input with
  | .idle, .hint rows => some ([], .waits { s with batchSize := max rows 1 })
  | .idle, .call start commit assignment => some (beginCall cfg s start commit assignment)
  | .idle, _ => none
  | _, .dropped => some ([], .waits { s with phase := .idle })
  | _, .received message =>
    (collect cfg s (.received message)).map fun turn => ([.delivered message], turn)
  | _, input => (collect cfg s input).map fun turn => ([], turn)

variable (transformer : MessageTransformer)

/-- The end of `next_batch`: the whole buffer is taken, and then decoded. -/
def settle (turn : Turn) : State × List Output :=
  match turn with
  | .waits s => (s, [])
  | .ended s (.error e) => ({ s with phase := .idle }, [.refused e])
  | .ended s (.ok ()) =>
    if s.buffer.isEmpty then ({ s with phase := .idle }, [.drained])
    else
      match decodeWindow transformer s.buffer with
      | .ok batch =>
        ({ s with phase := .idle, buffer := [], pendingCommit := true },
          [.returned s.buffer batch])
      | .error e => ({ s with phase := .idle, buffer := [] }, [.undecoded s.buffer e])

/-- `KafkaSource`, from one wait to the next. -/
def step (s : State) (input : Input) : Except Unit (State × List Output) :=
  match turnOf cfg s input with
  | some (outputs, turn) => .ok ((settle transformer turn).1, outputs ++ (settle transformer turn).2)
  | none => .error ()

def start : State where
  started := false
  buffer := []
  pendingCommit := false
  eof := []
  batchSize := cfg.batchSize
  phase := .idle

end
end Saci.Kafka
