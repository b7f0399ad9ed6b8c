import Mathlib
import Saci.Connectors.SaciWireLaw

/-!
# Links between services

Sinks that dial and sources that listen (`saci-connector-saci/src/sink.rs` and `source.rs`). A sink
is between two calls or at an `await` of `write_batch`; a session of a source is at the handshake,
at its next frame or at the next batch it hands on. They meet in the bytes of their connection, and
every session of a source feeds its one bounded channel. Arrow's stream format is a parameter.
-/

namespace Saci.Wire

/-- Arrow's schemas and batches, `StreamEncoder` and `StreamDecoder`. -/
structure ArrowIpc (Schema Fields Batch : Type) extends ArrowSchema Schema where
  fields : Schema → Fields
  /-- The schema in an error's text. -/
  debug : Schema → String
  numRows : Batch → Nat
  Encoder : Type
  Decoder : Type
  /-- `StreamEncoder::try_new`. -/
  tryNew : Schema → Except String Encoder
  encode : Encoder → Batch → Except String (Bytes × Encoder)
  /-- `StreamDecoder::new`. -/
  decoder : Decoder
  /-- The batch that the front of the bytes completes, and what is left of them. -/
  decode : Decoder → Bytes → Except String (Option (Batch × Bytes) × Decoder)
  /-- What the stream declared so far. -/
  schema : Decoder → Option Schema
  /-- Batches that are whole and wait for the next byte. -/
  owed : Decoder → Nat
  shrinks : ∀ {decoder ipc batch rest decoder'},
    decode decoder ipc = .ok (some (batch, rest), decoder') →
      rest.length + owed decoder' < ipc.length + owed decoder

/-- A batch that is worth a frame. -/
abbrev ArrowIpc.Rows {Schema Fields Batch : Type} (arrow : ArrowIpc Schema Fields Batch) : Type :=
  { batch : Batch // arrow.numRows batch ≠ 0 }

/-- Arrow reads back what it wrote for the schema, one batch from the bytes of each, as it does
where rows have buffers; `Paired` is how far an encoder and a decoder of one stream are. -/
structure ArrowIpc.Faithful {Schema Fields Batch : Type} (arrow : ArrowIpc Schema Fields Batch)
    (schema : Schema) (Paired : arrow.Encoder → arrow.Decoder → Prop) : Prop where
  fresh : ∀ {encoder}, arrow.tryNew schema = .ok encoder → Paired encoder arrow.decoder
  reads : ∀ {encoder encoder' decoder batch ipc}, arrow.numRows batch ≠ 0 → Paired encoder decoder →
    arrow.encode encoder batch = .ok (ipc, encoder') → ipc ≠ [] ∧ ∃ decoder',
      arrow.decode decoder ipc = .ok (some (batch, []), decoder') ∧ Paired encoder' decoder' ∧
        arrow.schema decoder' = some schema

/-- The configuration of a source. -/
structure SaciSource (Schema : Type) where
  schema : Schema
  buffer : Nat
  maxFrameBytes : Nat

/-- The configuration of a sink. -/
structure SaciSink (Addr Schema : Type) where
  peers : List Addr
  schema : Schema
  identity : NodeIdentity

section
variable {Schema Fields Batch Addr ι : Type} [DecidableEq Fields]
  (arrow : ArrowIpc Schema Fields Batch)

/-! ## The session of a source -/

/-- What a read meets where the bytes run out: nothing yet, the end, or an error. -/
inductive Ending
  | waits
  | ends (eof : Bool) (e : String)

inductive Incoming
  | body (body : Bytes)
  | eof

/-- Read one length-prefixed frame body, and what is left to read; `none` while it is not there. -/
def readFrame (maxFrameBytes : Nat) (unread : Bytes) (ending : Ending) :
    Option (Except String Incoming × Bytes) :=
  if unread.length < 4 then
    match ending with
    | .waits => none
    | .ends true _ => some (.ok .eof, [])
    | .ends false e => some (.error s!"frame header read failed: {e}", [])
  else
    let len := beValue (unread.take 4)
    let rest := unread.drop 4
    if len = 0 then
      some (.error "a frame announced a zero-length body", rest)
    else if len > maxFrameBytes then
      some (.error s!"a frame announced {len} bytes, above the {maxFrameBytes} byte cap", rest)
    else if rest.length < len then
      match ending with
      | .waits => none
      | .ends _ e => some (.error s!"truncated frame body: {e}", [])
    else some (.ok (.body (rest.take len)), rest.drop len)

/-- Feed one frame's IPC bytes to the session decoder and collect what they complete. -/
def decodeBatches (decoder : arrow.Decoder) (ipc : Bytes) :
    SaciResult (List Batch × arrow.Decoder) :=
  if ipc = [] then
    .ok ([], decoder)
  else
    match _h : arrow.decode decoder ipc with
    | .error e => .error (.generic s!"SaciSource: {e}")
    | .ok (none, decoder) => .ok ([], decoder)
    | .ok (some (batch, rest), decoder) => do
      let (batches, decoder) ← decodeBatches decoder rest
      .ok (batch :: batches, decoder)
termination_by ipc.length + arrow.owed decoder
decreasing_by exact arrow.shrinks _h

/-- Where `serve_session` is. -/
inductive Phase
  | handshake
  /-- In `receive`: the batches that are decoded and still to be sent on the channel. -/
  | receiving (decoder : arrow.Decoder) (schemaChecked : Bool) (batches : List Batch)
  | ended

/-- What the first frame comes to: an accept, a refusal with its reason, or no answer. -/
def handshake (source : SaciSource Schema) : Except String Incoming → Option (Except String Unit)
  | .ok (.body body) =>
    match helloVersion body with
    | some version =>
      if version ≠ PROTOCOL_VERSION then
        some (.error s!"protocol version {version} is not supported; this source speaks version {PROTOCOL_VERSION}")
      else decide body
    | none => decide body
  | _ => none
where
  decide (body : Bytes) : Option (Except String Unit) :=
    match (decodeFrame arrow.toArrowSchema body).result with
    | .ok (.hello _ _ schema) =>
      if arrow.fields schema ≠ arrow.fields source.schema then
        some (.error s!"schema mismatch: the peer declares {arrow.debug schema}, this source declares {arrow.debug source.schema}")
      else some (.ok ())
    | .ok other => some (.error s!"expected a hello frame, got frame kind {other.kind}")
    | .error _ => none

/-- What goes back, and where `serve_session` is after it; a write that fails cuts the answer. -/
def answered (source : SaciSource Schema) (incoming : Except String Incoming) (cut : Option Nat) :
    Bytes × Phase arrow :=
  match handshake arrow source incoming with
  | none => ([], .ended)
  | some (.error reason) =>
    match written (encodeFrame arrow.toArrowSchema (.reject reason)) with
    | .error _ => ([], .ended)
    | .ok bytes => (bytes.take (cut.getD bytes.length), .ended)
  | some (.ok ()) =>
    match written (encodeFrame arrow.toArrowSchema .accept) with
    | .error _ => ([], .ended)
    | .ok bytes =>
      (bytes.take (cut.getD bytes.length), if cut = none then .receiving arrow.decoder false [] else .ended)

/-- One turn of the loop of `receive`, up to the batches it completes. -/
def receive (source : SaciSource Schema) (decoder : arrow.Decoder) (schemaChecked : Bool) :
    Except String Incoming → Phase arrow
  | .ok (.body body) =>
    match (decodeFrame arrow.toArrowSchema body).result with
    | .ok (.data _ ipc) =>
      match decodeBatches arrow decoder ipc with
      | .error _ => .ended
      | .ok (batches, decoder) =>
        match schemaChecked, arrow.schema decoder with
        | false, some declared =>
          if arrow.fields declared ≠ arrow.fields source.schema then .ended
          else .receiving decoder true batches
        | _, _ => .receiving decoder schemaChecked batches
    | _ => .ended
  | _ => .ended

/-! ## The session of a sink -/

def MAX_REPLY_BYTES : Nat := 65536

/-- The frame that answered the hello, if what came back is one; `e` is how the read failed where
the bytes end. -/
def readReply (e : String) (bytes : Bytes) : SaciResult (Frame Schema) :=
  if bytes.length < 4 then
    .error (.generic s!"reading the reply failed: {e}")
  else
    let len := beValue (bytes.take 4)
    if len = 0 ∨ len > MAX_REPLY_BYTES then
      .error (.generic s!"answered a {len} byte reply, which is not a reply this protocol has")
    else if (bytes.drop 4).length < len then
      .error (.generic s!"reading the reply body failed: {e}")
    else
      match (decodeFrame arrow.toArrowSchema ((bytes.drop 4).take len)).result with
      | .ok frame => .ok frame
      | .error (.refused e) => .error e
      | .error .trap => .error (.generic "")

/-- The bytes of the hello. -/
def hello (sink : SaciSink Addr Schema) : SaciResult Bytes :=
  written (encodeFrame arrow.toArrowSchema (.hello PROTOCOL_VERSION sink.identity sink.schema))

/-- What `write_frame` writes: the header, then the encoder's bytes as they are. -/
def dataFrame (traceparent : Option String) (ipc : Bytes) : SaciResult Bytes :=
  (dataHeader traceparent ipc.length).map (· ++ ipc)

/-- Where a sink is: between two calls, with the session it has, or in `write_batch`. A session is
named by its connection. -/
inductive Sender (Addr : Type)
  | idle (session : Option Nat)
  /-- In `open_session`, with the peers still to be tried. -/
  | opening (batch : arrow.Rows) (peers : List Addr)
  /-- In `try_peer`, at the peer's answer. -/
  | waiting (batch : arrow.Rows) (peers : List Addr) (session : Nat)
  | sending (batch : arrow.Rows) (session : Nat)

variable {arrow} in

/-- The connection that a sink holds. -/
def Sender.session : Sender arrow Addr → Option Nat
  | .idle session => session
  | .opening .. => none
  | .waiting _ _ session | .sending _ session => some session

variable {arrow} in
/-- The session that a sink takes for open. -/
def Sender.opened : Sender arrow Addr → Option Nat
  | .waiting .. => none
  | sender => sender.session

/-! ## The services together -/

/-- A connection: the sink's session on it, the bytes under way and the source's session. What was
written to it is kept, with the write that failed, if one did. -/
structure Link (Addr ι : Type) where
  sink : ι
  peer : Addr
  encoder : arrow.Encoder
  unread : Bytes
  reply : Bytes
  phase : Phase arrow
  written : List Batch
  failed : Option Batch

/-- A source's channel and what was taken from it; a batch stands with its connection. -/
structure Receiver (Batch : Type) where
  queue : List (Nat × Batch)
  yielded : List (Nat × Batch)

/-- `tx.send`. -/
def Receiver.send (receiver : Receiver Batch) (item : Nat × Batch) : Receiver Batch :=
  { receiver with queue := receiver.queue ++ [item] }

structure World (Addr ι : Type) where
  senders : ι → Sender arrow Addr
  links : List (Link arrow Addr ι)
  receivers : Addr → Receiver Batch

variable {arrow} in
def Link.attempts (link : Link arrow Addr ι) : List Batch := link.written ++ link.failed.toList

variable [DecidableEq Addr] [DecidableEq ι] (sinks : ι → SaciSink Addr Schema)
  (sources : Addr → SaciSource Schema)

/-- A sink goes on by itself. A batch without rows is not written at all. -/
inductive Sender.Turn (sink : SaciSink Addr Schema) : Sender arrow Addr → Sender arrow Addr → Prop
  | write : Turn sink (.idle none) (.opening batch sink.peers)
  | reuse : Turn sink (.idle (some l)) (.sending batch l)
  /-- The peer could not be dialled. -/
  | unreachable : Turn sink (.opening batch (peer :: peers)) (.opening batch peers)
  | unsupported (herror : arrow.tryNew sink.schema = .error e) :
      Turn sink (.opening batch (peer :: peers)) (.idle none)
  | exhausted : Turn sink (.opening batch []) (.idle none)
  /-- The answer was late, was none of this protocol, or could not be read. -/
  | unanswered : Turn sink (.waiting batch peers l) (.opening batch peers)
  /-- The batch or its frame could not be encoded, and nothing was written. -/
  | unencoded : Turn sink (.sending batch l) (.idle none)
  | finish : Turn sink (.idle (some l)) (.idle none)

/-- One step of a sink, of a session of a source or of a source. -/
inductive Step (world : World arrow Addr ι) : World arrow Addr ι → Prop
  | turn {sender} (hturn : Sender.Turn arrow (sinks i) (world.senders i) sender) :
      Step world { world with senders := Function.update world.senders i sender }
  /-- The hello goes out, or a front of it. -/
  | dial (hsender : world.senders i = .opening batch (peer :: peers))
      (hencoder : arrow.tryNew (sinks i).schema = .ok encoder)
      (hhello : hello arrow (sinks i) = .ok bytes) (hfront : front <+: bytes) :
      Step world { world with
        senders := Function.update world.senders i (.waiting batch peers world.links.length)
        links := world.links ++ [⟨i, peer, encoder, front, [], .handshake, [], none⟩] }
  | accepted (hsender : world.senders i = .waiting batch peers l) (hlink : world.links[l]? = some link)
      (hreply : readReply arrow e link.reply = .ok .accept) :
      Step world { world with senders := Function.update world.senders i (.sending batch l) }
  | refused (hsender : world.senders i = .waiting batch peers l) (hlink : world.links[l]? = some link)
      (hreply : readReply arrow e link.reply = .ok (.reject reason)) :
      Step world { world with senders := Function.update world.senders i (.idle none) }
  | sent (hsender : world.senders i = .sending batch l) (hlink : world.links[l]? = some link)
      (hencode : arrow.encode link.encoder batch.1 = .ok (ipc, encoder))
      (htrace : traceparent ≠ some "") (hframe : dataFrame traceparent ipc = .ok bytes) :
      Step world { world with
        senders := Function.update world.senders i (.idle (some l))
        links := world.links.set l { link with
          encoder, unread := link.unread ++ bytes, written := link.written ++ [batch.1] } }
  /-- A write or the flush failed, after some of the bytes went out. -/
  | failed (hsender : world.senders i = .sending batch l) (hlink : world.links[l]? = some link)
      (hencode : arrow.encode link.encoder batch.1 = .ok (ipc, encoder))
      (htrace : traceparent ≠ some "") (hframe : dataFrame traceparent ipc = .ok bytes)
      (hfront : front <+: bytes) :
      Step world { world with
        senders := Function.update world.senders i (.idle none)
        links := world.links.set l { link with
          encoder, unread := link.unread ++ front, failed := some batch.1 } }
  | shake (hlink : world.links[l]? = some link) (hphase : link.phase = .handshake)
      (hread : readFrame (sources link.peer).maxFrameBytes link.unread ending = some (incoming, rest))
      (hanswer : answered arrow (sources link.peer) incoming cut = (reply, phase)) :
      Step world { world with links := world.links.set l { link with unread := rest, reply, phase } }
  | receive (hlink : world.links[l]? = some link) (hphase : link.phase = .receiving decoder checked [])
      (hread : readFrame (sources link.peer).maxFrameBytes link.unread ending = some (incoming, rest)) :
      Step world { world with links := world.links.set l { link with
        unread := rest, phase := receive arrow (sources link.peer) decoder checked incoming } }
  /-- Bounded send. -/
  | push (hlink : world.links[l]? = some link)
      (hphase : link.phase = .receiving decoder checked (batch :: batches))
      (hroom : (world.receivers link.peer).queue.length < max (sources link.peer).buffer 1) :
      Step world { world with
        links := world.links.set l { link with phase := .receiving decoder checked batches }
        receivers := Function.update world.receivers link.peer
          ((world.receivers link.peer).send (l, batch)) }
  /-- The source is gone. -/
  | closed (hlink : world.links[l]? = some link) :
      Step world { world with links := world.links.set l { link with phase := .ended } }
  | nextBatch (hqueue : (world.receivers peer).queue = item :: queue) :
      Step world { world with
        receivers := Function.update world.receivers peer
          { queue, yielded := (world.receivers peer).yielded ++ [item] } }

/-- What the services come to from the start, where nothing is dialled. -/
inductive Reachable : World arrow Addr ι → Prop
  | start : Reachable ⟨fun _ => .idle none, [], fun _ => ⟨[], []⟩⟩
  | step {world world'} : Reachable world → Step arrow sinks sources world world' → Reachable world'

end

end Saci.Wire
