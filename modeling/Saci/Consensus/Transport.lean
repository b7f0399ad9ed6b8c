import Saci.Library.Table
import Saci.Consensus.Types

/-!
# Snapshot transfer over the Raft transport

A snapshot goes to a peer in chunks on one stream: `sendSnapshotChunks` is the sender
(`transport/client.rs`), `handleEnvelope` and `handleConnection` are the connection task that puts
the chunks back together (`transport/server.rs`), and the messages are those of
`transport/wire.rs`. What openraft exchanges and answers is a parameter; clock readings are inputs.
-/

namespace Saci

/-- The types openraft instantiates for the messages that pass through the transport. -/
structure SaciTypeConfig where
  AppendEntriesRequest : Type
  AppendEntriesResponse : Type
  VoteRequest : Type
  VoteResponse : Type
  SnapshotResponse : Type
  VoteOf : Type
  SnapshotMetaOf : Type

variable {T : SaciTypeConfig}

/-! ## Constants, with durations in nanoseconds -/

def SNAPSHOT_CHUNK_BYTES : Nat := 4 * 1024 * 1024

def MAX_SNAPSHOT_CHUNK_BYTES : Nat := SNAPSHOT_CHUNK_BYTES

def SNAPSHOT_MAX_TRANSFER_BYTES : Nat := 256 * 1024 * 1024

def SNAPSHOT_MAX_CONCURRENT_TRANSFERS : Nat := 4

def SNAPSHOT_TRANSFER_IDLE_TIMEOUT : Nat := 30 * 1000000000

/-! ## Messages -/

/-- A single data chunk within a snapshot transfer. -/
structure SnapshotChunkMsg where
  transferId : UInt64
  offset : UInt64
  data : Bytes

/-- The last (or only) chunk, with the metadata. -/
structure SnapshotFinalMsg (T : SaciTypeConfig) where
  transferId : UInt64
  offset : UInt64
  data : Bytes
  vote : T.VoteOf
  meta_ : T.SnapshotMetaOf

inductive RpcEnvelope (T : SaciTypeConfig)
  | appendEntries (req : T.AppendEntriesRequest)
  | vote (req : T.VoteRequest)
  | snapshotChunk (chunk : SnapshotChunkMsg)
  | snapshotFinal (final : SnapshotFinalMsg T)
  | proposalForward (command : ConsensusCommand)

inductive RpcResponse (T : SaciTypeConfig)
  | appendEntries (resp : T.AppendEntriesResponse)
  | vote (resp : T.VoteResponse)
  | snapshotChunkAck (transferId : UInt64)
  | snapshotDone (resp : T.SnapshotResponse)
  | error (message : String)
  | proposalResult (ok : Option ConsensusResponse) (err : Option String)

/-- The transfer a message belongs to. -/
def RpcEnvelope.transferId? : RpcEnvelope T → Option UInt64
  | .snapshotChunk chunk => some chunk.transferId
  | .snapshotFinal final => some final.transferId
  | .appendEntries _ | .vote _ | .proposalForward _ => none

/-! ## The receiving side -/

/-- What `raft.install_full_snapshot` is called with. -/
structure Snapshot (T : SaciTypeConfig) where
  meta_ : T.SnapshotMetaOf
  snapshot : Bytes

/-- How the spawned install can fail. -/
inductive InstallError
  | raft (message : String)
  | join (message : String)

/-- How a `client_write` under its timeout can fail. -/
inductive WriteError
  | forwardToLeader
  | raft (message : String)
  | elapsed

/-- The local Raft node, as the answers it gives at the time of one message. -/
structure Raft (T : SaciTypeConfig) where
  appendEntries : T.AppendEntriesRequest → Except String T.AppendEntriesResponse
  vote : T.VoteRequest → Except String T.VoteResponse
  installFullSnapshot : T.VoteOf → Snapshot T → Except InstallError T.SnapshotResponse
  clientWrite : ConsensusCommand → Except WriteError ConsensusResponse

/-- The receiving side of a transfer under way. -/
structure InFlightSnapshot where
  data : Bytes
  lastChunkAt : Nat
  deriving DecidableEq

/-- The reassembly state of one connection. -/
abbrev SnapshotTransfers := Table UInt64 InFlightSnapshot

/-- One message as the connection task meets it: the node's answers and the clock while it is
handled. The retain pass reads the clock once for each transfer, and again after the append. -/
structure Delivery (T : SaciTypeConfig) where
  envelope : RpcEnvelope T
  raft : Raft T
  examinedAt : UInt64 → Nat
  stampedAt : Nat

/-- The response to a message, and the snapshot the node was told to install, if any. -/
structure Handled (T : SaciTypeConfig) where
  response : RpcResponse T
  install : Option (T.VoteOf × Snapshot T)

/-- `last_chunk_at.elapsed() <= SNAPSHOT_TRANSFER_IDLE_TIMEOUT` at instant `now`. -/
def InFlightSnapshot.fresh (now : Nat) (inFlight : InFlightSnapshot) : Bool :=
  now - inFlight.lastChunkAt ≤ SNAPSHOT_TRANSFER_IDLE_TIMEOUT

/-- `RpcEnvelope::SnapshotChunk`. -/
def handleSnapshotChunk (d : Delivery T) (chunk : SnapshotChunkMsg)
    (snapshotTransfers : SnapshotTransfers) : SnapshotTransfers × RpcResponse T :=
  let transferId := chunk.transferId
  let snapshotTransfers := snapshotTransfers.retain fun id v => v.fresh (d.examinedAt id)
  if (snapshotTransfers.get transferId).isNone ∧
      SNAPSHOT_MAX_CONCURRENT_TRANSFERS ≤ snapshotTransfers.rows.length then
    (snapshotTransfers, .error ("too many concurrent snapshot transfers " ++
      s!"(max {SNAPSHOT_MAX_CONCURRENT_TRANSFERS})"))
  else
    let data := ((snapshotTransfers.get transferId).map (·.data)).getD []
    let newSize := data.length + chunk.data.length
    if SNAPSHOT_MAX_TRANSFER_BYTES < newSize then
      (snapshotTransfers.remove transferId,
        .error (s!"snapshot transfer {transferId} exceeded size limit " ++
          s!"({SNAPSHOT_MAX_TRANSFER_BYTES} bytes)"))
    else
      (snapshotTransfers.insert transferId ⟨data ++ chunk.data, d.stampedAt⟩,
        .snapshotChunkAck transferId)

/-- `RpcEnvelope::SnapshotFinal`. -/
def handleSnapshotFinal (d : Delivery T) (finalMsg : SnapshotFinalMsg T)
    (snapshotTransfers : SnapshotTransfers) : SnapshotTransfers × Handled T :=
  let buf := ((snapshotTransfers.get finalMsg.transferId).map (·.data)).getD []
  let snapshot : Snapshot T := ⟨finalMsg.meta_, buf ++ finalMsg.data⟩
  let response : RpcResponse T :=
    match d.raft.installFullSnapshot finalMsg.vote snapshot with
    | .ok resp => .snapshotDone resp
    | .error (.raft e) => .error e
    | .error (.join e) => .error s!"snapshot install task panicked: {e}"
  (snapshotTransfers.remove finalMsg.transferId, ⟨response, some (finalMsg.vote, snapshot)⟩)

/-- Dispatch one decoded envelope to the local Raft node. -/
def handleEnvelope (d : Delivery T) (snapshotTransfers : SnapshotTransfers) :
    SnapshotTransfers × Handled T :=
  match d.envelope with
  | .appendEntries req =>
    match d.raft.appendEntries req with
    | .ok resp => (snapshotTransfers, ⟨.appendEntries resp, none⟩)
    | .error e => (snapshotTransfers, ⟨.error e, none⟩)
  | .vote req =>
    match d.raft.vote req with
    | .ok resp => (snapshotTransfers, ⟨.vote resp, none⟩)
    | .error e => (snapshotTransfers, ⟨.error e, none⟩)
  | .snapshotChunk chunk =>
    let (snapshotTransfers, response) := handleSnapshotChunk d chunk snapshotTransfers
    (snapshotTransfers, ⟨response, none⟩)
  | .snapshotFinal finalMsg => handleSnapshotFinal d finalMsg snapshotTransfers
  | .proposalForward command =>
    let response : RpcResponse T :=
      match d.raft.clientWrite command with
      | .ok resp => .proposalResult (some resp) none
      | .error .forwardToLeader => .proposalResult none (some "not leader")
      | .error (.raft e) => .proposalResult none (some e)
      | .error .elapsed => .proposalResult none (some "server-side client_write timeout")
    (snapshotTransfers, ⟨response, none⟩)

/-- The messages of one connection and how each is handled. -/
def handleConnection (snapshotTransfers : SnapshotTransfers) :
    List (Delivery T) → List (Delivery T × Handled T)
  | [] => []
  | d :: ds =>
    let (snapshotTransfers, handled) := handleEnvelope d snapshotTransfers
    (d, handled) :: handleConnection snapshotTransfers ds

/-! ## The sending side -/

/-- How `send_snapshot_chunks` fails on a stream that works. -/
inductive TransferError (T : SaciTypeConfig)
  | chunkTooLarge (chunkLen : Nat)
  | fromPeer (message : String)
  | unexpectedResponse (other : RpcResponse T)
  | noFinalResponse

/-- The message that carries `body[offset..end]`. -/
def chunkEnvelope (vote : T.VoteOf) (meta_ : T.SnapshotMetaOf) (body : Bytes)
    (transferId : UInt64) (offset end_ : Nat) : RpcEnvelope T :=
  let chunkData := (body.take end_).drop offset
  if end_ = body.length then
    .snapshotFinal ⟨transferId, .ofNat offset, chunkData, vote, meta_⟩
  else
    .snapshotChunk ⟨transferId, .ofNat offset, chunkData⟩

/-- The messages sent from `offset` on, one for each response that came back and one more, and the
result, once there is one. `chunkBytes` is `SNAPSHOT_CHUNK_BYTES`. -/
def sendSnapshotChunks (chunkBytes : Nat) (vote : T.VoteOf) (meta_ : T.SnapshotMetaOf)
    (body : Bytes) (transferId : UInt64) (offset : Nat) (responses : List (RpcResponse T)) :
    List (RpcEnvelope T) × Option (Except (TransferError T) T.SnapshotResponse) :=
  let total := body.length
  let end_ := min (offset + chunkBytes) total
  let envelope := chunkEnvelope vote meta_ body transferId offset end_
  if MAX_SNAPSHOT_CHUNK_BYTES < end_ - offset then
    ([], some (.error (.chunkTooLarge (end_ - offset))))
  else
    match responses with
    | [] => ([envelope], none)
    | .snapshotChunkAck _ :: responses =>
      if end_ = total then
        ([envelope], some (.error .noFinalResponse))
      else
        let (envelopes, result) :=
          sendSnapshotChunks chunkBytes vote meta_ body transferId end_ responses
        (envelope :: envelopes, result)
    | .snapshotDone resp :: _ => ([envelope], some (.ok resp))
    | .error message :: _ => ([envelope], some (.error (.fromPeer message)))
    | other :: _ => ([envelope], some (.error (.unexpectedResponse other)))

end Saci
