import Saci.Library.Codec
import Saci.Library.Framing
import Saci.Consensus.SnapshotIo

/-!
# The bytes of a snapshot

A header with a checksum, one frame for each table and a terminator (`consensus/snapshot.rs`).
The encodings of a chunk, of a uuid and of a key come from other crates and are parameters;
`SnapshotFormats.Faithful` is what the module relies on.
-/

namespace Saci

inductive SnapshotChunk
  | masterBatches (rows : List MasterBatchRecord)
  | claims (rows : List (String × ClaimRecord))
  | checkpoints (rows : List (String × CheckpointRecord))
  | instances (rows : List (String × InstanceRecord))

/-- The chunk of a table without rows. -/
def SnapshotChunk.isEmpty : SnapshotChunk → Bool
  | .masterBatches rows => rows.isEmpty
  | .claims rows => rows.isEmpty
  | .checkpoints rows => rows.isEmpty
  | .instances rows => rows.isEmpty

/-- The encodings of other crates: `postcard::to_allocvec` and `from_bytes` at `SnapshotChunk`,
`Uuid::to_string` and `parse_str`, `hex::encode` and `decode`. -/
structure SnapshotFormats where
  toAllocvec : SnapshotChunk → Except String Bytes
  fromBytes : Bytes → Except String SnapshotChunk
  uuidToString : Uuid → String
  parseStr : String → Except String Uuid
  hexEncode : Bytes → String
  hexDecode : String → Except String Bytes

/-- Every chunk has an encoding, every encoding reads back, and a proper prefix of one does not;
the encoding of an empty table is short. -/
structure SnapshotFormats.Faithful (F : SnapshotFormats) : Prop where
  encodes : ∀ chunk, ∃ payload, F.toAllocvec chunk = .ok payload ∧ payload ≠ []
  decodes : ∀ chunk payload, F.toAllocvec chunk = .ok payload → F.fromBytes payload = .ok chunk
  cutShort : ∀ chunk front back, F.toAllocvec chunk = .ok (front ++ back) → back ≠ [] →
    ∃ e, F.fromBytes front = .error e
  emptyShort : ∀ chunk payload, chunk.isEmpty = true → F.toAllocvec chunk = .ok payload →
    payload.length < 2 ^ 32
  parses : ∀ id, F.parseStr (F.uuidToString id) = .ok id
  unhexes : ∀ key, F.hexDecode (F.hexEncode key) = .ok key

/-! ## The header -/

/-- `b"ARROWSNA"`. -/
def SNAPSHOT_MAGIC : Bytes := [0x41, 0x52, 0x52, 0x4f, 0x57, 0x53, 0x4e, 0x41]

def SNAPSHOT_VERSION : Nat := 2

def HEADER_LEN : Nat := 16

/-- One bit of the checksum's polynomial division. -/
def crcShift (crc : UInt32) : UInt32 :=
  if crc &&& 1 ≠ 0 then (crc >>> 1) ^^^ 0xEDB88320 else crc >>> 1

/-- CRC-32 (IEEE 802.3 polynomial 0xEDB88320). -/
def crc32 (data : Bytes) : UInt32 :=
  data.foldl (fun crc byte => crcShift^[8] (crc ^^^ byte.toUInt32)) 0xFFFFFFFF ^^^ 0xFFFFFFFF

def addHeader (body : Bytes) : Bytes :=
  SNAPSHOT_MAGIC ++ u32Bytes SNAPSHOT_VERSION ++ u32Bytes (crc32 body).toNat ++ body

/-- `{:#010x}` of a `u32`. -/
def hexU32 (n : Nat) : String := "0x" ++ Uuid.hex (beBytes 4 n)

/-- Strip and validate the header. -/
def stripHeader (data : Bytes) : Except String Bytes :=
  if data.length < HEADER_LEN then
    .error s!"snapshot too short: {data.length} bytes (need at least {HEADER_LEN})"
  else
    let magic := data.take 8
    if magic ≠ SNAPSHOT_MAGIC then
      .error s!"snapshot magic mismatch: got {magic}"
    else
      let version := leValue ((data.drop 8).take 4)
      if version ≠ SNAPSHOT_VERSION then
        .error s!"snapshot version {version} not supported (expected {SNAPSHOT_VERSION})"
      else
        let storedCrc := leValue ((data.drop 12).take 4)
        let body := data.drop HEADER_LEN
        let computedCrc := (crc32 body).toNat
        if storedCrc ≠ computedCrc then
          .error (s!"snapshot CRC-32 mismatch: stored {hexU32 storedCrc}, " ++
            s!"computed {hexU32 computedCrc}")
        else
          .ok body

/-! ## Chunks -/

variable (F : SnapshotFormats)

def writeChunk (writer : Bytes) (chunk : SnapshotChunk) : Except String Bytes :=
  match F.toAllocvec chunk with
  | .error e => .error s!"snapshot chunk encode: {e}"
  | .ok payload => .ok (writer ++ frame payload)

/-- Read one announced chunk and append it. -/
def readChunk (chunks : List SnapshotChunk) (len : Nat) (available : Bytes) :
    Except String (List SnapshotChunk) :=
  if available.length < len then .error "failed to fill whole buffer"
  else
    match F.fromBytes available with
    | .error e => .error s!"snapshot chunk decode: {e}"
    | .ok chunk => .ok (chunks ++ [chunk])

def readChunks (body : Bytes) : Except String (List SnapshotChunk) :=
  readFrames "failed to fill whole buffer" (readChunk F) [] body

/-- The four chunks of a dump, in the order they are written. -/
def DumpedState.chunks (dump : DumpedState) : List SnapshotChunk :=
  [.masterBatches dump.batches,
    .claims (dump.claims.map fun (id, rec_) => (F.uuidToString id, rec_)),
    .checkpoints (dump.checkpoints.map fun (key, rec_) => (F.hexEncode key.1, rec_)),
    .instances (dump.instances.map fun (id, rec_) => (F.uuidToString id, rec_))]

def buildSnapshotBytes (db : Database) : SaciResult Bytes :=
  match ((dumpState db).chunks F).foldlM (writeChunk F) [] with
  | .error e => .error (.generic s!"snapshot write: {e}")
  | .ok body => .ok (addHeader (body ++ u32Bytes 0))

/-! ## Installation -/

/-- The records read so far, before the first chunk. -/
def DumpedState.empty : DumpedState := ⟨[], [], [], []⟩

def addClaim (dump : DumpedState) (row : String × ClaimRecord) : SaciResult DumpedState :=
  match F.parseStr row.1 with
  | .error e => .error (.generic s!"snapshot claim uuid: {e}")
  | .ok id => .ok { dump with claims := dump.claims ++ [(id, row.2)] }

def addCheckpoint (dump : DumpedState) (row : String × CheckpointRecord) :
    SaciResult DumpedState :=
  match F.hexDecode row.1 with
  | .error e => .error (.generic s!"snapshot checkpoint key: {e}")
  | .ok keyVec =>
    if h : keyVec.length = 20 then
      .ok { dump with checkpoints := dump.checkpoints ++ [(⟨keyVec, h⟩, row.2)] }
    else
      .error (.generic "snapshot checkpoint key not 20 bytes")

def addInstance (dump : DumpedState) (row : String × InstanceRecord) : SaciResult DumpedState :=
  match F.parseStr row.1 with
  | .error e => .error (.generic s!"snapshot instance uuid: {e}")
  | .ok id => .ok { dump with instances := dump.instances ++ [(id, row.2)] }

/-- Add the records of one chunk. A second chunk of batches replaces the first. -/
def addChunk (dump : DumpedState) : SnapshotChunk → SaciResult DumpedState
  | .masterBatches rows => .ok { dump with batches := rows }
  | .claims rows => rows.foldlM (addClaim F) dump
  | .checkpoints rows => rows.foldlM (addCheckpoint F) dump
  | .instances rows => rows.foldlM (addInstance F) dump

/-- Lift a step that cannot touch the database. -/
def liftIo {α : Type} (context : String) :
    Except String α → ExceptT SaciError (StateM Database) α
  | .error e => throw (.generic s!"{context}: {e}")
  | .ok a => pure a

/-- `install_snapshot_bytes`, on a database that keeps whatever was written to it before a
failure. -/
def installSnapshotBytes (data : Bytes) (smMeta : Option (Bytes × Bytes)) :
    ExceptT SaciError (StateM Database) Unit := do
  let body ← liftIo "snapshot header invalid" (stripHeader data)
  let chunks ← liftIo "snapshot read" (readChunks F body)
  match chunks.foldlM (addChunk F) .empty with
  | .error e => throw e
  | .ok dump => modify fun db => restoreState db dump smMeta

end Saci
