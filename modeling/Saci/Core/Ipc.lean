import Saci.Library.Framing
import Saci.Core.Dataset

/-!
# Datasets as bytes

The serialised form of a dataset (`saci-core/src/dataset/ipc.rs`): one frame per component, in
name order, a frame with the liveness bitmap, and the terminator. A frame holds one record batch
as an Arrow IPC stream, whose schema metadata names the component and its schema version. Arrow's
own encoding of one batch is a parameter.
-/

namespace Saci

def ALIVE_BATCH_NAME : String := "__alive"

/-- What one frame carries: a batch, and the two entries of its schema metadata that are looked
at, `__saci_component` and `__saci_schema_version` read as a number. -/
structure Segment where
  component : Option String
  schemaVersion : Option UInt32
  batch : RecordBatch
  deriving DecidableEq

/-- Arrow's encoding of one batch: `batch_to_ipc_bytes` and `ipc_stream_to_batch`. Decoding is
handed a whole frame and a panic inside it is an error. -/
structure ArrowIpc where
  encode : Segment → SaciResult Bytes
  decode : Bytes → SaciResult Segment

namespace ArrowIpc

/-- Arrow reads back what it wrote, and what it writes is not empty. -/
structure Faithful (arrow : ArrowIpc) : Prop where
  decode_encode : ∀ segment bytes, arrow.encode segment = .ok bytes →
    arrow.decode bytes = .ok segment
  ne_nil : ∀ segment bytes, arrow.encode segment = .ok bytes → bytes ≠ []

/-- An encoding for the segments of a table, as their position in it. -/
def ofTable (table : List Segment) : ArrowIpc where
  encode segment :=
    match table.findIdx? (· = segment) with
    | none => .error (.generic "IPC StreamWriter init: schema not supported")
    | some i => .ok [UInt8.ofNat i]
  decode
    | [b] =>
      match table[b.toNat]? with
      | none => .error (.generic "IPC StreamReader init: schema not supported")
      | some segment => .ok segment
    | _ => .error (.generic "IPC StreamReader init: stream is malformed")

theorem faithful_ofTable {table : List Segment} (h : table.length ≤ 256) :
    (ofTable table).Faithful := by
  have encode_eq : ∀ segment bytes, (ofTable table).encode segment = .ok bytes →
      ∃ i, table[i]? = some segment ∧ i < 256 ∧ bytes = [UInt8.ofNat i] := by
    intro segment bytes hencode
    simp only [ofTable] at hencode
    split at hencode
    · cases hencode
    · next i hi =>
      obtain ⟨hlt, hseg, -⟩ := List.findIdx?_eq_some_iff_getElem.mp hi
      cases hencode
      exact ⟨i, by simpa [List.getElem?_eq_getElem hlt] using hseg, by omega, rfl⟩
  refine ⟨fun segment bytes hencode => ?_, fun segment bytes hencode => ?_⟩
  · obtain ⟨i, hi, hlt, rfl⟩ := encode_eq segment bytes hencode
    have hvalue : (UInt8.ofNat i).toNat = i := by simpa using Nat.mod_eq_of_lt hlt
    simp [ofTable, hi, hvalue]
  · obtain ⟨i, -, -, rfl⟩ := encode_eq segment bytes hencode
    simp

end ArrowIpc

namespace Dataset
variable {R : Type} (arrow : ArrowIpc)

/-- The liveness bitmap, as the batch of the `__alive` segment. -/
def aliveSegment (data : Dataset R) : Segment where
  component := some ALIVE_BATCH_NAME
  schemaVersion := none
  batch := ⟨⟨[⟨"alive", .boolean, false⟩]⟩, data.alive.map fun bit => [.bool bit]⟩

/-- A component's batch, annotated with its identity. -/
def componentSegment (entry : Registered) : Segment :=
  ⟨some entry.name, some entry.version, entry.merged⟩

/-- `write_ipc`. -/
def writeIpc (data : Dataset R) : SaciResult Bytes := do
  let entries := data.components.mergeSort fun a b => a.name ≤ b.name
  let segments ← entries.mapM fun entry => arrow.encode (componentSegment entry)
  let alive ← arrow.encode data.aliveSegment
  .ok (frames (segments ++ [alive]) ++ terminator)

/-- `write_component_ipc`. -/
def writeComponentIpc (data : Dataset R) (name : String) : SaciResult Bytes :=
  match data.find name with
  | none =>
    .error (.generic s!"Dataset::write_component_ipc: component '{name}' is not registered")
  | some entry => do
    let segment ← arrow.encode (componentSegment entry)
    let alive ← arrow.encode data.aliveSegment
    .ok (frames [segment, alive] ++ terminator)

/-- The bit of a cell of the `alive` column. -/
def aliveBit (row : List Cell) : Bool := row.head? = some (.bool true)

/-- Take a component's batch in: a name that is there keeps its schema entry. -/
def receive (data : Dataset R) (name : String) (version : UInt32) (batch : RecordBatch) :
    Dataset R :=
  if data.contains name then data.modify name fun entry => { entry with chunks := [batch] }
  else { data with components := data.components ++ [⟨name, version, batch.schema, [batch], none⟩] }

/-- One frame of `read_ipc`, over the dataset so far and the number of `__alive` batches seen. -/
def readSegment (s : Dataset R × Nat) (len : Nat) (available : Bytes) :
    SaciResult (Dataset R × Nat) := do
  let segment ← arrow.decode available
  if available.length < len then
    .error <| .generic <|
      s!"IPC read segment: stream ended {len - available.length} bytes inside a " ++
      s!"{len}-byte frame"
  else
    match segment.component with
    | none => .error (.generic "IPC batch missing '__saci_component' metadata key")
    | some name =>
      if name = ALIVE_BATCH_NAME then
        if 0 < s.2 then
          .error <| .generic
            "IPC stream contains more than one '__alive' batch; stream is corrupted"
        else if segment.batch.schema.fields.head?.map Field.dataType ≠ some .boolean then
          .error (.generic "IPC alive column is not BooleanArray")
        else
          let alive := segment.batch.rows.map aliveBit
          let dead := alive.count false
          .ok ({ s.1 with
              rowCount := alive.length
              alive
              liveCount := alive.length - dead
              deadCount := dead },
            s.2 + 1)
      else .ok (s.1.receive name (segment.schemaVersion.getD 1) segment.batch, s.2)

/-- The loop of `read_ipc` over the frames. -/
def readSegments (resources : R) (bytes : Bytes) : SaciResult (Dataset R × Nat) :=
  readFrames (.generic "IPC read len: failed to fill whole buffer") (readSegment arrow)
    (Dataset.new resources, 0) bytes

/-- `read_ipc`. -/
def readIpc (resources : R) (bytes : Bytes) : SaciResult (Dataset R) := do
  let (data, aliveCount) ← readSegments arrow resources bytes
  if aliveCount = 0 then
    .error <| .generic
      "IPC stream contains no '__alive' batch; stream is corrupted or incomplete"
  else
    match data.components.find? fun entry => data.rowCount < entry.numRows with
    | some entry =>
      .error <| .generic <|
        s!"IPC component '{entry.name}' has {entry.numRows} rows but alive bitmap has " ++
        s!"{data.rowCount}; stream is corrupted"
    | none => .ok data

variable {arrow} {data data' : Dataset R} {name : String}

theorem name_of_find {entry : Registered} (h : data.find name = some entry) :
    entry.name = name := by
  simpa using List.find?_some h

/-- Both frames of `write_component_ipc`. -/
theorem writeComponentIpc_eq_ok {bytes : Bytes}
    (h : data.writeComponentIpc arrow name = .ok bytes) :
    ∃ entry segment alive, data.find name = some entry ∧
      arrow.encode (componentSegment entry) = .ok segment ∧
      arrow.encode data.aliveSegment = .ok alive ∧
      bytes = frames [segment, alive] ++ terminator := by
  rw [writeComponentIpc] at h
  split at h
  · cases h
  · next entry hfind =>
    obtain ⟨segment, hsegment, h⟩ := bind_eq_ok_iff.mp h
    obtain ⟨alive, halive, h⟩ := bind_eq_ok_iff.mp h
    cases h
    exact ⟨entry, segment, alive, hfind, hsegment, halive, rfl⟩

/-- Reading a frame that a component was written to takes the component in. -/
theorem readSegment_component (harrow : arrow.Faithful) {entry : Registered} {bytes : Bytes}
    {n : Nat} (hname : entry.name ≠ ALIVE_BATCH_NAME)
    (h : arrow.encode (componentSegment entry) = .ok bytes) :
    readSegment arrow (data, n) bytes.length bytes =
      .ok (data.receive entry.name entry.version entry.merged, n) := by
  have hdecode := harrow.decode_encode _ _ h
  simp only [readSegment, hdecode, componentSegment]
  simp [bind, Except.bind, hname]

/-- Reading the frame the bitmap was written to sets the row counts. -/
theorem readSegment_alive (data : Dataset R) (harrow : arrow.Faithful) {source : Dataset R}
    {bytes : Bytes} (h : arrow.encode source.aliveSegment = .ok bytes) :
    ∃ counted : Dataset R, counted.components = data.components ∧
      readSegment arrow (data, 0) bytes.length bytes = .ok (counted, 1) := by
  have hdecode := harrow.decode_encode _ _ h
  simp only [readSegment, hdecode, aliveSegment]
  simp only [bind, Except.bind, lt_self_iff_false, if_false, if_true, List.head?_cons,
    Option.map_some, ne_eq, not_true_eq_false]
  refine ⟨_, ?_, rfl⟩
  rfl

/-- What `read_ipc` makes of a component that `write_component_ipc` wrote: the batch and the
version are the ones that were written. -/
theorem find_readIpc_writeComponentIpc (harrow : arrow.Faithful) {resources : R} {bytes : Bytes}
    (hname : name ≠ ALIVE_BATCH_NAME) (hwrite : data.writeComponentIpc arrow name = .ok bytes)
    (hlen : bytes.length < 2 ^ 32) (hread : readIpc arrow resources bytes = .ok data') :
    ∃ entry, data.find name = some entry ∧
      data'.batchFor name = some entry.merged ∧ data'.getVersion name = some entry.version := by
  obtain ⟨entry, segment, alive, hfind, hsegment, halive, rfl⟩ := writeComponentIpc_eq_ok hwrite
  have hentry : entry.name = name := name_of_find hfind
  have hne : ∀ payload ∈ [segment, alive], payload ≠ [] := by
    simpa using ⟨harrow.ne_nil _ _ hsegment, harrow.ne_nil _ _ halive⟩
  have hlt : ∀ payload ∈ [segment, alive], payload.length < 2 ^ 32 := by
    simp only [frames, frame, List.flatMap_cons, List.flatMap_nil, List.length_append,
      List.length_nil] at hlen
    simp only [List.mem_cons, List.not_mem_nil, or_false, forall_eq_or_imp, forall_eq]
    omega
  have hframes : readSegments arrow resources (frames [segment, alive] ++ terminator ++ []) = _ :=
    readFrames_frames _ [] hne hlt
  rw [List.append_nil, List.foldlM_cons, readSegment_component harrow (hentry ▸ hname) hsegment]
    at hframes
  obtain ⟨counted, hcounted, hstep⟩ :=
    readSegment_alive ((new resources).receive entry.name entry.version entry.merged) harrow halive
  rw [readIpc, hframes] at hread
  simp only [bind, Except.bind, List.foldlM_cons, List.foldlM_nil, hstep, pure, Except.pure,
    Nat.one_ne_zero, if_false] at hread
  split at hread
  · cases hread
  · cases hread
    refine ⟨entry, hfind, ?_, ?_⟩
    · simp [batchFor, find, hcounted, receive, contains, new, hentry, Registered.merged]
    · simp [getVersion, find, hcounted, receive, contains, new, hentry]

end Dataset
end Saci
