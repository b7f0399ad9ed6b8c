import Saci.Consensus.SnapshotRoundTrip

/-!
# The encodings of a snapshot's records

The derived postcard encoding of a chunk, the hyphenated form of a uuid and the hex form of a
key, and that they are faithful. The limit on a chunk is reached: a batch is below one mebibyte, but
nothing bounds the number of batches.
-/

namespace Saci

/-! ## Postcard -/

namespace Postcard

def batchStatus : Codec BatchStatus :=
  Codec.varint.pmap (fun | .active => 0 | .poisoned => 1)
    (fun | 0 => some .active | 1 => some .poisoned | _ => none) fun status => by cases status <;> rfl

def claimStatus : Codec ClaimStatus :=
  Codec.varint.pmap (fun | .pending => 0 | .claimed => 1 | .completed => 2)
    (fun | 0 => some .pending | 1 => some .claimed | 2 => some .completed | _ => none)
    fun status => by cases status <;> rfl

/-- `[u8; 16]`. -/
def uuidBytes : Codec Uuid :=
  (Codec.octets 16).pmap (fun id => ⟨id.asBytes, id.length_asBytes⟩)
    (fun octets => some ⟨octets.1, octets.2⟩) fun _ => rfl

def masterBatchRecord : Codec MasterBatchRecord :=
  (Codec.uint64.pair <| Codec.string.pair <| Codec.uint32.pair <| Codec.bytes.pair <|
    Codec.uint32.pair <| Codec.uint64.pair <| Codec.uint64.pair <| Codec.uint32.pair <|
    batchStatus.pair <| Codec.option Codec.uint64).pmap
  (fun r => (r.batchId, r.component, r.schemaId, r.ipcBytes, r.totalRows, r.createdAt,
    r.checkpointSeq, r.releaseAttempts, r.status, r.poisonedAt))
  (fun (b, component, schema, ipc, rows, created, seq, attempts, status, poisoned) =>
    some ⟨b, component, schema, ipc, rows, created, seq, attempts, status, poisoned⟩) fun _ => rfl

def claimRecord : Codec ClaimRecord :=
  (Codec.uint64.pair <| Codec.uint32.pair <| Codec.uint32.pair <| uuidBytes.pair <|
    Codec.uint64.pair claimStatus).pmap
  (fun r => (r.batchId, r.rowRangeStart, r.rowRangeEnd, r.instanceId, r.leaseExpiresAt, r.status))
  (fun (b, start, stop, i, lease, status) => some ⟨b, start, stop, i, lease, status⟩) fun _ => rfl

def checkpointRecord : Codec CheckpointRecord :=
  (Codec.uint64.pair <| Codec.uint32.pair <| Codec.bytes.pair <| Codec.uint32.pair <|
    Codec.uint64.pair Codec.uint64).pmap
  (fun r => (r.batchId, r.stageIdx, r.ipcBytes, r.schemaId, r.createdAt, r.contentHash))
  (fun (b, stage, ipc, schema, created, hash) => some ⟨b, stage, ipc, schema, created, hash⟩)
  fun _ => rfl

def instanceRecord : Codec InstanceRecord :=
  Codec.uint64.pmap (·.lastHeartbeatAt) (fun at_ => some ⟨at_⟩) fun _ => rfl

/-- The variants of `SnapshotChunk`. -/
inductive ChunkKind
  | masterBatches | claims | checkpoints | instances

def ChunkKind.Rows : ChunkKind → Type
  | .masterBatches => List MasterBatchRecord
  | .claims => List (String × ClaimRecord)
  | .checkpoints => List (String × CheckpointRecord)
  | .instances => List (String × InstanceRecord)

def chunkKind : Codec ChunkKind :=
  Codec.varint.pmap (fun | .masterBatches => 0 | .claims => 1 | .checkpoints => 2 | .instances => 3)
    (fun | 0 => some .masterBatches | 1 => some .claims | 2 => some .checkpoints
         | 3 => some .instances | _ => none) fun kind => by cases kind <;> rfl

def rows : (kind : ChunkKind) → Codec kind.Rows
  | .masterBatches => masterBatchRecord.list
  | .claims => (Codec.string.pair claimRecord).list
  | .checkpoints => (Codec.string.pair checkpointRecord).list
  | .instances => (Codec.string.pair instanceRecord).list

def snapshotChunk : Codec SnapshotChunk :=
  (chunkKind.sigma rows).pmap
    (fun | .masterBatches l => ⟨.masterBatches, l⟩ | .claims l => ⟨.claims, l⟩
         | .checkpoints l => ⟨.checkpoints, l⟩ | .instances l => ⟨.instances, l⟩)
    (fun | ⟨.masterBatches, l⟩ => some (.masterBatches l) | ⟨.claims, l⟩ => some (.claims l)
         | ⟨.checkpoints, l⟩ => some (.checkpoints l) | ⟨.instances, l⟩ => some (.instances l))
    fun chunk => by cases chunk <;> rfl

theorem length_encode_empty {chunk : SnapshotChunk} (hempty : chunk.isEmpty = true) :
    (snapshotChunk.encode chunk).length = 2 := by
  have hencode : ∃ n < 128, snapshotChunk.encode chunk =
      Codec.varint.encode n ++ (Codec.varint.encode 0 ++ []) := by
    cases chunk with
    | masterBatches l => cases List.isEmpty_iff.mp hempty; exact ⟨0, by omega, rfl⟩
    | claims l => cases List.isEmpty_iff.mp hempty; exact ⟨1, by omega, rfl⟩
    | checkpoints l => cases List.isEmpty_iff.mp hempty; exact ⟨2, by omega, rfl⟩
    | instances l => cases List.isEmpty_iff.mp hempty; exact ⟨3, by omega, rfl⟩
  obtain ⟨n, hn, hencode⟩ := hencode
  rw [hencode, Codec.varint_encode_of_lt hn, Codec.varint_encode_of_lt (by omega)]
  rfl

theorem ipcBytes_le_length_encode (r : MasterBatchRecord) :
    r.ipcBytes.length ≤ (masterBatchRecord.encode r).length := by
  simp only [masterBatchRecord, Codec.encode_pmap, Codec.encode_pair, Codec.encode_bytes,
    List.length_append]
  omega

end Postcard

/-! ## Text -/

def unhexDigit (c : Char) : Option Nat :=
  if '0' ≤ c ∧ c ≤ '9' then some (c.toNat - 48)
  else if 'a' ≤ c ∧ c ≤ 'f' then some (c.toNat - 87)
  else none

/-- `hex::decode`, on lower-case digits. -/
def unhex : List Char → Option Bytes
  | [] => some []
  | [_] => none
  | high :: low :: rest => do
    let high ← unhexDigit high
    let low ← unhexDigit low
    let bytes ← unhex rest
    some (.ofNat (16 * high + low) :: bytes)

theorem unhexDigit_hexDigit : ∀ n < 16, unhexDigit (Uuid.hexDigit n) = some n := by decide

theorem hexDigit_ne_dash : ∀ n < 16, Uuid.hexDigit n ≠ '-' := by decide

theorem unhex_hex (l : Bytes) : unhex (Uuid.hex l).toList = some l := by
  rw [Uuid.hex, String.toList_ofList]
  induction l with
  | nil => rfl
  | cons b l ih =>
    have hb := b.toNat_lt
    have hbyte : UInt8.ofNat (16 * (b.toNat / 16) + b.toNat % 16) = b := by
      rw [Nat.div_add_mod, UInt8.ofNat_toNat]
    rw [List.flatMap_cons, List.cons_append, List.cons_append, List.nil_append, unhex,
      unhexDigit_hexDigit _ (by omega), unhexDigit_hexDigit _ (by omega)]
    simp only [Option.bind_eq_bind, Option.bind_some, ih, hbyte]

/-- `Uuid::parse_str`, on the hyphenated lower-case form. -/
def parseUuid (s : String) : Option Uuid :=
  (unhex (s.toList.filter (· ≠ '-'))).bind fun l =>
    if h : l.length = 16 then some ⟨l, h⟩ else none

theorem filter_hex (l : Bytes) :
    (Uuid.hex l).toList.filter (· ≠ '-') = (Uuid.hex l).toList := by
  refine List.filter_eq_self.mpr fun c hc => ?_
  rw [Uuid.hex, String.toList_ofList] at hc
  obtain ⟨b, -, hc⟩ := List.mem_flatMap.mp hc
  have hb := b.toNat_lt
  rcases List.mem_cons.mp hc with rfl | hc
  · simpa using hexDigit_ne_dash (b.toNat / 16) (by omega)
  · cases List.mem_singleton.mp hc
    simpa using hexDigit_ne_dash (b.toNat % 16) (by omega)

theorem toList_hex_append (l l' : Bytes) :
    (Uuid.hex (l ++ l')).toList = (Uuid.hex l).toList ++ (Uuid.hex l').toList := by
  simp [Uuid.hex]

theorem parseUuid_toString (id : Uuid) : parseUuid (toString id) = some id := by
  obtain ⟨l, hlen⟩ := id
  have htwo (n : Nat) : (l.drop n).take 2 ++ l.drop (n + 2) = l.drop n := by
    rw [← List.drop_drop, List.take_append_drop]
  have hsplit : l = l.take 4 ++ ((l.drop 4).take 2 ++ ((l.drop 6).take 2 ++ ((l.drop 8).take 2 ++
      l.drop 10))) := by
    rw [htwo 8, htwo 6, htwo 4, List.take_append_drop]
  have hfilter : (toString (⟨l, hlen⟩ : Uuid)).toList.filter (· ≠ '-') = (Uuid.hex l).toList := by
    conv_rhs => rw [hsplit]
    simp only [toString, String.intercalate_cons_cons, String.intercalate_singleton,
      String.toList_append, List.filter_append, filter_hex, toList_hex_append]
    simp
  rw [parseUuid, hfilter, unhex_hex]
  exact dif_pos hlen

/-! ## The formats -/

/-- The encodings on the inputs the module gives them. `from_bytes` ignores what follows a value. -/
def snapshotFormats : SnapshotFormats where
  toAllocvec chunk := .ok (Postcard.snapshotChunk.encode chunk)
  fromBytes input :=
    match Postcard.snapshotChunk.decode input with
    | none => .error "Hit the end of buffer, expected more data"
    | some (chunk, _) => .ok chunk
  uuidToString := toString
  parseStr s :=
    match parseUuid s with
    | none => .error "invalid character"
    | some id => .ok id
  hexEncode := Uuid.hex
  hexDecode s :=
    match unhex s.toList with
    | none => .error "Invalid character"
    | some l => .ok l

theorem snapshotFormats_faithful : snapshotFormats.Faithful where
  encodes chunk := by
    refine ⟨_, rfl, fun hnil => ?_⟩
    exact Codec.varint_encode_ne_nil _ (List.append_eq_nil_iff.mp hnil).1
  decodes chunk payload hpayload := by
    cases hpayload
    simp only [snapshotFormats, Codec.decode_encode_self]
  cutShort chunk front back hpayload hback := by
    have hfront := Postcard.snapshotChunk.decode_of_append_eq (Except.ok.inj hpayload).symm hback
    exact ⟨_, by simp only [snapshotFormats, hfront]; rfl⟩
  emptyShort chunk payload hempty hpayload := by
    cases hpayload
    rw [Postcard.length_encode_empty hempty]
    omega
  parses id := by simp only [snapshotFormats, parseUuid_toString]
  unhexes key := by simp only [snapshotFormats, unhex_hex]

/-- `n` registrations of the same bytes, each under its own batch id. -/
def registrations (ipcBytes : Bytes) (n : Nat) : List Event :=
  (List.range n).map fun i => .command (.registerMasterBatch (.ofNat i) "orders" 1 ipcBytes 1 0)

/-- Every registration below the size limit leaves one more batch. -/
theorem run_registrations {ipcBytes : Bytes} (hsize : ipcBytes.length < MAX_LOG_ENTRY_BYTES)
    {n : Nat} (hn : n ≤ UInt64.size) :
    ∃ db answers, run applyEvent .empty (registrations ipcBytes n) = .ok (db, answers) ∧
      (openTable db.masterBatches).rows.length = n ∧
      (∀ b r, (openTable db.masterBatches).get b = some r → b.toNat < n ∧
        r.ipcBytes = ipcBytes) := by
  induction n with
  | zero => exact ⟨.empty, [], rfl, rfl, fun _ _ h => (nomatch h)⟩
  | succ n ih =>
    obtain ⟨db, answers, hrun, hlen, hrows⟩ := ih (by omega)
    have hid : (UInt64.ofNat n).toNat = n := UInt64.toNat_ofNat_of_lt' (by omega)
    have hfresh : (openTable db.masterBatches).get (.ofNat n) = none := by
      refine Option.eq_none_iff_forall_ne_some.mpr fun r hr => ?_
      have hlt := (hrows _ r hr).1
      omega
    have hstep : applyEvent db (.command (.registerMasterBatch (.ofNat n) "orders" 1 ipcBytes 1 0)) =
        .ok ({ db with
          masterBatches := some ((openTable db.masterBatches).insert (.ofNat n)
            (.registered (.ofNat n) "orders" 1 ipcBytes 1 0))
          pendingBatches := some ((openTable db.pendingBatches).insert (.ofNat n) ()) },
          some (.masterBatchRegistered (.ofNat n))) := by
      rw [applyEvent, apply, applyRegisterMasterBatch, if_neg (not_le.mpr hsize)]
    have hsplit : registrations ipcBytes (n + 1) = registrations ipcBytes n ++
        [.command (.registerMasterBatch (.ofNat n) "orders" 1 ipcBytes 1 0)] := by
      rw [registrations, List.range_succ, List.map_append]
      rfl
    have hnext := run_append_eq_ok_iff.mpr
      ⟨db, answers, _, hrun, run_singleton_eq_ok_iff.mpr ⟨_, hstep, rfl⟩, rfl⟩
    rw [← hsplit] at hnext
    refine ⟨_, _, hnext, ?_, fun b r hr => ?_⟩
    · exact (Table.length_rows_insert _ hfresh).trans (congrArg (· + 1) hlen)
    · replace hr : ((openTable db.masterBatches).insert (.ofNat n) _).get b = some r := hr
      rw [Table.get_insert] at hr
      split_ifs at hr with hb
      · cases hr
        exact ⟨by rw [hb, hid]; omega, rfl⟩
      · obtain ⟨hlt, hipc⟩ := hrows b r hr
        exact ⟨by omega, hipc⟩

/-- The batches of a database take the room of their bytes in a snapshot. -/
theorem not_fitsU32_of_batches {db : Database} (size : Nat)
    (hsize : ∀ b r, (openTable db.masterBatches).get b = some r → size ≤ r.ipcBytes.length)
    (hlong : 2 ^ 32 ≤ (openTable db.masterBatches).rows.length * size) :
    ¬ FitsU32 snapshotFormats db := by
  intro hfits
  have hlt := hfits (.masterBatches (dumpState db).batches) List.mem_cons_self _ rfl
  have hlist : (dumpState db).batches.length * size ≤
      (Postcard.masterBatchRecord.list.encode (dumpState db).batches).length := by
    refine Codec.le_length_encode_list _ fun r hr => ?_
    obtain ⟨⟨b, r'⟩, hrow, rfl⟩ := List.mem_map.mp hr
    exact (hsize b _ (Table.get_eq_some_iff.mpr hrow)).trans (Postcard.ipcBytes_le_length_encode _)
  have hencode : (Postcard.snapshotChunk.encode (.masterBatches (dumpState db).batches)).length =
      (Postcard.chunkKind.encode .masterBatches).length +
        (Postcard.masterBatchRecord.list.encode (dumpState db).batches).length :=
    List.length_append
  have hrows : (dumpState db).batches.length = (openTable db.masterBatches).rows.length :=
    List.length_map _
  rw [hrows] at hlist
  omega

/-- 4097 batches of one byte less than a mebibyte: their chunk is longer than a `u32` can say. -/
theorem registrations_not_roundTrips :
    ∃ db answers, run applyEvent .empty (registrations (List.replicate 1048575 0) 4097) =
      .ok (db, answers) ∧ ¬ RoundTrips snapshotFormats db := by
  have hsize : (List.replicate 1048575 (0 : UInt8)).length = 1048575 := List.length_replicate
  generalize List.replicate 1048575 (0 : UInt8) = ipcBytes at hsize
  obtain ⟨db, answers, hrun, hlen, hrows⟩ :=
    run_registrations (n := 4097) (hsize.trans_lt (by rw [MAX_LOG_ENTRY_BYTES]; omega)) (by decide)
  refine ⟨db, answers, hrun, not_roundTrips_of_not_fitsU32 snapshotFormats_faithful ?_⟩
  refine not_fitsU32_of_batches ipcBytes.length (fun b r hr => ?_) (by rw [hlen, hsize]; omega)
  rw [(hrows b r hr).2]

theorem length_encode_registered :
    (Postcard.snapshotChunk.encode
      (.masterBatches [.registered 0 "orders" 1 [1, 2, 3] 1 0])).length < 2 ^ 32 := by
  have hname : "orders".toByteArray.data.toList.length = 6 := by decide
  simp only [Postcard.snapshotChunk, Postcard.chunkKind, Postcard.rows, Postcard.masterBatchRecord,
    Postcard.batchStatus, MasterBatchRecord.registered, Codec.encode_pmap, Codec.encode_sigma,
    Codec.encode_pair, Codec.encode_list, Codec.encode_string, Codec.encode_bytes, hname,
    Codec.encode_uint32, Codec.encode_uint64, Codec.encode_none, List.length_append,
    List.flatMap_cons, List.flatMap_nil, List.length_cons, List.length_nil]
  simp [Codec.varint_encode_of_lt]

theorem registration_roundTrips :
    ∃ db answers, run applyEvent .empty (registrations [1, 2, 3] 1) = .ok (db, answers) ∧
      RoundTrips snapshotFormats db := by
  refine ⟨_, _, rfl, ?_⟩
  refine (snapshot_roundTrips_iff_and_rejected snapshotFormats_faithful
    (show run applyEvent .empty (registrations [1, 2, 3] 1) = .ok _ from rfl)).1.mpr ?_
  intro chunk hchunk payload hpayload
  rcases List.mem_cons.mp hchunk with rfl | hchunk
  · cases hpayload
    exact length_encode_registered
  · refine snapshotFormats_faithful.emptyShort chunk payload ?_ hpayload
    rcases hchunk with _ | ⟨_, _ | ⟨_, _ | ⟨_, h⟩⟩⟩
    · rfl
    · rfl
    · rfl
    · cases h

end Saci
