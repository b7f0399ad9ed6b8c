import Saci.Consensus.SnapshotCodec
import Saci.Consensus.Poison

/-!
# What installing a snapshot leaves

A snapshot that is rejected leaves the database as it was. One that was built from a database
gives its dump back just if every chunk's length fits the frame's 32-bit length field
(`snapshot_roundTrips_iff_and_rejected`): a longer chunk is announced with its length modulo `2 ^ 32`.
-/

namespace Saci

variable {F : SnapshotFormats} {db into : Database} {dump : DumpedState}
  {chunk : SnapshotChunk} {chunks : List SnapshotChunk} {payload body data : Bytes}
  {payloads : List Bytes} {smMeta : Option (Bytes × Bytes)}

/-- Installing the bytes built from a database, into any database, gives the same dump. -/
def RoundTrips (F : SnapshotFormats) (db : Database) : Prop :=
  ∀ into smMeta, ∃ data into', buildSnapshotBytes F db = .ok data ∧
    (installSnapshotBytes F data smMeta).run.run into = (.ok (), into') ∧
    dumpState into' = dumpState db

/-- The length of every chunk's encoding is a `u32`. -/
def FitsU32 (F : SnapshotFormats) (db : Database) : Prop :=
  ∀ chunk ∈ (dumpState db).chunks F, ∀ payload, F.toAllocvec chunk = .ok payload →
    payload.length < 2 ^ 32

/-! ## Header and frames -/

theorem stripHeader_addHeader (body : Bytes) : stripHeader (addHeader body) = .ok body := by
  have hcrc : (crc32 body).toNat < 256 ^ 4 := (crc32 body).toNat_lt
  have hlen : ¬ (addHeader body).length < HEADER_LEN := by
    simp [addHeader, SNAPSHOT_MAGIC, HEADER_LEN]
    omega
  have hmagic : (addHeader body).take 8 = SNAPSHOT_MAGIC := by
    simp [addHeader, SNAPSHOT_MAGIC]
  have hversion : ((addHeader body).drop 8).take 4 = u32Bytes SNAPSHOT_VERSION := by
    simp [addHeader, SNAPSHOT_MAGIC]
  have hstored : ((addHeader body).drop 12).take 4 = u32Bytes (crc32 body).toNat := by
    simp [addHeader, SNAPSHOT_MAGIC]
  have hbody : (addHeader body).drop HEADER_LEN = body := by
    simp [addHeader, SNAPSHOT_MAGIC, HEADER_LEN, List.drop_append]
  have hv : leValue (u32Bytes SNAPSHOT_VERSION) = SNAPSHOT_VERSION :=
    leValue_leBytes_of_lt (by decide)
  have hc : leValue (u32Bytes (crc32 body).toNat) = (crc32 body).toNat :=
    leValue_leBytes_of_lt hcrc
  rw [stripHeader, if_neg hlen]
  simp only [hmagic, hversion, hstored, hbody, hv, hc, ne_eq, not_true, if_false]

/-- The encodings of chunks, one by one. -/
def Encoded (F : SnapshotFormats) : List SnapshotChunk → List Bytes → Prop :=
  List.Forall₂ fun chunk payload => F.toAllocvec chunk = .ok payload

theorem exists_encoded (hF : F.Faithful) (chunks : List SnapshotChunk) :
    ∃ payloads, Encoded F chunks payloads := by
  induction chunks with
  | nil => exact ⟨[], .nil⟩
  | cons chunk chunks ih =>
    obtain ⟨payload, hpayload, -⟩ := hF.encodes chunk
    obtain ⟨payloads, hpayloads⟩ := ih
    exact ⟨payload :: payloads, .cons hpayload hpayloads⟩

theorem foldlM_writeChunk (henc : Encoded F chunks payloads) (writer : Bytes) :
    chunks.foldlM (writeChunk F) writer = .ok (writer ++ frames payloads) := by
  induction henc generalizing writer with
  | nil => simp [frames, pure, Except.pure]
  | @cons chunk payload chunks payloads hpayload _ ih =>
    have hwrite : writeChunk F writer chunk = .ok (writer ++ frame payload) := by
      rw [writeChunk, hpayload]
    rw [List.foldlM_cons, hwrite]
    refine (ih _).trans ?_
    simp [frames]

theorem buildSnapshotBytes_eq (henc : Encoded F ((dumpState db).chunks F) payloads) :
    buildSnapshotBytes F db = .ok (addHeader (frames payloads ++ terminator)) := by
  rw [buildSnapshotBytes, foldlM_writeChunk henc, List.nil_append]
  rfl

theorem Encoded.ne_nil (hF : F.Faithful) (henc : Encoded F chunks payloads) :
    ∀ payload ∈ payloads, payload ≠ [] := by
  induction henc with
  | nil => exact fun _ h => (nomatch h)
  | @cons chunk payload chunks payloads hpayload _ ih =>
    intro p hp
    rcases List.mem_cons.mp hp with rfl | hp
    · obtain ⟨q, hq, hne⟩ := hF.encodes chunk
      cases hq.symm.trans hpayload
      exact hne
    · exact ih p hp

theorem Encoded.forall_mem_iff (henc : Encoded F chunks payloads) {P : Bytes → Prop} :
    (∀ chunk ∈ chunks, ∀ payload, F.toAllocvec chunk = .ok payload → P payload) ↔
      ∀ payload ∈ payloads, P payload := by
  induction henc with
  | nil => simp
  | @cons chunk payload chunks payloads hpayload _ ih =>
    rw [List.forall_mem_cons, List.forall_mem_cons, ih, hpayload]
    simp

theorem foldlM_readChunk (hF : F.Faithful) (henc : Encoded F chunks payloads)
    (before : List SnapshotChunk) :
    payloads.foldlM (fun s payload => readChunk F s payload.length payload) before =
      .ok (before ++ chunks) := by
  induction henc generalizing before with
  | nil => simp [pure, Except.pure]
  | @cons chunk payload chunks payloads hpayload _ ih =>
    have hread : readChunk F before payload.length payload = .ok (before ++ [chunk]) := by
      rw [readChunk, if_neg (lt_irrefl _), hF.decodes _ _ hpayload]
    rw [List.foldlM_cons, hread]
    refine (ih _).trans ?_
    simp

theorem readChunks_frames (hF : F.Faithful) (henc : Encoded F chunks payloads)
    (hfits : ∀ payload ∈ payloads, payload.length < 2 ^ 32) :
    readChunks F (frames payloads ++ terminator) = .ok chunks := by
  have hread : readChunks F (frames payloads ++ terminator ++ []) = _ :=
    readFrames_frames [] [] (henc.ne_nil hF) hfits
  rw [List.append_nil] at hread
  exact hread.trans (foldlM_readChunk hF henc [])

/-- At a chunk whose length does not fit, reading fails or ends. -/
theorem readChunks_of_oversize (after : List Bytes) (hF : F.Faithful)
    (henc : Encoded F chunks payloads) (hfits : ∀ payload ∈ payloads, payload.length < 2 ^ 32)
    (hpayload : F.toAllocvec chunk = .ok payload) (hlong : 2 ^ 32 ≤ payload.length) :
    readChunks F (frames (payloads ++ payload :: after) ++ terminator) = .ok chunks ∨
      ∃ e, readChunks F (frames (payloads ++ payload :: after) ++ terminator) = .error e := by
  have hsplit : frames (payloads ++ payload :: after) ++ terminator =
      frames payloads ++ (frame payload ++ (frames after ++ terminator)) := by
    simp [frames]
  obtain ⟨fuel, hread⟩ : ∃ fuel, readChunks F (frames payloads ++ _) = _ :=
    readFrames_frames_append [] (frame payload ++ (frames after ++ terminator)) (henc.ne_nil hF)
      hfits
  rw [hsplit, hread, foldlM_readChunk hF henc, List.nil_append, ok_bind, readFramesWithin_frame_mod]
  split_ifs with hzero
  · exact .inl rfl
  · have hlt : payload.length % 2 ^ 32 < payload.length :=
      (Nat.mod_lt _ (by norm_num)).trans_le hlong
    have hback : payload.drop (payload.length % 2 ^ 32) ≠ [] := by
      rw [ne_eq, List.drop_eq_nil_iff, not_le]
      exact hlt
    obtain ⟨e, he⟩ := hF.cutShort chunk _ _
      (hpayload.trans (congrArg Except.ok (List.take_append_drop _ payload).symm)) hback
    refine .inr ⟨s!"snapshot chunk decode: {e}", ?_⟩
    have hlen : ¬ (payload.take (payload.length % 2 ^ 32)).length < payload.length % 2 ^ 32 := by
      rw [List.length_take, min_eq_left hlt.le]
      exact lt_irrefl _
    rw [readChunk, if_neg hlen, he, error_bind]

theorem exists_first_oversize (henc : Encoded F chunks payloads)
    (hlong : ¬ ∀ payload ∈ payloads, payload.length < 2 ^ 32) :
    ∃ before chunk rest fits payload after, chunks = before ++ chunk :: rest ∧
      payloads = fits ++ payload :: after ∧ Encoded F before fits ∧
      (∀ p ∈ fits, p.length < 2 ^ 32) ∧ F.toAllocvec chunk = .ok payload ∧
      2 ^ 32 ≤ payload.length := by
  induction henc with
  | nil => exact absurd (fun _ h => (nomatch h)) hlong
  | @cons chunk payload chunks payloads hpayload henc ih =>
    by_cases hlt : payload.length < 2 ^ 32
    · have hlong' : ¬ ∀ p ∈ payloads, p.length < 2 ^ 32 := fun hall =>
        hlong (List.forall_mem_cons.mpr ⟨hlt, hall⟩)
      obtain ⟨before, chunk', rest, fits, payload', after, rfl, rfl, hbefore, hfits, htail⟩ :=
        ih hlong'
      exact ⟨chunk :: before, chunk', rest, payload :: fits, payload', after, rfl, rfl,
        .cons hpayload hbefore, List.forall_mem_cons.mpr ⟨hlt, hfits⟩, htail⟩
    · exact ⟨[], chunk, chunks, [], payload, payloads, rfl, rfl, .nil, fun _ h => (nomatch h),
        hpayload, not_lt.mp hlt⟩

/-! ## Records -/

/-- A step that puts one row behind those that are there, over a list of written rows. -/
theorem foldlM_map_eq_ok {σ α β : Type} {step : σ → β → SaciResult σ} {write : α → β}
    {P : σ → List α → σ} (nil : ∀ s, P s [] = s)
    (cons : ∀ s a l, P (P s [a]) l = P s (a :: l))
    (hstep : ∀ s a, step s (write a) = .ok (P s [a])) (l : List α) (s : σ) :
    (l.map write).foldlM step s = .ok (P s l) := by
  induction l generalizing s with
  | nil => rw [nil]; rfl
  | cons a l ih => rw [List.map_cons, List.foldlM_cons, hstep, ok_bind, ih, cons]

theorem foldlM_addClaim (hF : F.Faithful) (rows : List (Uuid × ClaimRecord)) (dump : DumpedState) :
    (rows.map fun (id, rec_) => (F.uuidToString id, rec_)).foldlM (addClaim F) dump =
      .ok { dump with claims := dump.claims ++ rows } := by
  refine foldlM_map_eq_ok (P := fun dump rows => { dump with claims := dump.claims ++ rows })
    (fun _ => by simp) (fun _ _ _ => by simp) (fun dump row => ?_) rows dump
  rw [addClaim, hF.parses]

theorem foldlM_addCheckpoint (hF : F.Faithful) (rows : List (CheckpointKey × CheckpointRecord))
    (dump : DumpedState) :
    (rows.map fun (key, rec_) => (F.hexEncode key.1, rec_)).foldlM (addCheckpoint F) dump =
      .ok { dump with checkpoints := dump.checkpoints ++ rows } := by
  refine foldlM_map_eq_ok
    (P := fun dump rows => { dump with checkpoints := dump.checkpoints ++ rows })
    (fun _ => by simp) (fun _ _ _ => by simp) (fun dump row => ?_) rows dump
  rw [addCheckpoint, hF.unhexes]
  exact dif_pos row.1.2

theorem foldlM_addInstance (hF : F.Faithful) (rows : List (Uuid × InstanceRecord))
    (dump : DumpedState) :
    (rows.map fun (id, rec_) => (F.uuidToString id, rec_)).foldlM (addInstance F) dump =
      .ok { dump with instances := dump.instances ++ rows } := by
  refine foldlM_map_eq_ok
    (P := fun dump rows => { dump with instances := dump.instances ++ rows })
    (fun _ => by simp) (fun _ _ _ => by simp) (fun dump row => ?_) rows dump
  rw [addInstance, hF.parses]

/-- The records of the chunks of a dump are the dump. -/
theorem foldlM_addChunk (hF : F.Faithful) (dump : DumpedState) :
    (dump.chunks F).foldlM (addChunk F) .empty = .ok dump := by
  simp only [DumpedState.chunks, List.foldlM_cons, List.foldlM_nil, addChunk, ok_bind,
    foldlM_addClaim hF, foldlM_addCheckpoint hF, foldlM_addInstance hF]
  rfl

/-- The tables of a dump come back from a restore as they were. -/
theorem dumpState_restoreState (H : db.WellFormed) (into : Database)
    (smMeta : Option (Bytes × Bytes)) :
    dumpState (restoreState into (dumpState db) smMeta) = dumpState db := by
  have hbatches : (openTable (restoreState into (dumpState db) smMeta).masterBatches).rows =
      (openTable db.masterBatches).rows := congrArg Table.rows (insertAll_batches H)
  have hclaims : (openTable (restoreState into (dumpState db) smMeta).claims).rows =
      (openTable db.claims).rows := congrArg Table.rows (Table.insertAll_rows _)
  have hcheckpoints : (openTable (restoreState into (dumpState db) smMeta).checkpoints).rows =
      (openTable db.checkpoints).rows := congrArg Table.rows (Table.insertAll_rows _)
  have hinstances : (openTable (restoreState into (dumpState db) smMeta).instances).rows =
      (openTable db.instances).rows := congrArg Table.rows (Table.insertAll_rows _)
  rw [dumpState, hbatches, hclaims, hcheckpoints, hinstances]
  rfl

/-- What was read before a chunk that has rows does not restore to the whole dump. -/
theorem dumpState_restoreState_ne {before rest : List SnapshotChunk} {read : DumpedState}
    (hF : F.Faithful) (hsplit : dump.chunks F = before ++ chunk :: rest)
    (hrows : chunk.isEmpty = false) (hread : before.foldlM (addChunk F) .empty = .ok read) :
    dumpState (restoreState into read smMeta) ≠ dump := by
  intro heq
  simp only [DumpedState.chunks] at hsplit
  rcases before with _ | ⟨_, _ | ⟨_, _ | ⟨_, _ | ⟨_, _ | _⟩⟩⟩⟩
  · cases hread
    obtain ⟨rfl, -⟩ := List.cons.inj hsplit
    have hnil : dump.batches = [] := (congrArg DumpedState.batches heq).symm
    rw [hnil] at hrows
    cases hrows
  · simp only [List.cons_append, List.nil_append, List.cons.injEq] at hsplit
    obtain ⟨rfl, rfl, -⟩ := hsplit
    cases hread
    have hnil : dump.claims = [] := (congrArg DumpedState.claims heq).symm
    rw [hnil] at hrows
    cases hrows
  · simp only [List.cons_append, List.nil_append, List.cons.injEq] at hsplit
    obtain ⟨rfl, rfl, rfl, -⟩ := hsplit
    simp only [List.foldlM_cons, List.foldlM_nil, addChunk, ok_bind, foldlM_addClaim hF] at hread
    cases hread
    have hnil : dump.checkpoints = [] := (congrArg DumpedState.checkpoints heq).symm
    rw [hnil] at hrows
    cases hrows
  · simp only [List.cons_append, List.nil_append, List.cons.injEq] at hsplit
    obtain ⟨rfl, rfl, rfl, rfl, -⟩ := hsplit
    simp only [List.foldlM_cons, List.foldlM_nil, addChunk, ok_bind, foldlM_addClaim hF,
      foldlM_addCheckpoint hF] at hread
    cases hread
    have hnil : dump.instances = [] := (congrArg DumpedState.instances heq).symm
    rw [hnil] at hrows
    cases hrows
  · simp at hsplit
  · simp at hsplit

/-! ## Installation -/

/-- The records a snapshot holds, or the first failure to read it. -/
def readSnapshot (F : SnapshotFormats) (data : Bytes) : SaciResult DumpedState :=
  match stripHeader data with
  | .error e => .error (.generic s!"snapshot header invalid: {e}")
  | .ok body =>
    match readChunks F body with
    | .error e => .error (.generic s!"snapshot read: {e}")
    | .ok chunks => chunks.foldlM (addChunk F) .empty

theorem run_installSnapshotBytes (into : Database) :
    (installSnapshotBytes F data smMeta).run.run into =
      match readSnapshot F data with
      | .error e => (.error e, into)
      | .ok dump => (.ok (), restoreState into dump smMeta) := by
  rw [installSnapshotBytes, readSnapshot]
  cases stripHeader data with
  | error e => rfl
  | ok body =>
    cases hchunks : readChunks F body with
    | error e => simp [liftIo, hchunks]; rfl
    | ok chunks =>
      cases hread : chunks.foldlM (addChunk F) .empty with
      | error e => simp [liftIo, hchunks, hread]; rfl
      | ok dump => simp [liftIo, hchunks, hread]; rfl

/-- A snapshot that is rejected has not touched the database. -/
theorem rejected_unchanged {e : SaciError} {into' : Database}
    (hreject : (installSnapshotBytes F data smMeta).run.run into = (.error e, into')) :
    into' = into := by
  rw [run_installSnapshotBytes] at hreject
  split at hreject
  · exact (Prod.mk.inj hreject).2.symm
  · exact (nomatch (Prod.mk.inj hreject).1)

theorem readSnapshot_addHeader (body : Bytes) :
    readSnapshot F (addHeader body) =
      match readChunks F body with
      | .error e => .error (.generic s!"snapshot read: {e}")
      | .ok chunks => chunks.foldlM (addChunk F) .empty := by
  rw [readSnapshot, stripHeader_addHeader]

theorem roundTrips_of_fitsU32 (hF : F.Faithful) (H : db.WellFormed) (hfits : FitsU32 F db) :
    RoundTrips F db := by
  intro into smMeta
  obtain ⟨payloads, henc⟩ := exists_encoded hF ((dumpState db).chunks F)
  have hfits' := henc.forall_mem_iff.mp hfits
  have hread : readSnapshot F (addHeader (frames payloads ++ terminator)) = .ok (dumpState db) := by
    rw [readSnapshot_addHeader, readChunks_frames hF henc hfits']
    exact foldlM_addChunk hF (dumpState db)
  refine ⟨_, restoreState into (dumpState db) smMeta, buildSnapshotBytes_eq henc, ?_,
    dumpState_restoreState H into smMeta⟩
  rw [run_installSnapshotBytes, hread]

theorem not_roundTrips_of_not_fitsU32 (hF : F.Faithful) (hlong : ¬ FitsU32 F db) :
    ¬ RoundTrips F db := by
  intro hround
  obtain ⟨payloads, henc⟩ := exists_encoded hF ((dumpState db).chunks F)
  have hlong' := mt henc.forall_mem_iff.mpr hlong
  obtain ⟨before, chunk, rest, fits, payload, after, hsplit, rfl, hbefore, hfits, hpayload, hover⟩ :=
    exists_first_oversize henc hlong'
  have hrows : chunk.isEmpty = false := by
    by_contra hempty
    have hshort := hF.emptyShort chunk payload (by simpa using hempty) hpayload
    omega
  obtain ⟨data, into', hbuild, hinstall, hdump⟩ := hround .empty none
  cases (buildSnapshotBytes_eq henc).symm.trans hbuild
  rw [run_installSnapshotBytes, readSnapshot_addHeader] at hinstall
  rcases readChunks_of_oversize after hF hbefore hfits hpayload hover with
    hread | ⟨e, hread⟩
  · rw [hread] at hinstall
    dsimp only at hinstall
    split at hinstall
    · exact (nomatch (Prod.mk.inj hinstall).1)
    · next read hfold =>
      rw [← (Prod.mk.inj hinstall).2] at hdump
      exact dumpState_restoreState_ne hF hsplit hrows hfold hdump
  · rw [hread] at hinstall
    exact (nomatch (Prod.mk.inj hinstall).1)

theorem applyEvent_wellFormed {event : Event} {answer : Option ConsensusResponse} {db' : Database}
    (H : db.WellFormed) (happly : applyEvent db event = .ok (db', answer)) : db'.WellFormed := by
  cases event with
  | command cmd =>
    obtain ⟨response, happly, -⟩ := applyEvent_command_eq_ok.mp happly
    exact apply_wellFormed H happly
  | snapshot into smMeta =>
    cases happly
    exact restoreState_wellFormed H into smMeta

/-- **The bytes of a snapshot**: what was built from a database that commands and restores have left
installs to the same dump just if every chunk fits, and what is rejected changes nothing. -/
theorem snapshot_roundTrips_iff_and_rejected {events : List Event}
    {answers : List (Option ConsensusResponse)} (hF : F.Faithful)
    (hrun : run applyEvent .empty events = .ok (db, answers)) :
    (RoundTrips F db ↔ FitsU32 F db) ∧
      ∀ data smMeta into e into',
        (installSnapshotBytes F data smMeta).run.run into = (.error e, into') → into' = into := by
  have H : db.WellFormed :=
    run_invariant (fun _ _ _ _ H happly => applyEvent_wellFormed H happly) hrun
      Database.empty_wellFormed
  refine ⟨⟨fun hround => ?_, roundTrips_of_fitsU32 hF H⟩, fun _ _ _ _ _ => rejected_unchanged⟩
  by_contra hlong
  exact not_roundTrips_of_not_fitsU32 hF hlong hround

end Saci
