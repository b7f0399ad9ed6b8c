import Saci.Consensus.Transport

/-!
# What a snapshot transfer installs

The receiver appends whatever arrives for a transfer and never looks at an offset, and a chunk of
any transfer evicts those that were idle for too long, its own among them. So the bytes installed
are the body without what was evicted: the whole body just if the transfer was never idle when a
chunk arrived (`snapshot_eq_body_iff`).
-/

namespace Saci

variable {T : SaciTypeConfig} {id : UInt64} {d : Delivery T} {ds : List (Delivery T)}
  {transfers : SnapshotTransfers} {log : List (Delivery T × Handled T)} {h : Handled T}
  {chunkBytes offset : Nat} {vote v : T.VoteOf} {snapshot s : Snapshot T} {last : Option Nat}

/-- The entries of a connection's log that belong to one transfer. -/
def ofTransfer (id : UInt64) (log : List (Delivery T × Handled T)) :
    List (Delivery T × Handled T) :=
  log.filter fun entry => entry.1.envelope.transferId? = some id

/-- The messages of the transfer are the first of those its sender sends from `offset` on, given
the responses to them. Nothing is said of the other messages of the connection. -/
def Conveys (chunkBytes : Nat) (vote : T.VoteOf) (snapshot : Snapshot T) (id : UInt64)
    (offset : Nat) (log : List (Delivery T × Handled T)) : Prop :=
  (ofTransfer id log).map (·.1.envelope) <+:
    (sendSnapshotChunks chunkBytes vote snapshot.meta_ snapshot.snapshot id offset
      ((ofTransfer id log).map (·.2.response))).1

/-- Whenever a chunk of any transfer arrives, the transfer's latest chunk, which came at `last` if
it came before the messages listed, is at most the idle timeout old. -/
def NeverIdle (id : UInt64) : Option Nat → List (Delivery T) → Prop
  | _, [] => True
  | last, d :: ds =>
    match d.envelope with
    | .snapshotChunk chunk =>
      (∀ t ∈ last, d.examinedAt id - t ≤ SNAPSHOT_TRANSFER_IDLE_TIMEOUT) ∧
        NeverIdle id (if chunk.transferId = id then some d.stampedAt else last) ds
    | _ => NeverIdle id last ds

theorem neverIdle_cons_chunk {chunk : SnapshotChunkMsg} (henv : d.envelope = .snapshotChunk chunk) :
    NeverIdle id last (d :: ds) ↔
      (∀ t ∈ last, d.examinedAt id - t ≤ SNAPSHOT_TRANSFER_IDLE_TIMEOUT) ∧
        NeverIdle id (if chunk.transferId = id then some d.stampedAt else last) ds := by
  rw [NeverIdle, henv]

theorem neverIdle_cons_of_ne (hchunk : ∀ chunk, d.envelope ≠ .snapshotChunk chunk) :
    NeverIdle id last (d :: ds) ↔ NeverIdle id last ds := by
  rw [NeverIdle]
  split
  · next chunk henv => exact absurd henv (hchunk chunk)
  · rfl

/-! ## The sender, message by message -/

theorem chunkEnvelope_eq_snapshotFinal {meta_ : T.SnapshotMetaOf} {body : Bytes} {end_ : Nat}
    {final : SnapshotFinalMsg T}
    (henv : chunkEnvelope vote meta_ body id offset end_ = .snapshotFinal final) :
    end_ = body.length ∧ final = ⟨id, .ofNat offset, body.drop offset, vote, meta_⟩ := by
  rw [chunkEnvelope] at henv
  split_ifs at henv with hlast
  rw [hlast, List.take_length] at henv
  exact ⟨hlast, (RpcEnvelope.snapshotFinal.inj henv).symm⟩

theorem conveys_cons_of_ne (hid : d.envelope.transferId? ≠ some id)
    (hsent : Conveys chunkBytes vote snapshot id offset ((d, h) :: log)) :
    Conveys chunkBytes vote snapshot id offset log := by
  rwa [Conveys, ofTransfer, List.filter_cons_of_neg (by simpa using hid)] at hsent

/-- A message of the transfer is the chunk at the sender's offset. What the sender goes on to send
answers an acknowledgement of a chunk that was not the last. -/
theorem conveys_cons (hid : d.envelope.transferId? = some id)
    (hsent : Conveys chunkBytes vote snapshot id offset ((d, h) :: log)) :
    d.envelope = chunkEnvelope vote snapshot.meta_ snapshot.snapshot id offset
        (min (offset + chunkBytes) snapshot.snapshot.length) ∧
      (ofTransfer id log = [] ∨
        (∃ id', h.response = .snapshotChunkAck id') ∧
        offset + chunkBytes < snapshot.snapshot.length ∧
        Conveys chunkBytes vote snapshot id (offset + chunkBytes) log) := by
  rw [Conveys, ofTransfer, List.filter_cons_of_pos (by simpa using hid), ← ofTransfer,
    List.map_cons, List.map_cons, sendSnapshotChunks.eq_def] at hsent
  dsimp only at hsent
  by_cases hlarge : MAX_SNAPSHOT_CHUNK_BYTES <
      min (offset + chunkBytes) snapshot.snapshot.length - offset
  · simp [hlarge] at hsent
  · rw [if_neg hlarge] at hsent
    cases hresp : h.response with
    | snapshotChunkAck id' =>
      rw [hresp] at hsent
      dsimp only at hsent
      split_ifs at hsent with hlast
      · obtain ⟨henv, hrest⟩ := List.cons_prefix_cons.mp hsent
        exact ⟨henv, .inl (by simpa using hrest)⟩
      · obtain ⟨henv, hrest⟩ := List.cons_prefix_cons.mp hsent
        have hlt : offset + chunkBytes < snapshot.snapshot.length := by omega
        rw [min_eq_left hlt.le] at hrest
        exact ⟨henv, .inr ⟨⟨id', rfl⟩, hlt, hrest⟩⟩
    | appendEntries | vote | snapshotDone | error | proposalResult =>
      rw [hresp] at hsent
      obtain ⟨henv, hrest⟩ := List.cons_prefix_cons.mp hsent
      exact ⟨henv, .inl (by simpa using hrest)⟩

/-! ## The receiver, message by message -/

theorem InFlightSnapshot.fresh_iff {inFlight : InFlightSnapshot} {now : Nat} :
    inFlight.fresh now = true ↔ now - inFlight.lastChunkAt ≤ SNAPSHOT_TRANSFER_IDLE_TIMEOUT :=
  decide_eq_true_iff

theorem get_handleSnapshotChunk_of_ne {chunk : SnapshotChunkMsg} (hid : chunk.transferId ≠ id) :
    (handleSnapshotChunk d chunk transfers).1.get id =
      (transfers.get id).filter (·.fresh (d.examinedAt id)) := by
  rw [handleSnapshotChunk]
  dsimp only
  split_ifs
  · exact Table.get_retain ..
  · rw [Table.get_remove, if_neg hid.symm, Table.get_retain]
  · rw [Table.get_insert_of_ne _ _ hid.symm, Table.get_retain]

/-- A chunk that is acknowledged is appended to what the retain pass left of its transfer. -/
theorem get_handleSnapshotChunk_of_ack {chunk : SnapshotChunkMsg} {id' : UInt64}
    (hack : (handleSnapshotChunk d chunk transfers).2 = .snapshotChunkAck id') :
    (handleSnapshotChunk d chunk transfers).1.get chunk.transferId =
      some ⟨(((transfers.get chunk.transferId).filter
        (·.fresh (d.examinedAt chunk.transferId))).map (·.data)).getD [] ++ chunk.data,
        d.stampedAt⟩ := by
  rw [handleSnapshotChunk] at hack ⊢
  dsimp only at hack ⊢
  split_ifs at hack ⊢
  rw [Table.get_insert_self, Table.get_retain]

theorem handleEnvelope_snapshotChunk {chunk : SnapshotChunkMsg}
    (henv : d.envelope = .snapshotChunk chunk) :
    handleEnvelope d transfers = ((handleSnapshotChunk d chunk transfers).1,
      ⟨(handleSnapshotChunk d chunk transfers).2, none⟩) := by
  rw [handleEnvelope, henv]

/-- Other messages than chunks leave the other transfers alone. -/
theorem get_handleEnvelope_of_ne (hid : d.envelope.transferId? ≠ some id)
    (hchunk : ∀ chunk, d.envelope ≠ .snapshotChunk chunk) :
    (handleEnvelope d transfers).1.get id = transfers.get id := by
  rw [handleEnvelope]
  cases henv : d.envelope with
  | appendEntries | vote => dsimp only; split <;> rfl
  | snapshotChunk chunk => exact absurd henv (hchunk chunk)
  | snapshotFinal final =>
    rw [henv] at hid
    exact (transfers.get_remove _ _).trans (if_neg fun heq => hid (congrArg some heq.symm))
  | proposalForward => rfl

/-- Only a final message makes the node install a snapshot: its own bytes after those its transfer
has left in the table. -/
theorem eq_snapshotFinal_of_install (hinst : (handleEnvelope d transfers).2.install = some (v, s)) :
    ∃ final, d.envelope = .snapshotFinal final ∧ v = final.vote ∧
      s = ⟨final.meta_, ((transfers.get final.transferId).map (·.data)).getD [] ++ final.data⟩ := by
  rw [handleEnvelope] at hinst
  cases henv : d.envelope with
  | appendEntries | vote =>
    rw [henv] at hinst
    dsimp only at hinst
    split at hinst <;> cases hinst
  | snapshotChunk chunk => simp [henv] at hinst
  | snapshotFinal final =>
    rw [henv] at hinst
    cases hinst
    exact ⟨final, rfl, rfl, rfl⟩
  | proposalForward command => simp [henv] at hinst

theorem exists_of_mem_handleConnection (hmem : (d, h) ∈ handleConnection transfers ds) :
    ∃ transfers', h = (handleEnvelope d transfers').2 := by
  induction ds generalizing transfers with
  | nil => cases hmem
  | cons d' ds ih =>
    rcases List.mem_cons.mp hmem with heq | hmem
    · cases heq
      exact ⟨transfers, rfl⟩
    · exact ih hmem

/-! ## The bytes of a transfer, message by message -/

/-- What the receiver has of a transfer that has sent `offset` bytes of its body, the first `lost`
of them in chunks that are gone. -/
inductive Buffered (body : Bytes) : Option InFlightSnapshot → Nat → Nat → Option Nat → Prop
  | unseen : Buffered body none 0 0 none
  | evicted {offset : Nat} {last : Option Nat} (hpos : 0 < offset)
    (hle : offset ≤ body.length) : Buffered body none offset offset last
  | held {lost offset t : Nat} (hlt : lost < offset) (hle : offset ≤ body.length) :
    Buffered body (some ⟨(body.take offset).drop lost, t⟩) lost offset (some t)

namespace Buffered
variable {body : Bytes} {inFlight : Option InFlightSnapshot} {lost : Nat}

theorem lost_le (hbuf : Buffered body inFlight lost offset last) : lost ≤ offset := by
  cases hbuf with
  | unseen | evicted => exact le_rfl
  | held hlt => exact hlt.le

theorem le_length (hbuf : Buffered body inFlight lost offset last) : offset ≤ body.length := by
  cases hbuf with
  | unseen => exact Nat.zero_le _
  | evicted _ hle | held _ hle => exact hle

/-- The retain pass evicts just what was idle for too long. -/
theorem filter_fresh (now : Nat) (hbuf : Buffered body inFlight lost offset last) :
    ∃ lost', Buffered body (inFlight.filter (·.fresh now)) lost' offset last ∧
      (lost' = 0 ↔ lost = 0 ∧ ∀ t ∈ last, now - t ≤ SNAPSHOT_TRANSFER_IDLE_TIMEOUT) := by
  cases hbuf with
  | unseen => exact ⟨0, .unseen, by simp⟩
  | evicted hpos hle => exact ⟨offset, .evicted hpos hle, by simp [hpos.ne']⟩
  | @held lost offset t hlt hle =>
    rw [Option.filter_some]
    by_cases hidle : now - t ≤ SNAPSHOT_TRANSFER_IDLE_TIMEOUT
    · rw [if_pos (InFlightSnapshot.fresh_iff.mpr hidle)]
      exact ⟨lost, .held hlt hle, by simpa using fun _ => hidle⟩
    · rw [if_neg fun hfresh => hidle (InFlightSnapshot.fresh_iff.mp hfresh)]
      have hpos : 0 < offset := by omega
      exact ⟨offset, .evicted hpos hle, by simpa [hpos.ne'] using fun _ => hidle⟩

theorem drop_take_append_drop {bytes : Bytes} (hle : lost ≤ offset) (hlen : offset ≤ bytes.length) :
    (bytes.take offset).drop lost ++ bytes.drop offset = bytes.drop lost := by
  have hlost : lost ≤ (bytes.take offset).length := by simp; omega
  rw [← List.drop_append_of_le_length hlost, List.take_append_drop]

theorem data_getD (hbuf : Buffered body inFlight lost offset last) :
    (inFlight.map (·.data)).getD [] = (body.take offset).drop lost := by
  cases hbuf with
  | unseen | evicted => simp
  | held => rfl

/-- Appending the next chunk. -/
theorem append {n : Nat} (stamp : Nat) (hbuf : Buffered body inFlight lost offset last) (hn : 0 < n)
    (hle : offset + n ≤ body.length) :
    Buffered body (some ⟨(inFlight.map (·.data)).getD [] ++ (body.take (offset + n)).drop offset,
      stamp⟩) lost (offset + n) (some stamp) := by
  have hlost := hbuf.lost_le
  have htake : body.take offset = (body.take (offset + n)).take offset := by
    rw [List.take_take, min_eq_left (Nat.le_add_right offset n)]
  rw [hbuf.data_getD, htake, drop_take_append_drop hlost (by simp; omega)]
  exact .held (by omega) hle

/-- Appending what is left of the body. -/
theorem append_drop (hbuf : Buffered body inFlight lost offset last) :
    (inFlight.map (·.data)).getD [] ++ body.drop offset = body.drop lost := by
  rw [hbuf.data_getD, drop_take_append_drop hbuf.lost_le hbuf.le_length]

end Buffered

/-! ## The whole transfer -/

/-- A sender whose chunks are empty never comes to the end of a body that is not. -/
theorem not_snapshotFinal_of_conveys_zero (hpos : 0 < snapshot.snapshot.length)
    (hsent : Conveys 0 vote snapshot id 0 (log ++ [(d, h)])) {final : SnapshotFinalMsg T}
    (hid : d.envelope.transferId? = some id) : d.envelope ≠ .snapshotFinal final := by
  induction log with
  | nil =>
    rw [(conveys_cons hid hsent).1]
    intro hfinal
    have hlast := (chunkEnvelope_eq_snapshotFinal hfinal).1
    omega
  | cons head log ih =>
    obtain ⟨d', h'⟩ := head
    by_cases hhead : d'.envelope.transferId? = some id
    · rcases (conveys_cons hhead hsent).2 with hnil | ⟨-, -, hsent⟩
      · simp [ofTransfer, hid] at hnil
      · exact ih hsent
    · exact ih (conveys_cons_of_ne hhead hsent)

/-- What is installed is the body from the last byte lost on. -/
theorem install_of_conveys {lost : Nat} (hpos : snapshot.snapshot ≠ [] → 0 < chunkBytes)
    (hbuf : Buffered snapshot.snapshot (transfers.get id) lost offset last)
    (hlog : handleConnection transfers ds = log ++ [(d, h)])
    (hid : d.envelope.transferId? = some id)
    (hsent : Conveys chunkBytes vote snapshot id offset (log ++ [(d, h)]))
    (hinst : h.install = some (v, s)) :
    ∃ lost' ≤ snapshot.snapshot.length,
      s = ⟨snapshot.meta_, snapshot.snapshot.drop lost'⟩ ∧
      (lost' = 0 ↔ lost = 0 ∧ NeverIdle id last (log.map Prod.fst)) := by
  induction log generalizing transfers ds lost offset last with
  | nil =>
    obtain _ | ⟨d', ds⟩ := ds
    · cases hlog
    obtain ⟨⟨rfl, rfl⟩, -⟩ : (d' = d ∧ (handleEnvelope d' transfers).2 = h) ∧ _ := by
      simpa [handleConnection] using hlog
    obtain ⟨final, hfinal, -, rfl⟩ := eq_snapshotFinal_of_install hinst
    obtain ⟨-, rfl⟩ := chunkEnvelope_eq_snapshotFinal ((conveys_cons hid hsent).1.symm.trans hfinal)
    refine ⟨lost, hbuf.lost_le.trans hbuf.le_length, ?_, by simp [NeverIdle]⟩
    rw [hbuf.append_drop]
  | cons head log ih =>
    obtain _ | ⟨d', ds⟩ := ds
    · cases hlog
    obtain ⟨rfl, hrest⟩ : (d', (handleEnvelope d' transfers).2) = head ∧
        handleConnection (handleEnvelope d' transfers).1 ds = log ++ [(d, h)] := by
      simpa [handleConnection] using hlog
    obtain ⟨kept, hkept, hfresh⟩ := hbuf.filter_fresh (d'.examinedAt id)
    by_cases hhead : d'.envelope.transferId? = some id
    · obtain ⟨henv, hnil | ⟨⟨id', hack⟩, hlt, hsent⟩⟩ := conveys_cons hhead hsent
      · simp [ofTransfer, hid] at hnil
      rw [min_eq_left hlt.le, chunkEnvelope] at henv
      rw [if_neg hlt.ne] at henv
      have hn : 0 < chunkBytes := hpos (List.ne_nil_of_length_pos (by omega))
      have hnext := hkept.append d'.stampedAt hn hlt.le
      rw [handleEnvelope_snapshotChunk henv] at hrest hack
      rw [← get_handleSnapshotChunk_of_ack hack] at hnext
      obtain ⟨lost', hle, hs, hiff⟩ := ih hnext hrest hsent
      refine ⟨lost', hle, hs, ?_⟩
      rw [hiff, List.map_cons, neverIdle_cons_chunk henv, if_pos rfl, hfresh, and_assoc]
    · have hsent := conveys_cons_of_ne hhead hsent
      by_cases hchunk : ∃ chunk, d'.envelope = .snapshotChunk chunk
      · obtain ⟨chunk, henv⟩ := hchunk
        have hne : chunk.transferId ≠ id := fun heq =>
          hhead (by rw [henv]; exact congrArg some heq)
        rw [handleEnvelope_snapshotChunk henv] at hrest
        rw [← get_handleSnapshotChunk_of_ne hne] at hkept
        obtain ⟨lost', hle, hs, hiff⟩ := ih hkept hrest hsent
        refine ⟨lost', hle, hs, ?_⟩
        rw [hiff, List.map_cons, neverIdle_cons_chunk henv, if_neg hne, hfresh, and_assoc]
      · rw [not_exists] at hchunk
        rw [← get_handleEnvelope_of_ne hhead hchunk] at hbuf
        obtain ⟨lost', hle, hs, hiff⟩ := ih hbuf hrest hsent
        refine ⟨lost', hle, hs, ?_⟩
        rw [hiff, List.map_cons, neverIdle_cons_of_ne hchunk]

/-- A snapshot that a message of a transfer installs is the one its sender split just if no chunk
came on the connection when the transfer had been idle for longer than the timeout. -/
theorem snapshot_eq_iff_neverIdle (hlog : handleConnection ∅ ds = log ++ [(d, h)])
    (hid : d.envelope.transferId? = some id)
    (hsent : Conveys chunkBytes vote snapshot id 0 (log ++ [(d, h)]))
    (hinst : h.install = some (v, s)) :
    s.snapshot = snapshot.snapshot ↔ NeverIdle id none (log.map Prod.fst) := by
  have hpos : snapshot.snapshot ≠ [] → 0 < chunkBytes := by
    intro hne
    by_contra hzero
    obtain rfl : chunkBytes = 0 := by omega
    obtain ⟨transfers, rfl⟩ := exists_of_mem_handleConnection (hlog ▸ List.mem_append_right log
      List.mem_cons_self)
    obtain ⟨final, hfinal, -⟩ := eq_snapshotFinal_of_install hinst
    exact not_snapshotFinal_of_conveys_zero (List.length_pos_iff.mpr hne) hsent hid hfinal
  obtain ⟨lost, hle, rfl, hiff⟩ := install_of_conveys hpos .unseen hlog hid hsent hinst
  have hdrop : snapshot.snapshot.drop lost = snapshot.snapshot ↔ lost = 0 := by
    refine ⟨fun heq => ?_, fun hzero => by rw [hzero, List.drop_zero]⟩
    have hlen := congrArg List.length heq
    rw [List.length_drop] at hlen
    omega
  rw [hdrop, hiff, and_iff_right rfl]

/-! ## Runs -/

namespace TransferSample

/-- Messages without content, and a node that installs whatever it is given. -/
def config : SaciTypeConfig := ⟨Unit, Unit, Unit, Unit, Unit, Unit, Unit⟩

def node : Raft config :=
  ⟨fun _ => .ok (), fun _ => .ok (), fun _ _ => .ok (), fun _ => .ok .claimAcked⟩

def body : Snapshot config := ⟨(), [1, 2, 3]⟩

/-- A message that is handled `seconds` after the connection was opened. -/
def at_ (seconds : Nat) (envelope : RpcEnvelope config) : Delivery config :=
  ⟨envelope, node, fun _ => seconds * 1000000000, seconds * 1000000000⟩

/-- The sender of transfer 7 pauses for 31 seconds after its first chunk. -/
def paused : List (Delivery config) :=
  [at_ 0 (.snapshotChunk ⟨7, 0, [1]⟩), at_ 31 (.snapshotChunk ⟨7, 1, [2]⟩),
    at_ 31 (.snapshotFinal ⟨7, 2, [3], (), ()⟩)]

/-- The pause makes the second chunk evict the first, and the rest is installed. -/
theorem paused_installs_rest :
    Conveys 1 () body 7 0 (handleConnection ∅ paused) ∧
      (handleConnection ∅ paused).map (·.2.install) = [none, none, some ((), ⟨(), [2, 3]⟩)] ∧
      [2, 3] ≠ body.snapshot :=
  ⟨⟨[], rfl⟩, rfl, by decide⟩

/-- Two transfers at once, with pauses that the timeout allows. -/
def interleaved : List (Delivery config) :=
  [at_ 0 (.snapshotChunk ⟨7, 0, [1]⟩), at_ 10 (.snapshotChunk ⟨8, 0, [9]⟩),
    at_ 30 (.snapshotChunk ⟨7, 1, [2]⟩), at_ 40 (.appendEntries ()),
    at_ 50 (.snapshotFinal ⟨8, 1, [], (), ()⟩), at_ 90 (.snapshotFinal ⟨7, 2, [3], (), ()⟩)]

/-- The last message of `interleaved`, and how it is handled. -/
def installed : Delivery config × Handled config :=
  (at_ 90 (.snapshotFinal ⟨7, 2, [3], (), ()⟩), ⟨.snapshotDone (), some ((), body)⟩)

theorem interleaved_installs_body :
    handleConnection ∅ interleaved = (handleConnection ∅ interleaved).dropLast ++ [installed] ∧
      NeverIdle 7 none ((handleConnection ∅ interleaved).dropLast.map Prod.fst) := by
  have hlog : handleConnection ∅ interleaved =
      (handleConnection ∅ interleaved).dropLast ++ [installed] := rfl
  have hsent : Conveys 1 () body 7 0 ((handleConnection ∅ interleaved).dropLast ++ [installed]) :=
    ⟨[], rfl⟩
  exact ⟨hlog, (snapshot_eq_iff_neverIdle hlog rfl hsent rfl).mp rfl⟩

end TransferSample

end Saci
