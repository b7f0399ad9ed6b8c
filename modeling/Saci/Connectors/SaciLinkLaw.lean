import Mathlib
import Saci.Connectors.SaciLink

/-!
# What arrives over a link

What stands on a connection is a front of what its sink wrote: the hello, then one frame for each
batch it attempted, of which the source has taken some (`Link.Carries`). Each step keeps that for
the connection it is about, and leaves the others alone (`Step.sound`).
-/

namespace Saci.Wire

section
variable {Schema Fields Batch Addr ι : Type} {arrow : ArrowIpc Schema Fields Batch}

/-! ## Frames -/

theorem written_eq_ok {arrow : ArrowSchema Schema} {frame : Frame Schema} {bytes : Bytes}
    (h : written (encodeFrame arrow frame) = .ok bytes) :
    frame.Fits arrow ∧ bytes = frameBytes (frame.body arrow) := by
  by_cases hfits : frame.Fits arrow
  · exact ⟨hfits, Except.ok.inj (h.symm.trans (written_encodeFrame_of_fits hfits))⟩
  · obtain ⟨e, left, hrun⟩ := run_encodeFrame_of_not_fits hfits []
    unfold written at h
    rw [hrun] at h
    cases h

theorem take_four {body bytes tail : Bytes} (hfits : body.length ≤ U32_MAX)
    (h : bytes <+: frameBytes body ++ tail) (hlen : ¬bytes.length < 4) :
    beValue (bytes.take 4) = body.length := by
  obtain ⟨later, hlater⟩ := h
  have htake : bytes.take 4 = beBytes 4 body.length := by
    rw [← @List.take_append_of_le_length _ _ later _ (not_lt.mp hlen), hlater, frameBytes,
      List.append_assoc]
    exact List.take_left' (length_beBytes ..)
  rw [htake, beValue_beBytes, Nat.mod_eq_of_lt (by unfold U32_MAX at hfits; omega)]

/-- A whole frame at the front is the first that was written. -/
theorem drop_four {body bytes tail : Bytes} (h : bytes <+: frameBytes body ++ tail)
    (hlen : ¬(bytes.drop 4).length < body.length) (hfour : ¬bytes.length < 4) :
    (bytes.drop 4).take body.length = body ∧
      frameBytes body ++ (bytes.drop 4).drop body.length = bytes ∧
      (bytes.drop 4).drop body.length <+: tail := by
  have hle : (frameBytes body).length ≤ bytes.length := by
    rw [length_frameBytes]
    rw [List.length_drop] at hlen
    omega
  obtain ⟨rest, rfl⟩ := List.prefix_of_prefix_length_le (List.prefix_append _ tail) h hle
  have hdrop : (frameBytes body ++ rest).drop 4 = body ++ rest := by
    rw [frameBytes, List.append_assoc]
    exact List.drop_left' (length_beBytes ..)
  rw [hdrop, List.take_left, List.drop_left]
  exact ⟨rfl, rfl, (List.prefix_append_right_inj _).mp h⟩

/-- What is read is the first of the frames that were written, and the others are left. -/
theorem readFrame_of_prefix {bodies : List Bytes} {unread rest body : Bytes} {maxFrameBytes : Nat}
    {ending : Ending} (hfits : ∀ body ∈ bodies, body.length ≤ U32_MAX)
    (h : unread <+: bodies.flatMap frameBytes)
    (hread : readFrame maxFrameBytes unread ending = some (.ok (.body body), rest)) :
    ∃ left, bodies = body :: left ∧ rest <+: left.flatMap frameBytes ∧
      unread = frameBytes body ++ rest := by
  cases bodies with
  | nil =>
    rw [List.flatMap_nil, List.prefix_nil] at h
    subst h
    cases ending with
    | waits => cases hread
    | ends eof e => cases eof <;> cases hread
  | cons first left =>
    rw [List.flatMap_cons] at h
    unfold readFrame at hread
    split at hread
    · split at hread <;> cases hread
    rename_i hfour
    rw [take_four (hfits first List.mem_cons_self) h hfour] at hread
    dsimp only at hread
    split at hread
    · cases hread
    split at hread
    · cases hread
    split at hread
    · split at hread <;> cases hread
    rename_i hlen
    obtain ⟨htake, hunread, hrest⟩ := drop_four h hlen hfour
    rw [htake] at hread
    cases hread
    exact ⟨left, rfl, hrest, hunread.symm⟩

theorem readReply_of_prefix (harrow : arrow.toArrowSchema.Faithful) {answer frame : Frame Schema}
    {reply : Bytes} {e : String} (hfits : answer.Fits arrow.toArrowSchema) (htrace : answer.TraceNonempty)
    (h : reply <+: frameBytes (answer.body arrow.toArrowSchema))
    (hread : readReply arrow e reply = .ok frame) : frame = answer := by
  rw [← List.append_nil (frameBytes _)] at h
  unfold readReply at hread
  split at hread
  · cases hread
  rename_i hfour
  rw [take_four hfits.2 h hfour] at hread
  dsimp only at hread
  split at hread
  · cases hread
  split at hread
  · cases hread
  rename_i hlen
  rw [(drop_four h hlen hfour).1, decodeFrame_body harrow hfits htrace] at hread
  exact (Except.ok.inj hread).symm

/-! ## Batches -/

section
variable {schema : Schema} {Paired : arrow.Encoder → arrow.Decoder → Prop}
  {encoder encoder' : arrow.Encoder} {decoder : arrow.Decoder} {batch : Batch} {ipc : Bytes}
  (hrows : arrow.numRows batch ≠ 0)
include hrows

theorem decodeBatches_encode (hfaithful : arrow.Faithful schema Paired) (hpaired : Paired encoder decoder)
    (hencode : arrow.encode encoder batch = .ok (ipc, encoder')) :
    ∃ decoder', decodeBatches arrow decoder ipc = .ok ([batch], decoder') ∧ Paired encoder' decoder' ∧
      arrow.schema decoder' = some schema := by
  obtain ⟨hne, decoder', hdecode, hpaired', hschema⟩ := hfaithful.reads hrows hpaired hencode
  refine ⟨decoder', ?_, hpaired', hschema⟩
  rw [decodeBatches, if_neg hne]
  split
  · next h => cases h.symm.trans hdecode
  · next h => cases h.symm.trans hdecode
  · next h =>
    cases h.symm.trans hdecode
    rw [decodeBatches, if_pos rfl]
    rfl

variable [DecidableEq Fields]

/-- The frame of a batch completes that batch. -/
theorem receive_data (harrow : arrow.toArrowSchema.Faithful) (hfaithful : arrow.Faithful schema Paired)
    (hpaired : Paired encoder decoder) (hencode : arrow.encode encoder batch = .ok (ipc, encoder'))
    {traceparent : Option String} (htrace : traceparent ≠ some "")
    (hfits : (Frame.data traceparent ipc).Fits arrow.toArrowSchema) {source : SaciSource Schema}
    (hfields : arrow.fields schema = arrow.fields source.schema) (checked : Bool) :
    ∃ decoder' checked', receive arrow source decoder checked
        (.ok (.body ((Frame.data traceparent ipc).body arrow.toArrowSchema))) =
      .receiving decoder' checked' [batch] ∧ Paired encoder' decoder' := by
  obtain ⟨decoder', hdecode, hpaired', hschema⟩ := decodeBatches_encode hrows hfaithful hpaired hencode
  unfold receive
  dsimp only
  rw [decodeFrame_body harrow hfits htrace]
  dsimp only
  rw [hdecode]
  dsimp only
  rw [hschema]
  cases checked with
  | false => exact ⟨decoder', true, if_neg (not_not.mpr hfields), hpaired'⟩
  | true => exact ⟨decoder', true, rfl, hpaired'⟩

omit hrows in
/-- The hello of a sink is accepted exactly if the two declare the same fields. -/
theorem handshake_hello (harrow : arrow.toArrowSchema.Faithful) {identity : NodeIdentity}
    (hfits : (Frame.hello PROTOCOL_VERSION identity schema).Fits arrow.toArrowSchema)
    (source : SaciSource Schema) :
    handshake arrow source
        (.ok (.body ((Frame.hello PROTOCOL_VERSION identity schema).body arrow.toArrowSchema))) =
      some (.ok ()) ↔ arrow.fields schema = arrow.fields source.schema := by
  have hversion : helloVersion ((Frame.hello PROTOCOL_VERSION identity schema).body arrow.toArrowSchema) =
      some PROTOCOL_VERSION := helloVersion_eq rfl rfl
  unfold handshake
  dsimp only
  rw [hversion]
  dsimp only
  rw [if_neg (not_not.mpr rfl), handshake.decide, decodeFrame_body harrow hfits trivial]
  dsimp only
  split_ifs with hfields
  · exact iff_of_false (by simp) hfields
  · exact iff_of_true rfl (not_not.mp hfields)

end

/-- What an encoder makes of batches: the body of one frame each. -/
inductive Encodes (arrow : ArrowIpc Schema Fields Batch) :
    arrow.Encoder → List Batch → List Bytes → arrow.Encoder → Prop
  | nil : Encodes arrow encoder [] [] encoder
  | cons (hrows : arrow.numRows batch ≠ 0) (hencode : arrow.encode encoder batch = .ok (ipc, encoder'))
      (htrace : traceparent ≠ some "") (hfits : (Frame.data traceparent ipc).Fits arrow.toArrowSchema)
      (h : Encodes arrow encoder' batches bodies last) :
      Encodes arrow encoder (batch :: batches)
        ((Frame.data traceparent ipc).body arrow.toArrowSchema :: bodies) last

theorem Encodes.fits {encoder last : arrow.Encoder} {batches : List Batch} {bodies : List Bytes}
    (h : Encodes arrow encoder batches bodies last) : ∀ body ∈ bodies, body.length ≤ U32_MAX := by
  induction h with
  | nil => exact List.forall_mem_nil _
  | cons _ _ _ hfits _ ih => exact List.forall_mem_cons.mpr ⟨hfits.2, ih⟩

theorem Encodes.concat {encoder last last' : arrow.Encoder} {batches : List Batch} {bodies : List Bytes}
    (h : Encodes arrow encoder batches bodies last) {batch : Batch} {ipc bytes : Bytes}
    {traceparent : Option String} (hrows : arrow.numRows batch ≠ 0)
    (hencode : arrow.encode last batch = .ok (ipc, last'))
    (htrace : traceparent ≠ some "") (hframe : dataFrame traceparent ipc = .ok bytes) :
    ∃ bodies', Encodes arrow encoder (batches ++ [batch]) bodies' last' ∧
      bodies'.flatMap frameBytes = bodies.flatMap frameBytes ++ bytes := by
  obtain ⟨hfits, rfl⟩ := written_eq_ok
    ((@dataHeader_append _ arrow.toArrowSchema traceparent ipc).symm.trans hframe)
  induction h with
  | nil => exact ⟨_, .cons hrows hencode htrace hfits .nil, by simp⟩
  | cons hrows' hencode' htrace' hfits' _ ih =>
    obtain ⟨bodies', hencodes, hbytes⟩ := ih hencode
    exact ⟨_, .cons hrows' hencode' htrace' hfits' hencodes, by simp [hbytes]⟩

/-! ## Connections -/

section
variable (Paired : Schema → arrow.Encoder → arrow.Decoder → Prop) (sinks : ι → SaciSink Addr Schema)
  (sources : Addr → SaciSource Schema)

/-- The two ends of a connection declare the same fields. -/
def Link.Agreed (link : Link arrow Addr ι) : Prop :=
  arrow.fields (sinks link.sink).schema = arrow.fields (sources link.peer).schema

/-- What stands on a connection, of whose batches some were handed on. -/
def Link.Carries (link : Link arrow Addr ι) (handed : List Batch) : Phase arrow → Prop
  | .handshake => handed = [] ∧ link.attempts = [] ∧ link.reply = [] ∧
      arrow.tryNew (sinks link.sink).schema = .ok link.encoder ∧
      ∃ bytes, hello arrow (sinks link.sink) = .ok bytes ∧ link.unread <+: bytes
  | .receiving decoder _ batches => link.Agreed sinks sources ∧ ∃ encoder left bodies,
      handed ++ (batches ++ left) = link.attempts ∧
      Paired (sinks link.sink).schema encoder decoder ∧ Encodes arrow encoder left bodies link.encoder ∧
      link.unread <+: bodies.flatMap frameBytes ∧
      (link.failed = none → link.unread = bodies.flatMap frameBytes)
  | .ended => handed <+: link.attempts ∧ (handed ≠ [] → link.Agreed sinks sources)

variable {Paired sinks sources} {link : Link arrow Addr ι} {handed : List Batch}

theorem Link.Carries.handed_prefix {phase : Phase arrow}
    (h : link.Carries Paired sinks sources handed phase) :
    handed <+: link.attempts ∧ (handed ≠ [] → link.Agreed sinks sources) := by
  cases phase with
  | handshake =>
    obtain ⟨rfl, -⟩ := h
    exact ⟨List.nil_prefix, fun hne => absurd rfl hne⟩
  | receiving decoder checked batches =>
    obtain ⟨hagreed, _, _, _, hattempts, -⟩ := h
    exact ⟨⟨_, hattempts⟩, fun _ => hagreed⟩
  | ended => exact h

/-- A write adds the batch to what was attempted, and its frame or a front of it to what stands on
the connection. -/
theorem Link.Carries.write (h : link.Carries Paired sinks sources handed link.phase)
    (hopen : link.phase ≠ .handshake) (hfailed : link.failed = none) {batch : Batch}
    {ipc bytes sent : Bytes} {encoder : arrow.Encoder} {traceparent : Option String}
    (hrows : arrow.numRows batch ≠ 0) (hencode : arrow.encode link.encoder batch = .ok (ipc, encoder)) (htrace : traceparent ≠ some "")
    (hframe : dataFrame traceparent ipc = .ok bytes) (hsent : sent <+: bytes) {written : List Batch}
    {failed : Option Batch} (hattempts' : written ++ failed.toList = link.attempts ++ [batch])
    (hwhole : failed = none → sent = bytes) :
    Link.Carries Paired sinks sources
      { link with encoder, unread := link.unread ++ sent, written, failed } handed link.phase := by
  cases hphase : link.phase with
  | handshake => exact absurd hphase hopen
  | ended =>
    rw [hphase] at h
    exact ⟨h.1.trans ⟨[batch], hattempts'.symm⟩, h.2⟩
  | receiving decoder checked batches =>
    rw [hphase] at h
    obtain ⟨hagreed, encoder₀, left, bodies, hattempts, hpaired, hencodes, -, hall⟩ := h
    obtain ⟨bodies', hencodes', hbytes⟩ := hencodes.concat hrows hencode htrace hframe
    have hunread : link.unread ++ sent = bodies.flatMap frameBytes ++ sent := by rw [hall hfailed]
    refine ⟨hagreed, encoder₀, left ++ [batch], bodies', ?_, hpaired, hencodes', ?_, fun hnone => ?_⟩
    · change _ = written ++ failed.toList
      rw [hattempts', ← hattempts]
      simp only [List.append_assoc]
    · change link.unread ++ sent <+: _
      rw [hunread, hbytes]
      exact (List.prefix_append_right_inj _).mpr hsent
    · change link.unread ++ sent = _
      rw [hunread, hbytes, hwhole hnone]

variable [DecidableEq Fields]

/-- The handshake leaves nothing of the hello, and opens the session only if the two agree. -/
theorem Link.Carries.shake (harrow : arrow.toArrowSchema.Faithful)
    (hfaithful : ∀ i, arrow.Faithful (sinks i).schema (Paired (sinks i).schema))
    (h : link.Carries Paired sinks sources handed .handshake) {maxFrameBytes : Nat} {ending : Ending}
    {incoming : Except String Incoming} {rest reply : Bytes} {phase : Phase arrow} {cut : Option Nat}
    (hread : readFrame maxFrameBytes link.unread ending = some (incoming, rest))
    (hanswer : answered arrow (sources link.peer) incoming cut = (reply, phase)) :
    Link.Carries Paired sinks sources { link with unread := rest, reply, phase } handed phase ∧
      phase ≠ .handshake ∧ ∀ e, readReply arrow e reply = .ok .accept → link.Agreed sinks sources := by
  obtain ⟨rfl, hattempts, -, hencoder, bytes, hhello, hunread⟩ := h
  obtain ⟨hfits, rfl⟩ := written_eq_ok hhello
  -- an accept is the answer to a hello of the same fields, of which nothing is left
  have haccept : handshake arrow (sources link.peer) incoming = some (.ok ()) →
      link.Agreed sinks sources ∧ rest = [] := by
    intro hhandshake
    cases incoming with
    | error e => cases hhandshake
    | ok incoming =>
      cases incoming with
      | eof => cases hhandshake
      | body body =>
        have hframes : link.unread <+: [_].flatMap frameBytes :=
          (List.append_nil (frameBytes _)).symm ▸ hunread
        obtain ⟨left, hleft, hrest, -⟩ :=
          readFrame_of_prefix (List.forall_mem_singleton.mpr hfits.2) hframes hread
        cases hleft
        exact ⟨(handshake_hello harrow hfits _).mp hhandshake, by simpa using hrest⟩
  have hended : ∀ reply, Link.Carries Paired sinks sources
      { link with unread := rest, reply, phase := .ended } [] .ended :=
    fun _ => ⟨List.nil_prefix, fun hne => absurd rfl hne⟩
  unfold answered at hanswer
  split at hanswer
  · cases hanswer
    exact ⟨hended _, by simp, fun e hread => by cases hread⟩
  · rename_i reason hhandshake
    split at hanswer
    · cases hanswer
      exact ⟨hended _, by simp, fun e hread => by cases hread⟩
    · rename_i bytes hbytes
      obtain ⟨hfits, rfl⟩ := written_eq_ok hbytes
      cases hanswer
      refine ⟨hended _, by simp, fun e hread => ?_⟩
      cases readReply_of_prefix harrow hfits trivial (List.take_prefix _ _) hread
  · rename_i hhandshake
    obtain ⟨hagreed, rfl⟩ := haccept hhandshake
    split at hanswer
    · cases hanswer
      exact ⟨hended _, by simp, fun e hread => by cases hread⟩
    · cases hanswer
      cases cut with
      | none =>
        refine ⟨⟨hagreed, link.encoder, [], [], hattempts.symm, (hfaithful _).fresh hencoder, .nil,
          List.nil_prefix, fun _ => rfl⟩, by simp, fun _ _ => hagreed⟩
      | some n => exact ⟨hended _, by simp, fun _ _ => hagreed⟩

/-- The next frame is that of the next batch. -/
theorem Link.Carries.receive (harrow : arrow.toArrowSchema.Faithful)
    (hfaithful : ∀ i, arrow.Faithful (sinks i).schema (Paired (sinks i).schema)) {decoder : arrow.Decoder} {checked : Bool}
    (h : link.Carries Paired sinks sources handed (.receiving decoder checked [])) {maxFrameBytes : Nat}
    {ending : Ending} {incoming : Except String Incoming} {rest : Bytes}
    (hread : readFrame maxFrameBytes link.unread ending = some (incoming, rest)) (phase : Phase arrow)
    (hphase : phase = Wire.receive arrow (sources link.peer) decoder checked incoming) :
    Link.Carries Paired sinks sources { link with unread := rest, phase } handed phase ∧
      phase ≠ .handshake := by
  have hended : Link.Carries Paired sinks sources { link with unread := rest, phase } handed .ended :=
    h.handed_prefix
  obtain ⟨hagreed, encoder, left, bodies, hattempts, hpaired, hencodes, hunread, hall⟩ := h
  cases incoming with
  | error e =>
    subst hphase
    exact ⟨hended, by rintro ⟨⟩⟩
  | ok incoming =>
    cases incoming with
    | eof =>
      subst hphase
      exact ⟨hended, by rintro ⟨⟩⟩
    | body body =>
      obtain ⟨bodies, rfl, hrest, heq⟩ := readFrame_of_prefix hencodes.fits hunread hread
      cases hencodes with
      | cons hrows hencode htrace hfits hencodes =>
        obtain ⟨decoder', checked', hreceive, hpaired'⟩ :=
          receive_data hrows harrow (hfaithful _) hpaired hencode htrace hfits hagreed checked
        rw [hreceive] at hphase
        subst hphase
        refine ⟨⟨hagreed, _, _, bodies, hattempts, hpaired', hencodes, hrest, fun hfailed => ?_⟩,
          by rintro ⟨⟩⟩
        rw [heq] at hall
        exact List.append_cancel_left (hall hfailed)

end

/-! ## The services together -/

section
variable (Paired : Schema → arrow.Encoder → arrow.Decoder → Prop) (sinks : ι → SaciSink Addr Schema)
  (sources : Addr → SaciSource Schema)

/-- What sessions handed on, in order. -/
def Receiver.history (receiver : Receiver Batch) : List (Nat × Batch) := receiver.yielded ++ receiver.queue

def Receiver.handed (receiver : Receiver Batch) (l : Nat) : List Batch :=
  (receiver.history.filter (·.1 = l)).map (·.2)

theorem Receiver.history_send (receiver : Receiver Batch) (item : Nat × Batch) :
    (receiver.send item).history = receiver.history ++ [item] := (List.append_assoc ..).symm

theorem Receiver.handed_send (receiver : Receiver Batch) (l k : Nat) (batch : Batch) :
    (receiver.send (l, batch)).handed k = receiver.handed k ++ if l = k then [batch] else [] := by
  rw [Receiver.handed, Receiver.history_send, List.filter_append, List.map_append]
  split_ifs with h <;> simp [h, Receiver.handed]

/-- What holds of a connection. -/
structure Link.Sound (receivers : Addr → Receiver Batch) (l : Nat) (link : Link arrow Addr ι) : Prop where
  carries : link.Carries Paired sinks sources ((receivers link.peer).handed l) link.phase
  accepted : ∀ e, readReply arrow e link.reply = .ok .accept → link.Agreed sinks sources

/-- A connection is held by the sink that dialled it, until a write on it fails, and is open at the
sink only if it was opened by the source. -/
structure Held (senders : ι → Sender arrow Addr) (links : List (Link arrow Addr ι)) : Prop where
  session : ∀ i l, (senders i).session = some l →
    ∃ link, links[l]? = some link ∧ link.sink = i ∧ link.failed = none
  opened : ∀ i l, (senders i).opened = some l →
    ∃ link, links[l]? = some link ∧ link.phase ≠ .handshake ∧ link.Agreed sinks sources

structure World.Sound (world : World arrow Addr ι) : Prop where
  links : ∀ l link, world.links[l]? = some link → Link.Sound Paired sinks sources world.receivers l link
  held : Held sinks sources world.senders world.links
  known : ∀ peer, ∀ item ∈ (world.receivers peer).history, item.1 < world.links.length
  bounded : ∀ peer, (world.receivers peer).queue.length ≤ max (sources peer).buffer 1

variable {Paired sinks sources} {world : World arrow Addr ι} {senders : ι → Sender arrow Addr}
  {links : List (Link arrow Addr ι)}

/-- Where a connection stands does not change when another is dialled. -/
theorem getElem?_dial {links : List (Link arrow Addr ι)} {l : Nat} {link : Link arrow Addr ι}
    (h : links[l]? = some link) (new : Link arrow Addr ι) : (links ++ [new])[l]? = some link := by
  obtain ⟨hlt, -⟩ := List.getElem?_eq_some_iff.mp h
  rw [List.getElem?_append_left hlt, h]

/-- A connection goes on, and only one that its sink does not hold fails. -/
theorem Held.set (h : Held sinks sources senders links) {l : Nat} {link link' : Link arrow Addr ι}
    (hlink : links[l]? = some link) (hsink : link'.sink = link.sink) (hpeer : link'.peer = link.peer)
    (hphase : link.phase ≠ .handshake → link'.phase ≠ .handshake)
    (hfailed : link.failed = none → (senders link.sink).session = some l → link'.failed = none) :
    Held sinks sources senders (links.set l link') := by
  have hset : (links.set l link')[l]? = some link' := by
    rw [List.getElem?_set_self', hlink]
    rfl
  refine ⟨fun j k hj => ?_, fun j k hj => ?_⟩
  · obtain ⟨old, hold, rfl, hnone⟩ := h.session j k hj
    by_cases hkl : l = k
    · subst hkl
      cases hlink.symm.trans hold
      exact ⟨link', hset, hsink, hfailed hnone hj⟩
    · exact ⟨old, by rw [List.getElem?_set_ne hkl, hold], rfl, hnone⟩
  · obtain ⟨old, hold, hopen, hagreed⟩ := h.opened j k hj
    by_cases hkl : l = k
    · subst hkl
      cases hlink.symm.trans hold
      refine ⟨link', hset, hphase hopen, ?_⟩
      rw [Link.Agreed, hsink, hpeer]
      exact hagreed
    · exact ⟨old, by rw [List.getElem?_set_ne hkl, hold], hopen, hagreed⟩

theorem World.Sound.set (h : world.Sound Paired sinks sources) {l : Nat} {link' : Link arrow Addr ι}
    (hsound : Link.Sound Paired sinks sources world.receivers l link')
    (hheld : Held sinks sources senders (world.links.set l link')) :
    World.Sound Paired sinks sources ⟨senders, world.links.set l link', world.receivers⟩ := by
  refine ⟨fun k link hk => ?_, hheld, fun peer item hitem => ?_, h.bounded⟩
  · by_cases hkl : l = k
    · subst hkl
      obtain ⟨_, rfl⟩ : _ ∧ link' = link := by simpa [List.getElem?_set] using hk
      exact hsound
    · exact h.links k link ((List.getElem?_set_ne hkl).symm.trans hk)
  · rw [List.length_set]
    exact h.known peer item hitem

/-- A step of a sink's turn keeps its connection, or drops it. -/
theorem Sender.Turn.keeps {sink : SaciSink Addr Schema} {sender sender' : Sender arrow Addr}
    (h : Sender.Turn arrow sink sender sender') (l : Nat) :
    (sender'.session = some l → sender.session = some l) ∧
      (sender'.opened = some l → sender.opened = some l) := by
  cases h <;> exact ⟨by rintro ⟨⟩ <;> rfl, by rintro ⟨⟩ <;> rfl⟩

theorem Link.Sound.opened {receivers : Addr → Receiver Batch} {l : Nat} {link : Link arrow Addr ι}
    (h : link.Sound Paired sinks sources receivers l) {e : String}
    (hreply : readReply arrow e link.reply = .ok .accept) :
    link.phase ≠ .handshake ∧ link.Agreed sinks sources := by
  refine ⟨fun hphase => ?_, h.accepted e hreply⟩
  have hcarries := h.carries
  rw [hphase] at hcarries
  rw [hcarries.2.2.1] at hreply
  cases hreply

variable [DecidableEq ι]

/-- A sink goes on with the connection it has, or without. -/
theorem Held.update (h : Held sinks sources senders links) {i : ι} {sender : Sender arrow Addr}
    (hsession : ∀ l, sender.session = some l → (senders i).session = some l)
    (hopened : ∀ l, sender.opened = some l → ∃ link, links[l]? = some link ∧ link.phase ≠ .handshake ∧
      link.Agreed sinks sources) :
    Held sinks sources (Function.update senders i sender) links := by
  refine ⟨fun j l hj => ?_, fun j l hj => ?_⟩
  all_goals
    rw [Function.update_apply] at hj
    split_ifs at hj with hji
  · exact hji ▸ h.session i l (hsession l hj)
  · exact h.session j l hj
  · exact hopened l hj
  · exact h.opened j l hj

theorem Held.dial (h : Held sinks sources senders links) {i : ι} {batch : arrow.Rows} {peers : List Addr}
    {new : Link arrow Addr ι} (hsink : new.sink = i) (hfailed : new.failed = none) :
    Held sinks sources (Function.update senders i (.waiting batch peers links.length)) (links ++ [new]) := by
  refine ⟨fun j l hj => ?_, fun j l hj => ?_⟩
  all_goals
    rw [Function.update_apply] at hj
    split_ifs at hj with hji
  · cases hj
    exact ⟨new, List.getElem?_concat_length, hsink.trans hji.symm, hfailed⟩
  · obtain ⟨link, hlink, hrest⟩ := h.session j l hj
    exact ⟨link, getElem?_dial hlink new, hrest⟩
  · cases hj
  · obtain ⟨link, hlink, hrest⟩ := h.opened j l hj
    exact ⟨link, getElem?_dial hlink new, hrest⟩

variable [DecidableEq Addr] [DecidableEq Fields]

theorem World.Sound.step (harrow : arrow.toArrowSchema.Faithful)
    (hfaithful : ∀ i, arrow.Faithful (sinks i).schema (Paired (sinks i).schema)) (h : world.Sound Paired sinks sources)
    {world' : World arrow Addr ι} (hstep : Step arrow sinks sources world world') :
    world'.Sound Paired sinks sources := by
  cases hstep with
  | turn hturn =>
    exact { h with held := h.held.update (fun l => (hturn.keeps l).1) fun l hl =>
      h.held.opened _ l ((hturn.keeps l).2 hl) }
  | @dial i batch peer peers encoder bytes sent hsender hencoder hhello hsent =>
    refine ⟨fun k link hk => ?_, ?_, fun peer item hitem => ?_, h.bounded⟩
    · by_cases hlt : k < world.links.length
      · exact h.links k link ((List.getElem?_append_left hlt).symm.trans hk)
      · obtain ⟨rfl, rfl⟩ : k = world.links.length ∧
            (⟨i, peer, encoder, sent, [], .handshake, [], none⟩ : Link arrow Addr ι) = link := by
          rw [List.getElem?_append_right (not_lt.mp hlt), List.getElem?_singleton] at hk
          split_ifs at hk with hzero
          exact ⟨by omega, Option.some.inj hk⟩
        refine ⟨⟨?_, rfl, rfl, hencoder, bytes, hhello, hsent⟩, by rintro e ⟨⟩⟩
        rw [Receiver.handed, List.map_eq_nil_iff, List.filter_eq_nil_iff]
        intro item hitem
        have := h.known peer item hitem
        simp only [decide_eq_true_eq]
        omega
    · exact h.held.dial rfl rfl
    · rw [List.length_append]
      exact Nat.lt_add_right _ (h.known peer item hitem)
  | accepted hsender hlink hreply =>
    refine { h with held := h.held.update ?_ ?_ }
    · rintro l ⟨⟩
      rw [hsender]
      rfl
    · rintro l ⟨⟩
      exact ⟨_, hlink, (h.links _ _ hlink).opened hreply⟩
  | refused hsender hlink hreply =>
    exact { h with held := h.held.update (by rintro _ ⟨⟩) (by rintro _ ⟨⟩) }
  | @sent i batch l link ipc encoder traceparent bytes hsender hlink hencode htrace hframe =>
    obtain ⟨hcarries, haccepted⟩ := h.links _ _ hlink
    obtain ⟨_, hsame, -, hfailed⟩ := h.held.session _ _ (congrArg Sender.session hsender)
    cases hlink.symm.trans hsame
    obtain ⟨_, hsame, hopen, -⟩ := h.held.opened _ _ (congrArg Sender.opened hsender)
    cases hlink.symm.trans hsame
    have hheld : Held sinks sources world.senders (world.links.set l
        { link with encoder, unread := link.unread ++ bytes, written := link.written ++ [batch.1] }) :=
      h.held.set hlink rfl rfl id fun hnone _ => hnone
    refine h.set ⟨hcarries.write hopen hfailed batch.2 hencode htrace hframe (List.prefix_refl _) ?_ fun _ => rfl,
      haccepted⟩ (hheld.update ?_ ?_)
    · simp [Link.attempts, hfailed]
    · rintro l ⟨⟩
      rw [hsender]
      rfl
    · rintro l ⟨⟩
      exact hheld.opened _ _ (congrArg Sender.opened hsender)
  | @failed i batch l link ipc encoder traceparent bytes sent hsender hlink hencode htrace hframe hsent =>
    obtain ⟨hcarries, haccepted⟩ := h.links _ _ hlink
    obtain ⟨_, hsame, hsink, hfailed⟩ := h.held.session _ _ (congrArg Sender.session hsender)
    cases hlink.symm.trans hsame
    obtain ⟨_, hsame, hopen, -⟩ := h.held.opened _ _ (congrArg Sender.opened hsender)
    cases hlink.symm.trans hsame
    have hheld := @Held.update _ _ _ _ _ _ _ _ _ _ _ h.held i (.idle none) (by rintro _ ⟨⟩) (by rintro _ ⟨⟩)
    refine h.set ⟨hcarries.write hopen hfailed batch.2 hencode htrace hframe hsent ?_ (by rintro ⟨⟩), haccepted⟩
      (hheld.set hlink rfl rfl id fun _ hholds => ?_)
    · simp [Link.attempts, hfailed]
    · -- the sink has dropped the connection on which the write failed
      rw [hsink, Function.update_self] at hholds
      cases hholds
  | shake hlink hphase hread hanswer =>
    obtain ⟨hcarries, haccepted⟩ := h.links _ _ hlink
    rw [hphase] at hcarries
    obtain ⟨hcarries', hopen, haccepted'⟩ := hcarries.shake harrow hfaithful hread hanswer
    exact h.set ⟨hcarries', haccepted'⟩ (h.held.set hlink rfl rfl (fun _ => hopen) fun hnone _ => hnone)
  | receive hlink hphase hread =>
    obtain ⟨hcarries, haccepted⟩ := h.links _ _ hlink
    rw [hphase] at hcarries
    obtain ⟨hcarries', hopen⟩ := hcarries.receive harrow hfaithful hread _ rfl
    exact h.set ⟨hcarries', haccepted⟩ (h.held.set hlink rfl rfl (fun _ => hopen) fun hnone _ => hnone)
  | @push l link batch decoder checked batches hlink hphase hroom =>
    have hheld : Held sinks sources world.senders (world.links.set l
        { link with phase := .receiving decoder checked batches }) :=
      h.held.set hlink rfl rfl (fun _ => by rintro ⟨⟩) fun hnone _ => hnone
    refine ⟨fun k link' hk => ?_, hheld, fun peer item hitem => ?_, fun peer => ?_⟩
    · by_cases hkl : l = k
      · subst hkl
        obtain ⟨_, rfl⟩ : _ ∧ { link with phase := .receiving decoder checked batches } = link' := by
          simpa [List.getElem?_set] using hk
        obtain ⟨hcarries, haccepted⟩ := h.links l link hlink
        refine ⟨?_, haccepted⟩
        rw [hphase] at hcarries
        obtain ⟨hagreed, encoder, left, bodies, hattempts, hrest⟩ := hcarries
        refine ⟨hagreed, encoder, left, bodies, ?_, hrest⟩
        change (Function.update world.receivers link.peer _ link.peer).handed l ++ (batches ++ left) = _
        rw [Function.update_self, Receiver.handed_send, if_pos rfl, List.append_assoc]
        exact hattempts
      · obtain ⟨hcarries, haccepted⟩ := h.links k link' ((List.getElem?_set_ne hkl).symm.trans hk)
        refine ⟨?_, haccepted⟩
        change Link.Carries _ _ _ link' ((Function.update world.receivers link.peer _ link'.peer).handed k) _
        rw [Function.update_apply]
        split_ifs with heq
        · rw [Receiver.handed_send, if_neg hkl, List.append_nil, ← heq]
          exact hcarries
        · exact hcarries
    · change item ∈ (Function.update world.receivers link.peer _ peer).history at hitem
      rw [List.length_set]
      rw [Function.update_apply] at hitem
      split_ifs at hitem
      · rw [Receiver.history_send, List.mem_append, List.mem_singleton] at hitem
        rcases hitem with hitem | rfl
        · exact h.known _ item hitem
        · exact (List.getElem?_eq_some_iff.mp hlink).1
      · exact h.known peer item hitem
    · change (Function.update world.receivers link.peer _ peer).queue.length ≤ _
      rw [Function.update_apply]
      split_ifs with heq
      · rw [heq, Receiver.send, List.length_append]
        exact hroom
      · exact h.bounded peer
  | closed hlink =>
    obtain ⟨hcarries, haccepted⟩ := h.links _ _ hlink
    exact h.set ⟨hcarries.handed_prefix, haccepted⟩
      (h.held.set hlink rfl rfl (fun _ => by rintro ⟨⟩) fun hnone _ => hnone)
  | @nextBatch peer item queue hqueue =>
    have hhistory : ∀ other, (Function.update world.receivers peer
        ⟨queue, (world.receivers peer).yielded ++ [item]⟩ other).history = (world.receivers other).history := by
      intro other
      rw [Function.update_apply]
      split_ifs with heq
      · rw [heq, Receiver.history, Receiver.history, hqueue, List.append_assoc]
        rfl
      · rfl
    refine ⟨fun k link hk => ?_, h.held, fun other item hitem => ?_, fun other => ?_⟩
    · obtain ⟨hcarries, haccepted⟩ := h.links k link hk
      refine ⟨?_, haccepted⟩
      rw [Receiver.handed, hhistory]
      exact hcarries
    · exact h.known other item (hhistory other ▸ hitem)
    · have hbounded := h.bounded other
      change (Function.update world.receivers peer _ other).queue.length ≤ _
      rw [Function.update_apply]
      split_ifs with heq
      · rw [heq, hqueue, List.length_cons] at hbounded
        rw [heq]
        exact Nat.le_of_succ_le hbounded
      · exact hbounded

theorem Reachable.sound (harrow : arrow.toArrowSchema.Faithful)
    (hfaithful : ∀ i, arrow.Faithful (sinks i).schema (Paired (sinks i).schema))
    (h : Reachable arrow sinks sources world) : world.Sound Paired sinks sources := by
  induction h with
  | start =>
    refine ⟨fun l link hlink => ?_, ⟨fun i l hi => ?_, fun i l hi => ?_⟩, fun peer => ?_, fun peer => ?_⟩
    · cases hlink
    · cases hi
    · cases hi
    · exact List.forall_mem_nil _
    · exact Nat.zero_le _
  | step _ hstep ih => exact ih.step harrow hfaithful hstep

end

end

/-! ## A batch over one link -/

namespace Sample

/-- A stream of rows of one byte: its schema, then the rows. -/
def stream : ArrowIpc UInt8 UInt8 UInt8 where
  toArrowSchema := arrow
  fields := id
  debug := toString
  numRows _ := 1
  Encoder := Option UInt8
  Decoder := Option UInt8
  tryNew schema := .ok (some schema)
  encode encoder row := .ok (encoder.toList ++ [row], none)
  decoder := none
  decode
    | none, schema :: row :: rest => .ok (some (row, rest), some schema)
    | some schema, row :: rest => .ok (some (row, rest), some schema)
    | decoder, _ => .ok (none, decoder)
  schema := id
  owed _ := 0
  shrinks {decoder ipc _ _ _} h := by
    rcases decoder with _ | _ <;> rcases ipc with _ | ⟨_, _ | _⟩ <;> cases h <;> simp

/-- The schema goes out with the first row. -/
def Paired (schema : UInt8) (encoder decoder : Option UInt8) : Prop :=
  encoder = some schema ∧ decoder = none ∨ encoder = none ∧ decoder = some schema

def sinks (_ : Unit) : SaciSink Unit UInt8 := ⟨[()], 7, ⟨"svc-a", "ticks", "out"⟩⟩

def sources (_ : Unit) : SaciSource UInt8 := ⟨7, 64, 8388608⟩

end Sample

end Saci.Wire
