import Saci.Connectors.SaciWire

/-!
# What is written is read back

An encoder writes given bytes where its strings and its body fit their length fields, and otherwise
leaves part of them behind (`Writes`). The decoder is followed through a body by what stands at its
position (`List.drop`), which is a whole field or a cut one (`CutAt`).
-/

namespace Saci.Wire

variable {Schema : Type}

/-! ## Writing -/

/-- An encoder that writes `bytes` where a condition holds, and is refused otherwise. -/
structure Writes (x : Writer Unit) (P : Prop) (bytes : Bytes) : Prop where
  accepted : P → ∀ out, x.run out = .ok () (out ++ bytes)
  refused : ¬P → ∃ e left, ∀ out, x.run out = .error e (out ++ left)

section
variable {x y : Writer Unit} {P Q : Prop} {a b : Bytes} {out out' : Bytes}

theorem run_bind_of_ok (h : x.run out = .ok () out') :
    (x >>= fun _ => y).run out = y.run out' := by
  change EStateM.bind x _ out = _
  unfold EStateM.bind
  rw [show x out = .ok () out' from h]
  rfl

theorem run_bind_of_error {e : SaciError} (h : x.run out = .error e out') :
    (x >>= fun _ => y).run out = .error e out' := by
  change EStateM.bind x _ out = _
  unfold EStateM.bind
  rw [show x out = .error e out' from h]

theorem run_extend (a out : Bytes) (y : Writer Unit) :
    (extend a >>= fun _ => y).run out = y.run (out ++ a) := rfl

theorem run_fits {n max : Nat} {message : String} (out : Bytes) (y : Writer Unit) :
    (fits n max message >>= fun _ => y).run out =
      if n ≤ max then y.run out else .error (.generic message) out := by
  unfold fits
  split_ifs <;> rfl

namespace Writes

theorem extend (a : Bytes) : Writes (extend a) True a := ⟨fun _ _ => rfl, fun h => absurd trivial h⟩

theorem fits (n max : Nat) (message : String) : Writes (fits n max message) (n ≤ max) [] where
  accepted h out := by
    rw [List.append_nil]
    unfold Wire.fits
    rw [if_pos h]
    rfl
  refused h := by
    refine ⟨.generic message, [], fun out => ?_⟩
    rw [List.append_nil]
    unfold Wire.fits
    rw [if_neg h]
    rfl

/-- What a refused encoder leaves behind is what it wrote so far. -/
theorem andThen (hx : Writes x P a) (hy : Writes y Q b) :
    Writes (x >>= fun _ => y) (P ∧ Q) (a ++ b) where
  accepted h out := by
    rw [run_bind_of_ok (hx.accepted h.1 out), hy.accepted h.2, List.append_assoc]
  refused h := by
    by_cases hP : P
    · obtain ⟨e, left, hleft⟩ := hy.refused fun hQ => h ⟨hP, hQ⟩
      refine ⟨e, a ++ left, fun out => ?_⟩
      rw [run_bind_of_ok (hx.accepted hP out), hleft, List.append_assoc]
    · obtain ⟨e, left, hleft⟩ := hx.refused hP
      exact ⟨e, left, fun out => run_bind_of_error (hleft out)⟩

theorem congr (h : Writes x P a) (hPQ : P ↔ Q) (hab : a = b) : Writes x Q b := by
  obtain rfl := hab
  exact ⟨fun hQ => h.accepted (hPQ.mpr hQ), fun hQ => h.refused fun hP => hQ (hPQ.mp hP)⟩

end Writes
end

/-- A string with its length. -/
def strBytes (s : String) : Bytes := beBytes 2 (utf8 s).length ++ utf8 s

theorem putStr_writes (s : String) : Writes (putStr s) ((utf8 s).length ≤ U16_MAX) (strBytes s) := by
  refine ((Writes.fits _ _ _).andThen ((Writes.extend _).andThen (Writes.extend _))).congr ?_ rfl
  simp

/-- A body with its length. -/
def frameBytes (body : Bytes) : Bytes := beBytes 4 body.length ++ body

section
variable (arrow : ArrowSchema Schema)

/-- The bytes after the length of a frame. -/
def Frame.body : Frame Schema → Bytes
  | .hello version identity schema =>
    KIND_HELLO :: version :: (strBytes identity.service ++ (strBytes identity.workflow ++
      (strBytes identity.node ++ frameBytes (arrow.schemaBytes schema))))
  | .accept => [KIND_ACCEPT]
  | .reject reason => KIND_REJECT :: strBytes reason
  | .data traceparent ipc => KIND_DATA :: (strBytes (traceparent.getD "") ++ ipc)

def Frame.strings : Frame Schema → List String
  | .hello _ identity _ => [identity.service, identity.workflow, identity.node]
  | .accept => []
  | .reject reason => [reason]
  | .data traceparent _ => [traceparent.getD ""]

/-- Every string and the whole body fit their length fields. -/
def Frame.Fits (frame : Frame Schema) : Prop :=
  (∀ s ∈ frame.strings, (utf8 s).length ≤ U16_MAX) ∧ (frame.body arrow).length ≤ U32_MAX

instance (frame : Frame Schema) : Decidable (frame.Fits arrow) := by
  unfold Frame.Fits
  infer_instance

variable {arrow}

theorem length_frameBytes (body : Bytes) : (frameBytes body).length = 4 + body.length := by
  rw [frameBytes, List.length_append, length_beBytes]

/-- A schema that is too long makes the body too long. -/
theorem Frame.Fits.schema {version : UInt8} {identity : NodeIdentity} {schema : Schema}
    (h : (Frame.hello version identity schema).Fits arrow) :
    (arrow.schemaBytes schema).length ≤ U32_MAX := by
  have hbody := h.2
  simp only [Frame.body, List.length_cons, List.length_append, length_frameBytes] at hbody
  omega

theorem putData_writes (traceparent : Option String) (ipc : Bytes) :
    Writes (putBody arrow (.data traceparent ipc)) ((utf8 (traceparent.getD "")).length ≤ U16_MAX)
      ((Frame.data traceparent ipc).body arrow) := by
  refine ((Writes.extend _).andThen ((putStr_writes _).andThen (Writes.extend _))).congr ?_ rfl
  simp

/-- The part of a frame after its reserved length is refused where a field does not fit. -/
theorem putBody_writes (frame : Frame Schema) :
    ∃ P, (frame.Fits arrow ↔ P ∧ (frame.body arrow).length ≤ U32_MAX) ∧
      Writes (putBody arrow frame) P (frame.body arrow) := by
  cases frame with
  | hello version identity schema =>
    refine ⟨_, ?_, ((Writes.extend _).andThen ((Writes.extend _).andThen
      ((putStr_writes _).andThen ((putStr_writes _).andThen ((putStr_writes _).andThen
        ((Writes.fits _ _ _).andThen ((Writes.extend _).andThen (Writes.extend _)))))))).congr
          Iff.rfl (by simp [Frame.body, frameBytes])⟩
    refine ⟨fun h => ?_, fun h => ?_⟩
    · have hstrings := h.1
      simp only [Frame.strings, List.forall_mem_cons] at hstrings
      obtain ⟨hservice, hworkflow, hnode, -⟩ := hstrings
      exact ⟨⟨trivial, trivial, hservice, hworkflow, hnode, h.schema, trivial, trivial⟩, h.2⟩
    · obtain ⟨⟨-, -, hservice, hworkflow, hnode, -⟩, hbody⟩ := h
      refine ⟨?_, hbody⟩
      simp only [Frame.strings, List.forall_mem_cons]
      exact ⟨hservice, hworkflow, hnode, nofun⟩
  | accept => exact ⟨True, by simp [Frame.Fits, Frame.strings], Writes.extend _⟩
  | reject reason =>
    refine ⟨_, ?_, (Writes.extend _).andThen (putStr_writes _)⟩
    simp [Frame.Fits, Frame.strings]
  | data traceparent ipc =>
    refine ⟨_, ?_, putData_writes traceparent ipc⟩
    simp [Frame.Fits, Frame.strings]

theorem run_finishLength (out body : Bytes) :
    (finishLength out.length).run (out ++ ([0, 0, 0, 0] ++ body)) =
      if body.length ≤ U32_MAX then .ok () (out ++ frameBytes body)
      else .error (.generic (tooLong body.length)) (out ++ ([0, 0, 0, 0] ++ body)) := by
  have hlen : (out ++ ([0, 0, 0, 0] ++ body)).length - out.length - 4 = body.length := by
    simp
  have htake : (out ++ ([0, 0, 0, 0] ++ body)).take out.length = out := List.take_left
  have hdrop : (out ++ ([0, 0, 0, 0] ++ body)).drop (out.length + 4) = body := by
    rw [List.drop_length_add_append]
    rfl
  unfold finishLength
  change EStateM.bind _ _ _ = _
  rw [hlen]
  have hfits := Writes.fits body.length U32_MAX (tooLong body.length)
  split_ifs with hle
  · refine (run_bind_of_ok (hfits.accepted hle _)).trans ?_
    rw [List.append_nil]
    change EStateM.Result.ok () _ = _
    rw [htake, hdrop, List.append_assoc]
    rfl
  · unfold fits
    rw [if_neg hle]
    rfl

/-- A frame that fits is appended with its length. -/
theorem run_encodeFrame_of_fits {frame : Frame Schema} (h : frame.Fits arrow) (out : Bytes) :
    (encodeFrame arrow frame).run out = .ok () (out ++ frameBytes (frame.body arrow)) := by
  obtain ⟨P, hfits, hwrites⟩ := @putBody_writes _ arrow frame
  obtain ⟨hP, hbody⟩ := hfits.mp h
  change (do extend [0, 0, 0, 0]; putBody arrow frame; finishLength out.length : Writer Unit).run
    out = _
  rw [run_bind_of_ok ((Writes.extend _).accepted trivial out), run_bind_of_ok (hwrites.accepted hP _),
    List.append_assoc, run_finishLength, if_pos hbody]

/-- A frame that does not fit leaves its reserved length in the buffer, and part of its body. -/
theorem run_encodeFrame_of_not_fits {frame : Frame Schema} (h : ¬frame.Fits arrow) (out : Bytes) :
    ∃ e left, (encodeFrame arrow frame).run out = .error e (out ++ ([0, 0, 0, 0] ++ left)) := by
  obtain ⟨P, hfits, hwrites⟩ := @putBody_writes _ arrow frame
  change ∃ e left, (do extend [0, 0, 0, 0]; putBody arrow frame; finishLength out.length
    : Writer Unit).run out = .error e (out ++ ([0, 0, 0, 0] ++ left))
  rw [run_bind_of_ok ((Writes.extend _).accepted trivial out)]
  by_cases hP : P
  · have hbody : ¬(frame.body arrow).length ≤ U32_MAX := fun hbody => h (hfits.mpr ⟨hP, hbody⟩)
    refine ⟨.generic (tooLong (frame.body arrow).length), frame.body arrow, ?_⟩
    rw [run_bind_of_ok (hwrites.accepted hP _), List.append_assoc, run_finishLength, if_neg hbody]
  · obtain ⟨e, left, hleft⟩ := hwrites.refused hP
    refine ⟨e, left, ?_⟩
    rw [run_bind_of_error (hleft _), List.append_assoc]

/-- Frames that are accepted one after the other all fit, and are appended in order. -/
theorem run_encodeFrames {frames : List (Frame Schema)} {out out' : Bytes}
    (h : (encodeFrames arrow frames).run out = .ok () out') :
    (∀ frame ∈ frames, frame.Fits arrow) ∧
      out' = out ++ (frames.map (Frame.body arrow)).flatMap frameBytes := by
  induction frames generalizing out with
  | nil =>
    cases h
    exact ⟨nofun, (List.append_nil _).symm⟩
  | cons frame frames ih =>
    by_cases hfits : frame.Fits arrow
    · have hrun : (encodeFrames arrow frames).run (out ++ frameBytes (frame.body arrow)) = .ok () out' :=
        (run_bind_of_ok (run_encodeFrame_of_fits hfits out)).symm.trans h
      obtain ⟨hall, heq⟩ := ih hrun
      refine ⟨List.forall_mem_cons.mpr ⟨hfits, hall⟩, ?_⟩
      rw [heq, List.map_cons, List.flatMap_cons, List.append_assoc]
    · obtain ⟨e, left, hleft⟩ := run_encodeFrame_of_not_fits hfits out
      cases (run_bind_of_error hleft).symm.trans h

theorem written_encodeFrame_of_fits {frame : Frame Schema} (h : frame.Fits arrow) :
    written (encodeFrame arrow frame) = .ok (frameBytes (frame.body arrow)) := by
  unfold written
  rw [run_encodeFrame_of_fits h, List.nil_append]

theorem run_patch (st : Bytes) (n : Nat) :
    (do
      let out ← get
      let body := out.length - 4 + n
      fits body U32_MAX (tooLong body)
      set (beBytes 4 body ++ out.drop 4) : Writer Unit).run st =
    if st.length - 4 + n ≤ U32_MAX then .ok () (beBytes 4 (st.length - 4 + n) ++ st.drop 4)
    else .error (.generic (tooLong (st.length - 4 + n))) st :=
  run_fits st (set (beBytes 4 (st.length - 4 + n) ++ st.drop 4))

/-- Both encoders of a data frame write the same, or are refused alike. -/
theorem dataHeader_append (traceparent : Option String) (ipc : Bytes) :
    (dataHeader traceparent ipc.length).map (· ++ ipc) =
      written (encodeFrame arrow (.data traceparent ipc)) := by
  have hstr := putStr_writes (traceparent.getD "")
  have hdata := @putData_writes _ arrow traceparent ipc
  by_cases hs : (utf8 (traceparent.getD "")).length ≤ U16_MAX
  · have hheader : dataHeader traceparent ipc.length =
        if ((Frame.data traceparent ipc).body arrow).length ≤ U32_MAX then
          .ok (beBytes 4 ((Frame.data traceparent ipc).body arrow).length ++
            KIND_DATA :: strBytes (traceparent.getD ""))
        else .error (.generic (tooLong ((Frame.data traceparent ipc).body arrow).length)) := by
      have hlen : ([0, 0, 0, 0] ++ [KIND_DATA] ++ strBytes (traceparent.getD "")).length - 4 +
          ipc.length = ((Frame.data traceparent ipc).body arrow).length := by
        simp only [Frame.body, List.length_append, List.length_cons, List.length_nil]
        omega
      unfold dataHeader written
      rw [run_extend, run_extend, run_bind_of_ok (hstr.accepted hs _), run_patch, List.nil_append, hlen]
      split_ifs <;> rfl
    have hframe : (encodeFrame arrow (.data traceparent ipc)).run [] =
        (finishLength [].length).run ([] ++ ([0, 0, 0, 0] ++ (Frame.data traceparent ipc).body arrow)) :=
      run_bind_of_ok (hdata.accepted hs [0, 0, 0, 0])
    rw [hheader, written, hframe, run_finishLength]
    split_ifs
    · simp [Except.map, frameBytes, Frame.body]
    · rfl
  · obtain ⟨e, left, hleft⟩ := hstr.refused hs
    have hheader : dataHeader traceparent ipc.length = .error e := by
      unfold dataHeader written
      rw [run_extend, run_extend, run_bind_of_error (hleft _)]
    have hframe : (encodeFrame arrow (.data traceparent ipc)).run [] =
        .error e ([0, 0, 0, 0] ++ [KIND_DATA] ++ left) := by
      refine run_bind_of_error (x := putBody arrow _) ?_
      exact run_bind_of_error (x := putStr _) (hleft _)
    rw [hheader, written, hframe]
    rfl

/-- The frames of a stream of frames that fit. -/
theorem cut_frames {bodies : List Bytes} (h : ∀ body ∈ bodies, body.length ≤ U32_MAX) :
    frameCutter.cut (bodies.flatMap frameBytes) = (bodies, []) := by
  refine Cutter.cut_counted _ fun body hbody => ⟨beBytes 4 body.length, length_beBytes .., ?_, rfl⟩
  have hle : body.length ≤ U32_MAX := h body hbody
  rw [beValue_beBytes, Nat.mod_eq_of_lt (by unfold U32_MAX at hle; omega)]

end

/-! ## Reading -/

section
variable {body rest bytes : Bytes} {position : Nat} {b : UInt8} {s field : String}

theorem lt_length_of_drop (h : body.drop position = b :: rest) : position < body.length := by
  have hlen := congrArg List.length h
  rw [List.length_drop, List.length_cons] at hlen
  omega

theorem byteAt_of_drop (h : body.drop position = b :: rest) : (byteAt body position).result = .ok b := by
  have hget : body[position]? = some b := by
    rw [← List.head?_drop, h]
    rfl
  unfold byteAt
  rw [hget]

theorem drop_succ (h : body.drop position = b :: rest) : body.drop (position + 1) = rest := by
  rw [← List.tail_drop, h]
  rfl

theorem drop_add (h : body.drop position = bytes ++ rest) :
    body.drop (position + bytes.length) = rest := by
  rw [← List.drop_drop, h, List.drop_left]

theorem add_le_length (h : body.drop position = bytes ++ rest) (hle : position ≤ body.length) :
    position + bytes.length ≤ body.length := by
  have hlen := congrArg List.length h
  rw [List.length_drop, List.length_append] at hlen
  omega

theorem slice_of_drop (h : body.drop position = bytes ++ rest) (hle : position ≤ body.length) :
    (slice body position (position + bytes.length)).result = .ok bytes := by
  unfold slice
  rw [if_pos ⟨Nat.le_add_right .., add_le_length h hle⟩, h, Nat.add_sub_cancel_left]
  exact congrArg Except.ok List.take_left

theorem takeU16_of_drop {n : Nat} (hn : n ≤ U16_MAX) (h : body.drop position = beBytes 2 n ++ rest) :
    (takeU16 body position).result = .ok (n, position + 2) := by
  have hvalue : beValue (beBytes 2 n) = n := by
    rw [beValue_beBytes, Nat.mod_eq_of_lt (by unfold U16_MAX at hn; omega)]
  have h₀ : body.drop position = _ :: _ := h
  have h₁ : body.drop (position + 1) = _ :: _ := drop_succ h₀
  have hlt := lt_length_of_drop h₁
  unfold takeU16
  rw [Traced.result_bind_of_ok (Traced.result_refuseIf_eq_ok_iff.mpr (by omega)),
    Traced.result_bind_of_ok (byteAt_of_drop h₀), Traced.result_bind_of_ok (byteAt_of_drop h₁)]
  change Except.ok (beValue (beBytes 2 n), position + 2) = _
  rw [hvalue]

theorem takeU32_of_drop {n : Nat} (hn : n ≤ U32_MAX) (h : body.drop position = beBytes 4 n ++ rest) :
    (takeU32 body position).result = .ok (n, position + 4) := by
  have hvalue : beValue (beBytes 4 n) = n := by
    rw [beValue_beBytes, Nat.mod_eq_of_lt (by unfold U32_MAX at hn; omega)]
  have h₀ : body.drop position = _ :: _ := h
  have h₁ : body.drop (position + 1) = _ :: _ := drop_succ h₀
  have h₂ : body.drop (position + 2) = _ :: _ := drop_succ h₁
  have h₃ : body.drop (position + 3) = _ :: _ := drop_succ h₂
  have hlt := lt_length_of_drop h₃
  unfold takeU32
  rw [Traced.result_bind_of_ok (Traced.result_refuseIf_eq_ok_iff.mpr (by omega)),
    Traced.result_bind_of_ok (byteAt_of_drop h₀), Traced.result_bind_of_ok (byteAt_of_drop h₁),
    Traced.result_bind_of_ok (byteAt_of_drop h₂), Traced.result_bind_of_ok (byteAt_of_drop h₃)]
  change Except.ok (beValue (beBytes 4 n), position + 4) = _
  rw [hvalue]

theorem fromUtf8_utf8 (s field : String) : (fromUtf8 (utf8 s) field).result = .ok s := by
  have h : String.fromUTF8? ⟨(utf8 s).toArray⟩ = some s := dif_pos s.isValidUTF8
  unfold fromUtf8
  rw [h]
  rfl

theorem length_strBytes (s : String) : (strBytes s).length = 2 + (utf8 s).length := by
  rw [strBytes, List.length_append, length_beBytes]

/-- A string that stands at the position is read, and the position is past it. -/
theorem takeStr_of_drop (hs : (utf8 s).length ≤ U16_MAX) (h : body.drop position = strBytes s ++ rest) :
    (takeStr body position field).result = .ok (s, position + (strBytes s).length) := by
  rw [strBytes, List.append_assoc] at h
  have hdrop : body.drop (position + 2) = utf8 s ++ rest := drop_add h
  have hle : position + 2 ≤ body.length :=
    add_le_length h (by have h₀ : body.drop position = _ :: _ := h; exact (lt_length_of_drop h₀).le)
  have hstop := add_le_length hdrop hle
  unfold takeStr
  rw [Traced.result_bind_of_ok (takeU16_of_drop hs h)]
  dsimp only
  rw [Traced.result_bind_of_ok (Traced.result_refuseIf_eq_ok_iff.mpr (by omega)),
    Traced.result_bind_of_ok (slice_of_drop hdrop hle), Traced.result_bind_of_ok (fromUtf8_utf8 s field),
    length_strBytes, Nat.add_assoc]
  rfl

end

section
variable {arrow : ArrowSchema Schema}

/-- A frame with an empty traceparent is read as one without. -/
def Frame.TraceNonempty : Frame Schema → Prop
  | .data traceparent _ => traceparent ≠ some ""
  | _ => True

theorem decodeFrame_cons (kind : UInt8) (rest : Bytes) :
    (decodeFrame arrow (kind :: rest)).result =
      (if kind = KIND_HELLO then decodeHello arrow (kind :: rest)
      else if kind = KIND_ACCEPT then pure .accept
      else if kind = KIND_REJECT then do
        let (reason, _) ← takeStr (kind :: rest) 1 "the reject's reason"
        return .reject reason
      else if kind = KIND_DATA then do
        let (traceparent, position) ← takeStr (kind :: rest) 1 "the data frame's traceparent"
        let ipc ← slice (kind :: rest) position (kind :: rest).length
        return .data (if traceparent = "" then none else some traceparent) ipc
      else Traced.refuse (.generic s!"saci wire: unknown frame kind {kind}")).result := by
  have hdrop : (kind :: rest).drop 0 = kind :: rest := rfl
  unfold decodeFrame
  rw [Traced.result_bind_of_ok (Traced.result_refuseIf_eq_ok_iff.mpr (by simp)),
    Traced.result_bind_of_ok (byteAt_of_drop hdrop)]

theorem decodeHello_body (harrow : arrow.Faithful) {version : UInt8} {identity : NodeIdentity}
    {schema : Schema} (hfits : (Frame.hello version identity schema).Fits arrow) :
    (decodeHello arrow ((Frame.hello version identity schema).body arrow)).result =
      .ok (.hello version identity schema) := by
  have hstrings := hfits.1
  simp only [Frame.strings, List.forall_mem_cons] at hstrings
  obtain ⟨hservice, hworkflow, hnode, -⟩ := hstrings
  have hschema := hfits.schema
  generalize hbody : (Frame.hello version identity schema).body arrow = body
  have h₁ : body.drop 1 = version :: (strBytes identity.service ++ (strBytes identity.workflow ++
      (strBytes identity.node ++ frameBytes (arrow.schemaBytes schema)))) := by
    rw [← hbody]
    rfl
  have h₂ := drop_succ h₁
  have h₃ := drop_add h₂
  have h₄ := drop_add h₃
  have h₅ := drop_add h₄
  rw [frameBytes] at h₅
  have h₆ := (drop_add h₅).trans (List.append_nil _).symm
  rw [length_beBytes] at h₆
  have hstop : (2 + (strBytes identity.service).length + (strBytes identity.workflow).length +
      (strBytes identity.node).length + 4) + (arrow.schemaBytes schema).length = body.length := by
    rw [← hbody, Frame.body]
    simp only [List.length_cons, List.length_append, length_frameBytes]
    omega
  have htake : (takeSchema arrow (arrow.schemaBytes schema)).result = .ok schema := by
    unfold takeSchema
    rw [harrow schema]
    rfl
  unfold decodeHello
  rw [Traced.result_bind_of_ok (Traced.result_refuseIf_eq_ok_iff.mpr (by omega)),
    Traced.result_bind_of_ok (byteAt_of_drop h₁)]
  rw [Traced.result_bind_of_ok (takeStr_of_drop hservice h₂)]
  dsimp only
  rw [Traced.result_bind_of_ok (takeStr_of_drop hworkflow h₃)]
  dsimp only
  rw [Traced.result_bind_of_ok (takeStr_of_drop hnode h₄)]
  dsimp only
  rw [Traced.result_bind_of_ok (takeU32_of_drop hschema h₅)]
  dsimp only
  rw [Traced.result_bind_of_ok (Traced.result_refuseIf_eq_ok_iff.mpr (by omega)),
    Traced.result_bind_of_ok (slice_of_drop h₆ (by omega)),
    Traced.result_bind_of_ok htake]
  rfl

/-- The body of a frame that fits is read as the frame. -/
theorem decodeFrame_body (harrow : arrow.Faithful) {frame : Frame Schema} (hfits : frame.Fits arrow)
    (htrace : frame.TraceNonempty) : (decodeFrame arrow (frame.body arrow)).result = .ok frame := by
  cases frame with
  | hello version identity schema =>
    refine (decodeFrame_cons _ _).trans ?_
    rw [if_pos rfl]
    exact decodeHello_body harrow hfits
  | accept => exact decodeFrame_cons _ _
  | reject reason =>
    have hreason : (utf8 reason).length ≤ U16_MAX := hfits.1 reason List.mem_cons_self
    refine (decodeFrame_cons _ _).trans ?_
    rw [if_neg (by decide), if_neg (by decide), if_pos rfl,
      Traced.result_bind_of_ok (takeStr_of_drop hreason (List.append_nil _).symm)]
    rfl
  | data traceparent ipc =>
    have hstr : (utf8 (traceparent.getD "")).length ≤ U16_MAX := hfits.1 _ List.mem_cons_self
    have hdrop : (KIND_DATA :: (strBytes (traceparent.getD "") ++ ipc)).drop 1 =
        strBytes (traceparent.getD "") ++ ipc := rfl
    have hrest := (drop_add hdrop).trans (List.append_nil _).symm
    have hlen : 1 + (strBytes (traceparent.getD "")).length + ipc.length =
        (KIND_DATA :: (strBytes (traceparent.getD "") ++ ipc)).length := by
      simp only [List.length_cons, List.length_append]
      omega
    refine (decodeFrame_cons _ _).trans ?_
    rw [if_neg (by decide), if_neg (by decide), if_neg (by decide), if_pos rfl,
      Traced.result_bind_of_ok (takeStr_of_drop hstr hdrop)]
    dsimp only
    rw [← hlen, Traced.result_bind_of_ok (slice_of_drop hrest (by omega))]
    cases traceparent with
    | none => rfl
    | some tp =>
      have hne : tp ≠ "" := fun h => htrace (by rw [h])
      change Except.ok (Frame.data (if tp = "" then none else some tp) ipc) = _
      rw [if_neg hne]

end

/-! ## Bodies that end early -/

/-- What stands at the position is the front of `whole`, and not all of it. -/
def CutAt (body : Bytes) (position : Nat) (whole : Bytes) : Prop :=
  ∃ n < whole.length, body.drop position = whole.take n

section
variable {body rest bytes : Bytes} {position : Nat} {s field : String}

/-- A field is cut itself, or is whole and what follows it is cut. -/
theorem CutAt.cases (h : CutAt body position (bytes ++ rest)) :
    CutAt body position bytes ∨
      ∃ n < rest.length, body.drop position = bytes ++ rest.take n := by
  obtain ⟨n, hn, hdrop⟩ := h
  rw [List.length_append] at hn
  by_cases hlt : n < bytes.length
  · left
    refine ⟨n, hlt, ?_⟩
    rw [hdrop, List.take_append_of_le_length hlt.le]
  · right
    refine ⟨n - bytes.length, by omega, ?_⟩
    rw [hdrop, List.take_append, List.take_of_length_le (by omega)]

/-- There are too few bytes for a field of fixed width that is cut. -/
theorem CutAt.short (h : CutAt body position bytes) : position + bytes.length > body.length := by
  obtain ⟨n, hn, hdrop⟩ := h
  have hlen := congrArg List.length hdrop
  rw [List.length_drop, List.length_take] at hlen
  omega

theorem takeStr_of_cut (hs : (utf8 s).length ≤ U16_MAX)
    (h : CutAt body position (strBytes s ++ rest)) :
    (takeStr body position field).result = .error (.refused truncated) ∨
      ∃ next, (takeStr body position field).result = .ok (s, next) ∧ CutAt body next rest := by
  rcases h.cases with h | ⟨n, hn, hdrop⟩
  · left
    rcases h.cases with h | ⟨n, hn, hdrop⟩
    · have hshort := h.short
      rw [length_beBytes] at hshort
      exact Traced.result_bind_of_error
        (Traced.result_bind_of_error (Traced.result_refuseIf_of_pos hshort))
    · have hshort : CutAt body (position + 2) (utf8 s) := ⟨n, hn, drop_add hdrop⟩
      refine (Traced.result_bind_of_ok (takeU16_of_drop hs hdrop)).trans ?_
      exact Traced.result_bind_of_error (Traced.result_refuseIf_of_pos hshort.short)
  · right
    exact ⟨_, takeStr_of_drop hs hdrop, n, hn, drop_add hdrop⟩

end

section
variable {arrow : ArrowSchema Schema}

theorem decodeHello_of_cut {version : UInt8} {identity : NodeIdentity} {schema : Schema}
    (hfits : (Frame.hello version identity schema).Fits arrow) {n : Nat}
    (hn : n < ((Frame.hello version identity schema).body arrow).length) :
    (decodeHello arrow (((Frame.hello version identity schema).body arrow).take n)).result =
      .error (.refused truncated) := by
  have hstrings := hfits.1
  simp only [Frame.strings, List.forall_mem_cons] at hstrings
  obtain ⟨hservice, hworkflow, hnode, -⟩ := hstrings
  have hschema := hfits.schema
  generalize hbody : ((Frame.hello version identity schema).body arrow).take n = body
  by_cases hlen : 1 ≥ body.length
  · exact Traced.result_bind_of_error (Traced.result_refuseIf_of_pos hlen)
  obtain ⟨n, rfl⟩ : ∃ m, n = m + 2 := by
    rw [← hbody, List.length_take] at hlen
    exact ⟨n - 2, by omega⟩
  have h₁ : body.drop 1 = version :: (strBytes identity.service ++ (strBytes identity.workflow ++
      (strBytes identity.node ++ frameBytes (arrow.schemaBytes schema)))).take n := by
    rw [← hbody]
    rfl
  have h₂ : CutAt body 2 _ := ⟨n, by simpa [Frame.body] using hn, drop_succ h₁⟩
  unfold decodeHello
  rw [Traced.result_bind_of_ok (Traced.result_refuseIf_eq_ok_iff.mpr hlen),
    Traced.result_bind_of_ok (byteAt_of_drop h₁)]
  rcases takeStr_of_cut hservice h₂ with hcut | ⟨_, hread, h₃⟩
  · exact Traced.result_bind_of_error hcut
  refine (Traced.result_bind_of_ok hread).trans ?_
  rcases takeStr_of_cut hworkflow h₃ with hcut | ⟨_, hread, h₄⟩
  · exact Traced.result_bind_of_error hcut
  refine (Traced.result_bind_of_ok hread).trans ?_
  rcases takeStr_of_cut hnode h₄ with hcut | ⟨position, hread, h₅⟩
  · exact Traced.result_bind_of_error hcut
  refine (Traced.result_bind_of_ok hread).trans ?_
  rcases h₅.cases with hcut | ⟨m, hm, hdrop⟩
  · have hshort := hcut.short
    rw [length_beBytes] at hshort
    exact Traced.result_bind_of_error
      (Traced.result_bind_of_error (Traced.result_refuseIf_of_pos hshort))
  · have hcut : CutAt body (position + 4) (arrow.schemaBytes schema) := ⟨m, hm, drop_add hdrop⟩
    refine (Traced.result_bind_of_ok (takeU32_of_drop hschema hdrop)).trans ?_
    exact Traced.result_bind_of_error (Traced.result_refuseIf_of_pos hcut.short)

/-- A hello or a reject whose body ends early is refused as truncated. -/
theorem decodeFrame_of_cut {frame : Frame Schema} (hfits : frame.Fits arrow)
    (hkind : frame.kind = KIND_HELLO ∨ frame.kind = KIND_REJECT) {n : Nat}
    (hn : n < (frame.body arrow).length) :
    (decodeFrame arrow ((frame.body arrow).take n)).result = .error (.refused truncated) := by
  cases n with
  | zero => exact Traced.result_bind_of_error (Traced.result_refuseIf_of_pos rfl)
  | succ n =>
    cases frame with
    | hello version identity schema =>
      refine (decodeFrame_cons _ _).trans ?_
      rw [if_pos rfl]
      exact decodeHello_of_cut hfits hn
    | reject reason =>
      have hreason : (utf8 reason).length ≤ U16_MAX := hfits.1 reason List.mem_cons_self
      have hcut : CutAt (KIND_REJECT :: (strBytes reason).take n) 1 (strBytes reason ++ []) := by
        refine ⟨n, ?_, by rw [List.append_nil]; rfl⟩
        rw [List.append_nil]
        exact Nat.lt_of_succ_lt_succ hn
      refine (decodeFrame_cons _ _).trans ?_
      rw [if_neg (by decide), if_neg (by decide), if_pos rfl]
      rcases takeStr_of_cut hreason hcut with hcut | ⟨_, _, _, hlt, _⟩
      · exact Traced.result_bind_of_error hcut
      · exact absurd hlt (Nat.not_lt_zero _)
    | accept => rcases hkind with h | h <;> cases h
    | data => rcases hkind with h | h <;> cases h

end

/-! ## Reading stays inside -/

section
variable {arrow : ArrowSchema Schema} {body : Bytes} {position : Nat}

/-- A position in the body. -/
def Inside (body : Bytes) (i : Nat) : Prop := i < body.length

theorem byteAt_sound (h : position < body.length) :
    Traced.Sound (Inside body) (byteAt body position) fun b => body[position]? = some b := by
  unfold byteAt
  rw [List.getElem?_eq_getElem h]
  refine ⟨fun i hi => ?_, nofun, fun b hb => ?_⟩
  · rw [List.mem_singleton.mp hi]
    exact h
  · cases hb
    rfl

theorem slice_sound {start stop : Nat} (hle : start ≤ stop) (hstop : stop ≤ body.length) :
    Traced.Sound (Inside body) (slice body start stop) fun _ => True := by
  unfold slice
  rw [if_pos ⟨hle, hstop⟩]
  refine ⟨fun i hi => ?_, nofun, fun _ _ => trivial⟩
  have hi := List.mem_range'_1.mp hi
  change i < body.length
  omega

theorem takeU16_sound : Traced.Sound (Inside body) (takeU16 body position) fun r =>
    r.2 ≤ body.length := by
  refine (Traced.Sound.refuseIf _).bind fun _ hle => ?_
  refine (byteAt_sound (by omega)).bind fun _ _ => ?_
  refine (byteAt_sound (by omega)).bind fun _ _ => ?_
  exact .ret (by dsimp only; omega)

theorem takeU32_sound : Traced.Sound (Inside body) (takeU32 body position) fun r =>
    r.2 ≤ body.length := by
  refine (Traced.Sound.refuseIf _).bind fun _ hle => ?_
  refine (byteAt_sound (by omega)).bind fun _ _ => ?_
  refine (byteAt_sound (by omega)).bind fun _ _ => ?_
  refine (byteAt_sound (by omega)).bind fun _ _ => ?_
  refine (byteAt_sound (by omega)).bind fun _ _ => ?_
  exact .ret (by dsimp only; omega)

theorem fromUtf8_sound {bytes : Bytes} {field : String} :
    Traced.Sound (Inside body) (fromUtf8 bytes field) fun _ => True := by
  unfold fromUtf8
  split
  · exact .ret trivial
  · exact .refuse _

theorem takeSchema_sound {bytes : Bytes} :
    Traced.Sound (Inside body) (takeSchema arrow bytes) fun _ => True := by
  unfold takeSchema
  split
  · exact .ret trivial
  · exact .refuse _

theorem takeStr_sound {field : String} :
    Traced.Sound (Inside body) (takeStr body position field) fun r => r.2 ≤ body.length := by
  refine takeU16_sound.bind fun (len, position) hle => ?_
  refine (Traced.Sound.refuseIf _).bind fun _ hstop => ?_
  refine (slice_sound (Nat.le_add_right ..) (by omega)).bind fun _ _ => ?_
  exact fromUtf8_sound.bind fun _ _ => .ret (by dsimp only; omega)

theorem decodeHello_sound : Traced.Sound (Inside body) (decodeHello arrow body) fun frame =>
    ∃ version identity schema, body[1]? = some version ∧ frame = .hello version identity schema := by
  refine (Traced.Sound.refuseIf _).bind fun _ hlen => ?_
  refine (byteAt_sound (by omega)).bind fun version hversion => ?_
  refine takeStr_sound.bind fun (_, _) _ => ?_
  refine takeStr_sound.bind fun (_, _) _ => ?_
  refine takeStr_sound.bind fun (_, _) _ => ?_
  refine takeU32_sound.bind fun (_, _) _ => ?_
  refine (Traced.Sound.refuseIf _).bind fun _ hstop => ?_
  refine (slice_sound (Nat.le_add_right ..) (by omega)).bind fun _ _ => ?_
  exact takeSchema_sound.bind fun _ _ => .ret ⟨version, _, _, hversion, rfl⟩

theorem helloVersion_eq {version : UInt8} (hkind : body[0]? = some KIND_HELLO)
    (hversion : body[1]? = some version) : helloVersion body = some version := by
  match body with
  | [] => cases hkind
  | [_] => cases hversion
  | _ :: _ :: _ =>
    cases hkind
    cases hversion
    rfl

/-- The decoder neither traps nor reads past the body, whatever the bytes are, and a hello it reads
has the version that was announced. -/
theorem decodeFrame_sound (arrow : ArrowSchema Schema) (body : Bytes) :
    Traced.Sound (Inside body) (decodeFrame arrow body) fun frame =>
      ∀ version identity schema, frame = .hello version identity schema →
        helloVersion body = some version := by
  refine (Traced.Sound.refuseIf _).bind fun _ hne => ?_
  refine (byteAt_sound (List.length_pos_iff.mpr hne)).bind fun kind hkind => ?_
  split_ifs with hhello
  · refine decodeHello_sound.mono fun frame ⟨version, identity, schema, hversion, heq⟩ => ?_
    intro version' identity' schema' heq'
    cases heq.symm.trans heq'
    exact helloVersion_eq (hhello ▸ hkind) hversion
  · exact .ret nofun
  · exact takeStr_sound.bind fun (_, _) _ => .ret nofun
  · refine takeStr_sound.bind fun (_, _) hle => ?_
    exact (slice_sound hle le_rfl).bind fun _ _ => .ret nofun
  · exact .refuse _

end

/-! ## The wire -/

/-- What the two sides of a session rely on, for some frames. -/
structure Lawful (arrow : ArrowSchema Schema) (frames : List (Frame Schema)) : Prop where
  /-- Frames that are accepted one after the other are cut apart again and read back. -/
  readsBack : (∀ frame ∈ frames, frame.TraceNonempty) → ∀ out out',
    (encodeFrames arrow frames).run out = .ok () out' →
      ∃ appended bodies, out' = out ++ appended ∧ frameCutter.cut appended = (bodies, []) ∧
        bodies.map (fun body => (decodeFrame arrow body).result) = frames.map .ok
  /-- A frame that is refused leaves the buffer as it was. -/
  kept : ∀ frame ∈ frames, ∀ out e out',
    (encodeFrame arrow frame).run out = .error e out' → out' = out
  /-- The header and the IPC bytes are the encoding of the data frame. -/
  header : ∀ traceparent ipc, .data traceparent ipc ∈ frames →
    (dataHeader traceparent ipc.length).map (· ++ ipc) =
      written (encodeFrame arrow (.data traceparent ipc))
  /-- Reading any bytes stays inside them and does not trap. -/
  inside : ∀ body, Traced.Sound (Inside body) (decodeFrame arrow body) fun _ => True
  /-- A hello or a reject whose body ends early is refused. -/
  cut : ∀ frame ∈ frames, frame.kind = KIND_HELLO ∨ frame.kind = KIND_REJECT →
    ∀ count body, count.length = 4 → written (encodeFrame arrow frame) = .ok (count ++ body) →
      ∀ n < body.length, ∃ e, (decodeFrame arrow (body.take n)).result = .error (.refused e)

/-- All holds of frames that fit, and a frame that does not fit is not taken back. -/
theorem lawful_iff {arrow : ArrowSchema Schema} (harrow : arrow.Faithful)
    (frames : List (Frame Schema)) :
    Lawful arrow frames ↔ ∀ frame ∈ frames, frame.Fits arrow := by
  refine ⟨fun h frame hframe => ?_, fun h => ?_⟩
  · by_contra hfits
    obtain ⟨e, left, hleft⟩ := run_encodeFrame_of_not_fits hfits []
    cases h.kept frame hframe [] e _ hleft
  · refine ⟨fun htraced out out' hrun => ?_, fun frame hframe out e out' hrefused => ?_,
      fun traceparent ipc _ => dataHeader_append traceparent ipc,
      fun body => (decodeFrame_sound arrow body).mono fun _ _ => trivial,
      fun frame hframe hkind count body hcount hwritten n hn => ?_⟩
    · obtain ⟨-, heq⟩ := run_encodeFrames hrun
      refine ⟨_, frames.map (Frame.body arrow), heq, cut_frames ?_, ?_⟩
      · refine List.forall_mem_map.mpr fun frame hframe => ?_
        exact (h frame hframe).2
      · rw [List.map_map]
        refine List.map_congr_left fun frame hframe => ?_
        exact decodeFrame_body harrow (h frame hframe) (htraced frame hframe)
    · rw [run_encodeFrame_of_fits (h frame hframe)] at hrefused
      cases hrefused
    · have hfits := h frame hframe
      rw [written_encodeFrame_of_fits hfits] at hwritten
      have hparts := Except.ok.inj hwritten
      obtain ⟨-, rfl⟩ := List.append_inj hparts ((length_beBytes ..).trans hcount.symm)
      exact ⟨truncated, decodeFrame_of_cut hfits hkind hn⟩

namespace Sample

/-- An encoding of schemas that have a number and nothing else. -/
def arrow : ArrowSchema UInt8 where
  schemaBytes schema := [schema]
  trySchema
    | [schema] => .ok schema
    | _ => .error "Unable to get root as message"

theorem arrow_faithful : arrow.Faithful := fun _ => rfl

def frames : List (Frame UInt8) :=
  [.hello PROTOCOL_VERSION { service := "svc-a", workflow := "ticks", node := "out" } 7, .accept,
    .reject "schema mismatch", .data none [7, 8, 9], .data (some "tp") [1, 2, 3, 4]]

theorem frames_lawful : Lawful arrow frames := (lawful_iff arrow_faithful frames).mpr (by decide)

/-- `"x".repeat(n)`. -/
def xs : Nat → String
  | 0 => ""
  | n + 1 => (xs n).push 'x'

theorem length_utf8_xs (n : Nat) : (utf8 (xs n)).length = n := by
  induction n with
  | zero => rfl
  | succ n ih => exact String.utf8ByteSize_push.trans (congrArg (· + 1) ih)

/-- What a reason past its length field leaves behind. -/
theorem run_encodeFrame_of_long {reason : String} (hlong : ¬(utf8 reason).length ≤ U16_MAX) :
    ∃ e, (encodeFrame arrow (.reject reason)).run [] = .error e [0, 0, 0, 0, KIND_REJECT] := by
  have hstr : (putStr reason).run ([0, 0, 0, 0] ++ [KIND_REJECT]) = .error _ _ :=
    (run_fits _ _).trans (if_neg hlong)
  exact ⟨_, run_bind_of_error (x := putBody arrow _) hstr⟩

/-- The length and the kind of a frame that is refused stay in the buffer. -/
theorem long_reason_stays :
    (∃ e, (encodeFrame arrow (.reject (xs 70000))).run [] = .error e [0, 0, 0, 0, KIND_REJECT]) ∧
      ¬Lawful arrow [.reject (xs 70000)] := by
  have hlong : ¬(utf8 (xs 70000)).length ≤ U16_MAX := by
    rw [length_utf8_xs]
    decide
  generalize xs 70000 = reason at hlong ⊢
  obtain ⟨e, hrun⟩ := run_encodeFrame_of_long hlong
  refine ⟨⟨e, hrun⟩, fun h => ?_⟩
  cases h.kept _ List.mem_cons_self [] _ _ hrun

end Sample

end Saci.Wire
