import Saci.Library.BigEndian

/-!
# Length-prefixed frames

Little-endian numbers, and streams of frames: a frame is its length in four little-endian bytes
and then its payload, and the length zero ends the stream. `readFrames` folds a fallible step over
the payloads; `readFrames_frames` says that reading what was written is that fold over the written
payloads. The length field holds the payload's length modulo `2 ^ 32`, so this needs payloads
below that bound, and nonempty ones, since an empty payload reads as the end.
-/

universe u v

/-- The `w` low-order base-256 digits of a number, the least significant first. -/
def leBytes (w n : Nat) : Bytes := (beBytes w n).reverse

/-- The number a little-endian byte string denotes. -/
def leValue (l : Bytes) : Nat := beValue l.reverse

@[simp] theorem length_leBytes (w n : Nat) : (leBytes w n).length = w := by
  simp [leBytes]

theorem leValue_leBytes (w n : Nat) : leValue (leBytes w n) = n % 256 ^ w := by
  rw [leValue, leBytes, List.reverse_reverse, beValue_beBytes]

theorem leValue_leBytes_of_lt {w n : Nat} (h : n < 256 ^ w) : leValue (leBytes w n) = n := by
  rw [leValue_leBytes, Nat.mod_eq_of_lt h]

/-- The four bytes of `n as u32`. -/
def u32Bytes (n : Nat) : Bytes := leBytes 4 n

@[simp] theorem length_u32Bytes (n : Nat) : (u32Bytes n).length = 4 := length_leBytes 4 n

theorem leValue_u32Bytes (n : Nat) : leValue (u32Bytes n) = n % 2 ^ 32 :=
  leValue_leBytes 4 n

/-- One frame. -/
def frame (payload : Bytes) : Bytes := u32Bytes payload.length ++ payload

/-- The length field that ends a stream. -/
def terminator : Bytes := u32Bytes 0

/-- The frames of a stream, without its terminator. -/
def frames (payloads : List Bytes) : Bytes := payloads.flatMap frame

section
variable {ε : Type u} {σ : Type v}

/-- `readFrames`, with a bound on the number of frames. The step is handed the length that was
announced and the bytes that are there of it. -/
def readFramesWithin (short : ε) (step : σ → Nat → Bytes → Except ε σ) :
    Nat → σ → Bytes → Except ε σ
  | 0, _, _ => .error short
  | fuel + 1, s, input =>
    if input.length < 4 then .error short
    else
      let len := leValue (input.take 4)
      if len = 0 then .ok s
      else do
        let s' ← step s len ((input.drop 4).take len)
        readFramesWithin short step fuel s' (input.drop (4 + len))

/-- Fold `step` over the payloads of a stream. What follows the terminator is not read. -/
def readFrames (short : ε) (step : σ → Nat → Bytes → Except ε σ) (s : σ) (input : Bytes) :
    Except ε σ :=
  readFramesWithin short step (input.length + 1) s input

variable {short : ε} {step : σ → Nat → Bytes → Except ε σ}

theorem readFramesWithin_terminator (fuel : Nat) (s : σ) (rest : Bytes) :
    readFramesWithin short step (fuel + 1) s (terminator ++ rest) = .ok s := by
  have hlen : ¬ (terminator ++ rest).length < 4 := by simp [terminator]
  have htake : (terminator ++ rest).take 4 = terminator :=
    List.take_left' (length_u32Bytes 0)
  rw [readFramesWithin, if_neg hlen, htake]
  exact if_pos (leValue_u32Bytes 0)

/-- The length field announces the payload's length modulo `2 ^ 32`, and so many bytes are read. -/
theorem readFramesWithin_frame_mod (fuel : Nat) (s : σ) (payload rest : Bytes) :
    readFramesWithin short step (fuel + 1) s (frame payload ++ rest) =
      if payload.length % 2 ^ 32 = 0 then .ok s
      else step s (payload.length % 2 ^ 32) (payload.take (payload.length % 2 ^ 32)) >>= fun s' =>
        readFramesWithin short step fuel s' (payload.drop (payload.length % 2 ^ 32) ++ rest) := by
  have hlen : ¬ (frame payload ++ rest).length < 4 := by simp [frame]
  have happ : frame payload ++ rest = u32Bytes payload.length ++ (payload ++ rest) := by
    simp [frame]
  have htake : (frame payload ++ rest).take 4 = u32Bytes payload.length := by
    rw [happ]; exact List.take_left' (length_u32Bytes _)
  have hdrop : (frame payload ++ rest).drop 4 = payload ++ rest := by
    rw [happ]; exact List.drop_left' (length_u32Bytes _)
  have hle : payload.length % 2 ^ 32 ≤ payload.length := Nat.mod_le ..
  rw [readFramesWithin, if_neg hlen]
  simp only [htake, leValue_u32Bytes, hdrop, ← List.drop_drop,
    List.take_append_of_le_length hle, List.drop_append_of_le_length hle]

theorem readFramesWithin_frame (fuel : Nat) (s : σ) {payload : Bytes} (rest : Bytes)
    (hne : payload ≠ []) (hlt : payload.length < 2 ^ 32) :
    readFramesWithin short step (fuel + 1) s (frame payload ++ rest) =
      step s payload.length payload >>= fun s' =>
        readFramesWithin short step fuel s' rest := by
  have hpos : payload.length ≠ 0 := fun h => hne (List.length_eq_zero_iff.mp h)
  rw [readFramesWithin_frame_mod, Nat.mod_eq_of_lt hlt, if_neg hpos, List.take_length,
    List.drop_length, List.nil_append]

/-- Reading the frames that were written folds the step over the payloads, and goes on behind
them. -/
theorem readFramesWithin_frames_append {payloads : List Bytes} (fuel : Nat) (s : σ) (rest : Bytes)
    (hne : ∀ payload ∈ payloads, payload ≠ [])
    (hlt : ∀ payload ∈ payloads, payload.length < 2 ^ 32) :
    readFramesWithin short step (payloads.length + fuel) s (frames payloads ++ rest) =
      payloads.foldlM (fun s payload => step s payload.length payload) s >>= fun s' =>
        readFramesWithin short step fuel s' rest := by
  induction payloads generalizing s with
  | nil => rw [List.length_nil, Nat.zero_add]; rfl
  | cons payload payloads ih =>
    have hsplit : frames (payload :: payloads) ++ rest =
        frame payload ++ (frames payloads ++ rest) := by
      simp [frames]
    rw [hsplit, List.length_cons, Nat.succ_add, readFramesWithin_frame _ s _
      (hne _ List.mem_cons_self) (hlt _ List.mem_cons_self), List.foldlM_cons, bind_assoc]
    refine bind_congr fun s' => ih s' ?_ ?_
    · exact fun p hp => hne p (List.mem_cons_of_mem _ hp)
    · exact fun p hp => hlt p (List.mem_cons_of_mem _ hp)

theorem length_le_length_frames (payloads : List Bytes) :
    payloads.length ≤ (frames payloads).length := by
  induction payloads with
  | nil => simp [frames]
  | cons payload payloads ih =>
    simp only [frames, List.flatMap_cons, List.length_append, List.length_cons] at ih ⊢
    simp only [frame, List.length_append, length_u32Bytes]
    omega

theorem readFrames_frames_append {payloads : List Bytes} (s : σ) (rest : Bytes)
    (hne : ∀ payload ∈ payloads, payload ≠ [])
    (hlt : ∀ payload ∈ payloads, payload.length < 2 ^ 32) :
    ∃ fuel, readFrames short step s (frames payloads ++ rest) =
      payloads.foldlM (fun s payload => step s payload.length payload) s >>= fun s' =>
        readFramesWithin short step (fuel + 1) s' rest := by
  have hle := length_le_length_frames payloads
  obtain ⟨fuel, hfuel⟩ := Nat.exists_eq_add_of_le
    (hle.trans (List.length_append ▸ Nat.le_add_right _ rest.length))
  exact ⟨fuel, by rw [readFrames, hfuel, add_assoc, readFramesWithin_frames_append _ s rest hne hlt]⟩

/-- Reading back what was written folds the step over the payloads. -/
theorem readFrames_frames {payloads : List Bytes} (s : σ) (rest : Bytes)
    (hne : ∀ payload ∈ payloads, payload ≠ [])
    (hlt : ∀ payload ∈ payloads, payload.length < 2 ^ 32) :
    readFrames short step s (frames payloads ++ terminator ++ rest) =
      payloads.foldlM (fun s payload => step s payload.length payload) s := by
  rw [List.append_assoc]
  obtain ⟨fuel, hread⟩ : ∃ fuel, readFrames short step s (frames payloads ++ (terminator ++ rest)) =
      payloads.foldlM (fun s payload => step s payload.length payload) s >>= fun s' =>
        readFramesWithin short step (fuel + 1) s' (terminator ++ rest) :=
    readFrames_frames_append s _ hne hlt
  simp only [hread, readFramesWithin_terminator]
  exact bind_pure _

/-! ## The frames of a stream -/

/-- `framesOf`, with a bound on the number of frames. -/
def framesWithin : Nat → Bytes → List (Nat × Bytes)
  | 0, _ => []
  | fuel + 1, input =>
    if input.length < 4 then []
    else
      let len := leValue (input.take 4)
      if len = 0 then [] else (len, (input.drop 4).take len) :: framesWithin fuel (input.drop (4 + len))

/-- The frames up to the terminator: the lengths that are announced, and what is there of each. -/
def framesOf (input : Bytes) : List (Nat × Bytes) := framesWithin (input.length + 1) input

theorem foldlM_of_readFramesWithin {fuel : Nat} {s s' : σ} {input : Bytes}
    (h : readFramesWithin short step fuel s input = .ok s') :
    (framesWithin fuel input).foldlM (fun s part => step s part.1 part.2) s = .ok s' := by
  induction fuel generalizing s input with
  | zero => cases h
  | succ fuel ih =>
    rw [readFramesWithin] at h
    rw [framesWithin]
    split_ifs at h ⊢ with hshort
    dsimp only at h ⊢
    split_ifs at h ⊢ with hlast
    · exact h
    · rw [List.foldlM_cons]
      cases hstep : step s (leValue (input.take 4)) ((input.drop 4).take (leValue (input.take 4))) with
      | error e =>
        rw [hstep] at h
        cases h
      | ok s₁ =>
        rw [hstep] at h
        exact ih h

/-- A stream that can be read is read frame by frame. -/
theorem foldlM_of_readFrames {s s' : σ} {input : Bytes} (h : readFrames short step s input = .ok s') :
    (framesOf input).foldlM (fun s part => step s part.1 part.2) s = .ok s' :=
  foldlM_of_readFramesWithin h

/-- Where a frame that is cut off is refused, a stream that is cut off is. -/
theorem readFramesWithin_cut (hcut : ∀ s len part, part.length < len → ∃ e, step s len part = .error e)
    {payloads : List Bytes} (hne : ∀ payload ∈ payloads, payload ≠ [])
    (hlt : ∀ payload ∈ payloads, payload.length < 2 ^ 32) {cut rest : Bytes} (hrest : rest ≠ [])
    (hwhole : cut ++ rest = frames payloads ++ terminator) (fuel : Nat) (s : σ) :
    ∃ e, readFramesWithin short step fuel s cut = .error e := by
  induction payloads generalizing fuel s cut with
  | nil =>
    have hlength := congrArg List.length hwhole
    have hpos := List.length_pos_iff.mpr hrest
    rw [List.length_append, frames, List.flatMap_nil, List.nil_append, terminator, length_u32Bytes] at hlength
    cases fuel with
    | zero => exact ⟨short, rfl⟩
    | succ fuel => exact ⟨short, by rw [readFramesWithin, if_pos (by omega)]⟩
  | cons payload payloads ih =>
    cases fuel with
    | zero => exact ⟨short, rfl⟩
    | succ fuel =>
      obtain ⟨hpayload, hpayloads⟩ := List.forall_mem_cons.mp hne
      obtain ⟨hsmall, hsmalls⟩ := List.forall_mem_cons.mp hlt
      have hsplit : cut ++ rest = u32Bytes payload.length ++ (payload ++ (frames payloads ++ terminator)) := by
        rw [hwhole, frames, List.flatMap_cons, frame, List.append_assoc, List.append_assoc]
        rfl
      by_cases hshort : cut.length < 4
      · exact ⟨short, by rw [readFramesWithin, if_pos hshort]⟩
      -- the length field is whole
      obtain ⟨body, rfl, hbody⟩ : ∃ body, cut = u32Bytes payload.length ++ body ∧
          body ++ rest = payload ++ (frames payloads ++ terminator) := by
        rcases List.append_eq_append_iff.mp hsplit with ⟨more, hfield, hmore⟩ | ⟨body, hfield, hbody⟩
        · have hlength := congrArg List.length hfield
          rw [length_u32Bytes, List.length_append] at hlength
          obtain rfl : more = [] := List.length_eq_zero_iff.mp (by omega)
          rw [List.append_nil] at hfield
          refine ⟨[], by rw [List.append_nil, hfield], ?_⟩
          rw [List.nil_append]
          rwa [List.nil_append] at hmore
        · exact ⟨body, hfield, hbody.symm⟩
      by_cases hpart : body.length < payload.length
      · have hpos : payload.length ≠ 0 := fun h => hpayload (List.length_eq_zero_iff.mp h)
        obtain ⟨e, he⟩ := hcut s payload.length body hpart
        refine ⟨e, ?_⟩
        have htake : (u32Bytes payload.length ++ body).take 4 = u32Bytes payload.length :=
          List.take_left' (length_u32Bytes _)
        have hdrop : (u32Bytes payload.length ++ body).drop 4 = body := List.drop_left' (length_u32Bytes _)
        rw [readFramesWithin, if_neg hshort, htake, hdrop, leValue_u32Bytes, Nat.mod_eq_of_lt hsmall]
        dsimp only
        rw [if_neg hpos, List.take_of_length_le hpart.le, he]
        rfl
      · obtain ⟨next, rfl⟩ : ∃ next, body = payload ++ next := by
          rcases List.append_eq_append_iff.mp hbody with ⟨more, hfield, hmore⟩ | ⟨next, hfield, hnext⟩
          · have hlength := congrArg List.length hfield
            rw [List.length_append] at hlength
            obtain rfl : more = [] := List.length_eq_zero_iff.mp (by omega)
            rw [List.append_nil] at hfield
            exact ⟨[], by rw [List.append_nil, hfield]⟩
          · exact ⟨next, hfield⟩
        rw [List.append_assoc, List.append_cancel_left_eq] at hbody
        have hframe : u32Bytes payload.length ++ (payload ++ next) = frame payload ++ next := by
          rw [frame, List.append_assoc]
        rw [hframe, readFramesWithin_frame fuel s next hpayload hsmall]
        cases step s payload.length payload with
        | error e => exact ⟨e, rfl⟩
        | ok s' => exact ih hpayloads hsmalls hbody fuel s'

theorem readFrames_cut (hcut : ∀ s len part, part.length < len → ∃ e, step s len part = .error e)
    {payloads : List Bytes} (hne : ∀ payload ∈ payloads, payload ≠ [])
    (hlt : ∀ payload ∈ payloads, payload.length < 2 ^ 32) {cut rest : Bytes} (hrest : rest ≠ [])
    (hwhole : cut ++ rest = frames payloads ++ terminator) (s : σ) :
    ∃ e, readFrames short step s cut = .error e :=
  readFramesWithin_cut hcut hne hlt hrest hwhole _ s

/-- Where the part of a payload that a length too long for the field announces is refused, a stream with such
a payload is read to the frames before it at the most. -/
theorem foldlM_of_readFramesWithin_long {payloads : List Bytes} {fuel : Nat} {s s' : σ}
    (hne : ∀ payload ∈ payloads, payload ≠ [])
    (hcut : ∀ s, ∀ payload ∈ payloads, 2 ^ 32 ≤ payload.length →
      ∃ e, step s (payload.length % 2 ^ 32) (payload.take (payload.length % 2 ^ 32)) = .error e)
    (hlong : ∃ payload ∈ payloads, 2 ^ 32 ≤ payload.length)
    (h : readFramesWithin short step fuel s (frames payloads ++ terminator) = .ok s') :
    ∃ n < payloads.length, (payloads.take n).foldlM (fun s payload => step s payload.length payload) s = .ok s' := by
  induction payloads generalizing fuel s with
  | nil =>
    obtain ⟨payload, hmem, -⟩ := hlong
    cases hmem
  | cons payload payloads ih =>
    cases fuel with
    | zero => cases h
    | succ fuel =>
      obtain ⟨hpayload, hpayloads⟩ := List.forall_mem_cons.mp hne
      have hsplit : frames (payload :: payloads) ++ terminator =
          frame payload ++ (frames payloads ++ terminator) := by
        rw [frames, List.flatMap_cons, List.append_assoc]
        rfl
      rw [hsplit] at h
      by_cases hsmall : payload.length < 2 ^ 32
      · rw [readFramesWithin_frame fuel s _ hpayload hsmall] at h
        cases hstep : step s payload.length payload with
        | error e =>
          rw [hstep] at h
          cases h
        | ok s₁ =>
          rw [hstep] at h
          have hrest : ∃ later ∈ payloads, 2 ^ 32 ≤ later.length := by
            obtain ⟨later, hmem, hlater⟩ := hlong
            rcases List.mem_cons.mp hmem with rfl | hmem
            · exact absurd hsmall (not_lt.mpr hlater)
            · exact ⟨later, hmem, hlater⟩
          obtain ⟨n, hn, hfold⟩ := ih hpayloads (fun s later hlater => hcut s later (List.mem_cons_of_mem _ hlater))
            hrest h
          refine ⟨n + 1, Nat.succ_lt_succ hn, ?_⟩
          rw [List.take_succ_cons, List.foldlM_cons, hstep]
          exact hfold
      · rw [readFramesWithin_frame_mod] at h
        split_ifs at h with hzero
        · exact ⟨0, Nat.succ_pos _, h⟩
        · obtain ⟨e, he⟩ := hcut s payload List.mem_cons_self (not_lt.mp hsmall)
          rw [he] at h
          cases h

end
