import Mathlib
import Saci.Library.BigEndian
import Saci.Library.Cutting
import Saci.Library.Decimal

/-!
# The framers of the HTTP source

`LineFramer` and `EventFramer` (`saci-connector-http/src/framing.rs`), and the part of `read_body`
(`source.rs`) that hands them each chunk and drains them. Each framer cuts lines off the front of
its buffer (`lineCutter`, `eventCutter`). How bytes are read as text, `String::from_utf8_lossy`, is
a parameter.
-/

namespace Saci.Http

def lf : UInt8 := 10
def cr : UInt8 := 13
def colon : UInt8 := 58
def space : UInt8 := 32

/-- A frame longer than the configured cap. -/
inductive OverCap
  | overCap
  deriving DecidableEq

/-! ## Lines -/

structure LineFramer where
  buffer : Bytes
  /-- The longest line to frame, `none` for no limit. -/
  cap : Option Nat

/-- Whether a length is past the cap. -/
def pastCap (cap : Option Nat) (length : Nat) : Bool := cap.any fun cap => length > cap

namespace LineFramer

def new (cap : Option Nat) : LineFramer := ⟨[], cap⟩

def push (framer : LineFramer) (chunk : Bytes) : LineFramer :=
  { framer with buffer := framer.buffer ++ chunk }

def overCap (framer : LineFramer) : Bool := pastCap framer.cap framer.buffer.length

/-- The next whole line, or `none` when the buffer holds no newline yet. -/
def next (framer : LineFramer) : Except OverCap (Option Bytes) × LineFramer :=
  match framer.buffer.findIdx? (· = lf) with
  | none => (.ok none, framer)
  | some pos =>
    if pastCap framer.cap pos then (.error .overCap, framer)
    else
      let line := framer.buffer.take pos
      let line := if line.getLast? = some cr then line.dropLast else line
      (.ok (some line), { framer with buffer := framer.buffer.drop (pos + 1) })

end LineFramer

/-! ## Events -/

/-- One event, as dispatched by a blank line. -/
structure Event where
  event : Option String
  data : Bytes
  deriving DecidableEq

structure EventFramer where
  buffer : Bytes
  cap : Option Nat
  /-- The name and data seen since the last blank line. -/
  pending : Event
  /-- Whether any `data:` line reached `pending`. -/
  hasData : Bool
  /-- The last event ID buffer. -/
  id : Option String
  /-- The id a dispatch applied. -/
  lastId : Option String
  /-- The reconnect delay a `retry:` field asked for, in milliseconds, until it is taken. -/
  retry : Option Nat

/-- What a line leads to. -/
inductive Turn
  | goOn (framer : EventFramer)
  | dispatched (event : Event) (framer : EventFramer)
  | overCap (framer : EventFramer)

/-- The framer after a turn. -/
def Turn.framer : Turn → EventFramer
  | .goOn framer | .dispatched _ framer | .overCap framer => framer

/-- `split_field`: the value without a single leading space. -/
def splitField (line : Bytes) : Bytes × Bytes :=
  match line.findIdx? (· = colon) with
  | some pos =>
    let value := line.drop (pos + 1)
    (line.take pos, if value.head? = some space then value.tail else value)
  | none => (line, [])

def fieldName (name : String) : Bytes := name.toUTF8.data.toList

/-- One line of the buffer, ended by CR LF, LF or CR; a lone CR at its end yields nothing. -/
def cutLine (buffer : Bytes) : Option (Bytes × Bytes) :=
  match buffer.findIdx? (fun b => b = lf ∨ b = cr) with
  | none => none
  | some pos =>
    if buffer[pos]? = some cr ∧ pos + 1 = buffer.length then none
    else
      let skip := if buffer[pos]? = some cr ∧ buffer[pos + 1]? = some lf then 2 else 1
      some (buffer.take pos, buffer.drop (pos + skip))

namespace EventFramer

def new (cap : Option Nat) : EventFramer := ⟨[], cap, ⟨none, []⟩, false, none, none, none⟩

def push (framer : EventFramer) (chunk : Bytes) : EventFramer :=
  { framer with buffer := framer.buffer ++ chunk }

def overCap (framer : EventFramer) : Bool :=
  pastCap framer.cap (framer.buffer.length + framer.pending.data.length)

def takeRetry (framer : EventFramer) : Option Nat × EventFramer :=
  (framer.retry, { framer with retry := none })

/-- A blank line. -/
def dispatch (framer : EventFramer) : Turn :=
  let framer := { framer with lastId := framer.id }
  if framer.hasData then
    .dispatched framer.pending { framer with hasData := false, pending := ⟨none, []⟩ }
  else .goOn { framer with pending := ⟨none, []⟩ }

section
variable (fromUtf8Lossy : Bytes → String)

/-- One field. A value of ASCII digits is valid UTF-8, and parses when it fits in 64 bits. -/
def processField (framer : EventFramer) (field value : Bytes) : Turn :=
  if field = fieldName "event" then
    .goOn { framer with pending := { framer.pending with event := some (fromUtf8Lossy value) } }
  else if field = fieldName "data" then
    let data := if framer.hasData then framer.pending.data ++ [lf] else framer.pending.data
    let framer := { framer with
      pending := { framer.pending with data := data ++ value }, hasData := true }
    if pastCap framer.cap framer.pending.data.length then .overCap framer else .goOn framer
  else if field = fieldName "id" ∧ 0 ∉ value then
    .goOn { framer with id := some (fromUtf8Lossy value) }
  else if field = fieldName "retry" then
    if value ≠ [] ∧ value.all isAsciiDigit ∧ decimalValue value < 2 ^ 64 then
      .goOn { framer with retry := some (decimalValue value) }
    else .goOn framer
  else .goOn framer

def processLine (framer : EventFramer) (line : Bytes) : Turn :=
  if line.isEmpty then framer.dispatch
  else if line.head? = some colon then .goOn framer
  else framer.processField fromUtf8Lossy (splitField line).1 (splitField line).2

end

end EventFramer

/-! ## Cutting lines -/

theorem findIdx?_append_of_some {p : UInt8 → Bool} {arrived : Bytes} {pos : Nat}
    (h : arrived.findIdx? p = some pos) (later : Bytes) :
    (arrived ++ later).findIdx? p = some pos := by
  rw [List.findIdx?_append, h, Option.some_or]

theorem lt_of_findIdx? {p : UInt8 → Bool} {arrived : Bytes} {pos : Nat}
    (h : arrived.findIdx? p = some pos) : pos < arrived.length :=
  (List.findIdx?_eq_some_iff_getElem.mp h).1

/-- What stands before the next newline. -/
def cutRaw (buffer : Bytes) : Option (Bytes × Bytes) :=
  (buffer.findIdx? (· = lf)).map fun pos => (buffer.take pos, buffer.drop (pos + 1))

/-- Lines end at newlines. -/
def lineCutter : Cutter UInt8 Bytes where
  next := cutRaw
  shrinks h := by
    obtain ⟨pos, hpos, heq⟩ := Option.map_eq_some_iff.mp h
    have hlt := lt_of_findIdx? hpos
    cases heq
    rw [List.length_drop]
    omega
  stable h later := by
    obtain ⟨pos, hpos, heq⟩ := Option.map_eq_some_iff.mp h
    have hlt := lt_of_findIdx? hpos
    cases heq
    rw [cutRaw, findIdx?_append_of_some hpos, Option.map_some,
      List.take_append_of_le_length hlt.le, List.drop_append_of_le_length hlt]

theorem cutLine_eq_some {buffer line rest : Bytes} (h : cutLine buffer = some (line, rest)) :
    ∃ pos skip, buffer.findIdx? (fun b => b = lf ∨ b = cr) = some pos ∧
      pos + skip ≤ buffer.length ∧ 0 < skip ∧ line = buffer.take pos ∧ rest = buffer.drop (pos + skip) ∧
      (buffer[pos]? = some cr → pos + 1 < buffer.length) ∧
      skip = if buffer[pos]? = some cr ∧ buffer[pos + 1]? = some lf then 2 else 1 := by
  rw [cutLine] at h
  split at h
  · cases h
  · next pos hpos =>
    have hlt := lt_of_findIdx? hpos
    split_ifs at h with hlone hcrlf
    · cases h
      have hlt' := (List.getElem?_eq_some_iff.mp hcrlf.2).1
      exact ⟨pos, 2, hpos, by omega, by omega, rfl, rfl, fun _ => hlt', by rw [if_pos hcrlf]⟩
    · cases h
      refine ⟨pos, 1, hpos, by omega, by omega, rfl, rfl, fun hcr => ?_, by rw [if_neg hcrlf]⟩
      have hne : pos + 1 ≠ buffer.length := fun heq => hlone ⟨hcr, heq⟩
      omega

/-- Lines of an event stream end at CR LF, LF or CR. -/
def eventCutter : Cutter UInt8 Bytes where
  next := cutLine
  shrinks h := by
    obtain ⟨pos, skip, _, hle, hpos, _, rfl, _⟩ := cutLine_eq_some h
    rw [List.length_drop]
    omega
  stable {buffer _ _} h later := by
    obtain ⟨pos, skip, hpos, hle, _, rfl, rfl, hlast, hskip⟩ := cutLine_eq_some h
    have hlt := lt_of_findIdx? hpos
    have hat : (buffer ++ later)[pos]? = buffer[pos]? := List.getElem?_append_left hlt
    have hlone : ¬(buffer[pos]? = some cr ∧ pos + 1 = (buffer ++ later).length) := by
      rintro ⟨hcr, heq⟩
      have := hlast hcr
      rw [List.length_append] at heq
      omega
    -- the byte after a CR has arrived, so it is the same
    have hskip' : (if (buffer ++ later)[pos]? = some cr ∧ (buffer ++ later)[pos + 1]? = some lf
        then 2 else 1) = skip := by
      rw [hat, hskip]
      by_cases hcr : buffer[pos]? = some cr
      · rw [List.getElem?_append_left (hlast hcr)]
      · rw [if_neg (fun h => hcr h.1), if_neg (fun h => hcr h.1)]
    rw [cutLine, findIdx?_append_of_some hpos]
    dsimp only
    rw [hat, if_neg hlone, ← hat, hskip', List.take_append_of_le_length hlt.le,
      List.drop_append_of_le_length hle]

/-! ## Draining -/

namespace LineFramer

theorem next_eq (framer : LineFramer) : framer.next =
    match lineCutter.next framer.buffer with
    | none => (.ok none, framer)
    | some (raw, rest) =>
      if pastCap framer.cap raw.length then (.error .overCap, framer)
      else (.ok (some (if raw.getLast? = some cr then raw.dropLast else raw)),
        { framer with buffer := rest }) := by
  rw [next]
  change _ = match cutRaw framer.buffer with | none => _ | some (raw, rest) => _
  rw [cutRaw]
  cases hfind : framer.buffer.findIdx? (· = lf) with
  | none => rfl
  | some pos =>
    have hle := (lt_of_findIdx? hfind).le
    simp [List.length_take, Nat.min_eq_left hle]

theorem next_shrinks {framer framer' : LineFramer} {line : Bytes}
    (h : framer.next = (.ok (some line), framer')) :
    framer'.buffer.length < framer.buffer.length := by
  rw [next_eq] at h
  split at h
  · cases h
  · next hnext =>
    split_ifs at h <;> cases h <;> exact lineCutter.shrinks hnext

/-- The loop of `read_body` over the lines that are there; whether one of them was refused. -/
def drain (framer : LineFramer) : List Bytes × Bool × LineFramer :=
  match _h : framer.next with
  | (.ok (some line), framer') => (line :: (drain framer').1, (drain framer').2)
  | (.ok none, framer') => ([], false, framer')
  | (.error _, framer') => ([], true, framer')
termination_by framer.buffer.length
decreasing_by all_goals exact next_shrinks _h

end LineFramer

/-- Read a body chunk by chunk, up to a refusal. -/
def readLines (framer : LineFramer) : List Bytes → List Bytes × Bool
  | [] => ([], false)
  | chunk :: chunks =>
    let (lines, refused, framer) := (framer.push chunk).drain
    if refused || framer.overCap then (lines, true)
    else (lines ++ (readLines framer chunks).1, (readLines framer chunks).2)

namespace EventFramer

section
variable {fromUtf8Lossy : Bytes → String}

/-- A line leaves the buffer and the cap as they are. -/
theorem framer_processLine (framer : EventFramer) (line : Bytes) :
    (framer.processLine fromUtf8Lossy line).framer.buffer = framer.buffer ∧
      (framer.processLine fromUtf8Lossy line).framer.cap = framer.cap := by
  unfold processLine dispatch processField
  dsimp only
  split_ifs <;> exact ⟨rfl, rfl⟩

theorem buffer_of_processLine {framer : EventFramer} {line rest : Bytes} {turn : Turn}
    (h : processLine fromUtf8Lossy { framer with buffer := rest } line = turn) :
    turn.framer.buffer = rest := by
  rw [← h]
  exact (framer_processLine _ line).1

end

section
variable (fromUtf8Lossy : Bytes → String)

/-- The next dispatched event, or `none` when no blank line has arrived. -/
def next (framer : EventFramer) : Except OverCap (Option Event) × EventFramer :=
  match _h : cutLine framer.buffer with
  | none => (.ok none, framer)
  | some (line, rest) =>
    match _h' : processLine fromUtf8Lossy { framer with buffer := rest } line with
    | .goOn framer' => next framer'
    | .dispatched event framer' => (.ok (some event), framer')
    | .overCap framer' => (.error .overCap, framer')
termination_by framer.buffer.length
decreasing_by
  have hbuffer : framer'.buffer = rest := buffer_of_processLine _h'
  exact hbuffer.symm ▸ eventCutter.shrinks _h

variable {fromUtf8Lossy}

theorem next_of_none {framer : EventFramer} (h : cutLine framer.buffer = none) :
    framer.next fromUtf8Lossy = (.ok none, framer) := by
  rw [next]
  split
  · rfl
  · next hsome =>
    rw [h] at hsome
    cases hsome

/-- With a line there, `next` does what the line leads to. -/
theorem next_of_some {framer : EventFramer} {line rest : Bytes}
    (h : cutLine framer.buffer = some (line, rest)) :
    framer.next fromUtf8Lossy =
      match processLine fromUtf8Lossy { framer with buffer := rest } line with
      | .goOn framer' => framer'.next fromUtf8Lossy
      | .dispatched event framer' => (.ok (some event), framer')
      | .overCap framer' => (.error .overCap, framer') := by
  rw [next]
  split
  · next hnone =>
    rw [h] at hnone
    cases hnone
  · next line' rest' hsome =>
    rw [h] at hsome
    cases hsome
    split <;> simp only [*]

theorem next_shrinks {framer framer' : EventFramer} {event : Event}
    (h : framer.next fromUtf8Lossy = (.ok (some event), framer')) :
    framer'.buffer.length < framer.buffer.length := by
  fun_induction next fromUtf8Lossy framer with
  | case1 => cases h
  | case2 framer line rest hcut framer₁ hline ih =>
    have hbuffer : framer₁.buffer = rest := buffer_of_processLine hline
    have hshrinks := eventCutter.shrinks hcut
    have hlater := ih h
    rw [hbuffer] at hlater
    exact hlater.trans hshrinks
  | case3 framer line rest hcut event' framer₁ hline =>
    cases h
    have hbuffer : framer'.buffer = rest := buffer_of_processLine hline
    exact hbuffer.symm ▸ eventCutter.shrinks hcut
  | case4 => cases h

variable (fromUtf8Lossy)

/-- The loop of `read_body` over the events that are there; whether one of them was refused. -/
def drain (framer : EventFramer) : List Event × Bool × EventFramer :=
  match _h : framer.next fromUtf8Lossy with
  | (.ok (some event), framer') => (event :: (drain framer').1, (drain framer').2)
  | (.ok none, framer') => ([], false, framer')
  | (.error _, framer') => ([], true, framer')
termination_by framer.buffer.length
decreasing_by all_goals exact next_shrinks _h

end

end EventFramer

/-- The reader of an event stream: its framer, and the reconnect delay it has taken last. -/
structure EventReader where
  framer : EventFramer
  reconnect : Option Nat

/-- Read a body chunk by chunk, up to a refusal; `read_body` takes the reconnect delay after each
chunk. -/
def readEvents (fromUtf8Lossy : Bytes → String) (reader : EventReader) :
    List Bytes → List Event × Bool × EventReader
  | [] => ([], false, reader)
  | chunk :: chunks =>
    let (events, refused, framer) := (reader.framer.push chunk).drain fromUtf8Lossy
    let (retry, framer) := framer.takeRetry
    let reader := ⟨framer, retry.or reader.reconnect⟩
    if refused || framer.overCap then (events, true, reader)
    else
      let (more, rest) := readEvents fromUtf8Lossy reader chunks
      (events ++ more, rest)

end Saci.Http
