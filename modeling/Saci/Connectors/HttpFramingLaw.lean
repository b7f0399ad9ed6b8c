import Mathlib.Data.List.TakeDrop
import Mathlib.Data.List.TakeWhile
import Saci.Connectors.HttpFraming

/-!
# Framing does not depend on chunks

Two specifications over a whole byte string: its lines with a cap on their length (`cappedLines`),
and the event stream interpretation of it (`eventStream`). Reading the byte string chunk by chunk
gives what they give (`readLines_eq`, `readEvents_eq`), since a framer keeps in its buffer what no
line has been cut from yet. The framer does not strip a byte order mark and reads a reconnection
time only when it fits in 64 bits, so it is the interpretation of the standard on the other streams.
-/

namespace Saci.Http

/-! ## Lines, as the whole byte string has them -/

/-- Put a byte in front of the first line. -/
def consByte (b : UInt8) : List Bytes × Bytes → List Bytes × Bytes
  | ([], tail) => ([], b :: tail)
  | (line :: lines, tail) => ((b :: line) :: lines, tail)

/-- The newline-ended lines, and what follows the last of them. -/
def rawLines : Bytes → List Bytes × Bytes
  | [] => ([], [])
  | b :: rest =>
    if b = lf then ([] :: (rawLines rest).1, (rawLines rest).2) else consByte b (rawLines rest)

/-- A line without one CR at its end. -/
def stripCr (line : Bytes) : Bytes := if line.getLast? = some cr then line.dropLast else line

/-- The lines up to the first one longer than the cap, and whether there is one, ended or not. -/
def cappedLines (cap : Option Nat) (body : Bytes) : List Bytes × Bool :=
  let (lines, tail) := rawLines body
  ((lines.takeWhile fun line => !pastCap cap line.length).map stripCr,
    (lines ++ [tail]).any fun line => pastCap cap line.length)

/-! ## Event streams, as the standard interprets them -/

/-- The lines ended by CR LF, LF or CR, and what follows the last of them; a final lone CR does not
end a line yet. -/
def streamLines : Bytes → List Bytes × Bytes
  | [] => ([], [])
  | b :: rest =>
    if b = lf then ([] :: (streamLines rest).1, (streamLines rest).2)
    else if b = cr then
      match rest with
      | [] => ([], [cr])
      | c :: rest' =>
        if c = lf then ([] :: (streamLines rest').1, (streamLines rest').2)
        else ([] :: (streamLines (c :: rest')).1, (streamLines (c :: rest')).2)
    else consByte b (streamLines rest)

/-- The state of an interpretation: the buffers, the last event ID and the reconnection time that
was set, and the events dispatched, each with its type and data. -/
structure EventStream where
  data : Bytes
  eventType : String
  idBuffer : String
  lastEventId : String
  reconnectionTime : Option Nat
  dispatched : List (String × Bytes)

namespace EventStream

local instance lawfulBEqByte : LawfulBEq UInt8 := inferInstance

def initial : EventStream := ⟨[], "", "", "", none, []⟩

/-- A blank line: the last event ID is set, and an event is dispatched if there is data. -/
def dispatch (stream : EventStream) : EventStream :=
  { stream with
    data := []
    eventType := ""
    lastEventId := stream.idBuffer
    dispatched :=
      if stream.data = [] then stream.dispatched
      else stream.dispatched ++ [(stream.eventType, stream.data.dropLast)] }

section
variable (decode : Bytes → String) (limit : Option Nat)

/-- One field. A reconnection time at or past the limit is ignored. -/
def processField (stream : EventStream) (field value : Bytes) : EventStream :=
  if field = fieldName "event" then { stream with eventType := decode value }
  else if field = fieldName "data" then { stream with data := stream.data ++ value ++ [lf] }
  else if field = fieldName "id" then
    if 0 ∈ value then stream else { stream with idBuffer := decode value }
  else if field = fieldName "retry" then
    if value ≠ [] ∧ (∀ b ∈ value, isAsciiDigit b) ∧ ∀ n, limit = some n → decimalValue value < n then
      { stream with reconnectionTime := some (decimalValue value) }
    else stream
  else stream

/-- One line: blank, a comment, a field with a value, or a field name alone. -/
def processLine (stream : EventStream) (line : Bytes) : EventStream :=
  match line with
  | [] => stream.dispatch
  | b :: _ =>
    if b = colon then stream
    else
      match line.span (· ≠ colon) with
      | (field, []) => stream.processField decode limit field []
      | (field, _ :: value) =>
        stream.processField decode limit field
          (match value with
          | [] => []
          | b :: rest => if b = space then rest else b :: rest)

end

end EventStream

/-- The byte order mark that decoding strips. -/
def bom : Bytes := [0xEF, 0xBB, 0xBF]

/-- A byte order mark at the front is not part of the text. -/
def stripBom (body : Bytes) : Bytes := if bom <+: body then body.drop 3 else body

/-- The interpretation of an event stream, with a limit on the reconnection times it reads; the
standard has none. Decoding does not go across the ASCII bytes that end lines and fields, so it is
applied to the values. -/
def eventStream (decode : Bytes → String) (limit : Option Nat) (body : Bytes) : EventStream :=
  (streamLines (stripBom body)).1.foldl (EventStream.processLine decode limit) .initial

/-! ## Where the lines are cut -/

/-- A byte string around the first byte that passes a test. -/
theorem split_of_findIdx? {p : UInt8 → Bool} {l : Bytes} {pos : Nat} (h : l.findIdx? p = some pos) :
    ∃ b, l = l.take pos ++ b :: l.drop (pos + 1) ∧ p b = true ∧ l[pos]? = some b ∧
      ∀ x ∈ l.take pos, p x = false := by
  obtain ⟨hlt, hp, hbefore⟩ := List.findIdx?_eq_some_iff_getElem.mp h
  refine ⟨l[pos], ?_, hp, List.getElem?_eq_getElem hlt, fun x hx => ?_⟩
  · rw [← List.drop_eq_getElem_cons hlt, List.take_append_drop]
  · obtain ⟨j, hj, rfl⟩ := List.mem_take_iff_getElem.mp hx
    exact Bool.eq_false_iff.mpr (hbefore j (by omega))

@[simp] theorem consByte_cons (b : UInt8) (line tail : Bytes) (lines : List Bytes) :
    consByte b (line :: lines, tail) = ((b :: line) :: lines, tail) := rfl

@[simp] theorem consByte_nil (b : UInt8) (tail : Bytes) :
    consByte b ([], tail) = ([], b :: tail) := rfl

theorem rawLines_of_not_mem {body : Bytes} (h : lf ∉ body) : rawLines body = ([], body) := by
  induction body with
  | nil => rfl
  | cons b body ih =>
    rw [List.mem_cons, not_or] at h
    rw [rawLines, if_neg (Ne.symm h.1), ih h.2, consByte_nil]

theorem rawLines_append {body : Bytes} (h : lf ∉ body) (rest : Bytes) :
    rawLines (body ++ lf :: rest) = (body :: (rawLines rest).1, (rawLines rest).2) := by
  induction body with
  | nil => rw [List.nil_append, rawLines, if_pos rfl]
  | cons b body ih =>
    rw [List.mem_cons, not_or] at h
    rw [List.cons_append, rawLines, if_neg (Ne.symm h.1), ih h.2, consByte_cons]

/-- Cutting at newlines gives the lines. -/
theorem cut_lineCutter (body : Bytes) : lineCutter.cut body = rawLines body := by
  fun_induction Cutter.cut lineCutter body with
  | case1 body h =>
    have hnone := List.findIdx?_eq_none_iff.mp (Option.map_eq_none_iff.mp h)
    rw [rawLines_of_not_mem fun hmem => absurd (hnone lf hmem) (by decide)]
  | case2 body line rest h ih =>
    obtain ⟨pos, hpos, heq⟩ := Option.map_eq_some_iff.mp h
    cases heq
    obtain ⟨b, hsplit, hb, _, hbefore⟩ := split_of_findIdx? hpos
    obtain rfl := of_decide_eq_true hb
    have hnot : lf ∉ body.take pos := fun hmem => absurd (hbefore lf hmem) (by decide)
    conv_rhs => rw [hsplit]
    rw [ih, rawLines_append hnot]

/-- The byte ends no line. -/
def Plain (body : Bytes) : Prop := ∀ b ∈ body, b ≠ lf ∧ b ≠ cr

theorem streamLines_lf (rest : Bytes) :
    streamLines (lf :: rest) = ([] :: (streamLines rest).1, (streamLines rest).2) := by
  rw [streamLines.eq_def]
  exact if_pos rfl

theorem streamLines_crlf (rest : Bytes) :
    streamLines (cr :: lf :: rest) = ([] :: (streamLines rest).1, (streamLines rest).2) := by
  rw [streamLines.eq_def]
  rfl

theorem streamLines_cr {c : UInt8} (h : c ≠ lf) (rest : Bytes) :
    streamLines (cr :: c :: rest) =
      ([] :: (streamLines (c :: rest)).1, (streamLines (c :: rest)).2) := by
  rw [streamLines.eq_def]
  exact if_neg h

theorem streamLines_cons {b : UInt8} (hlf : b ≠ lf) (hcr : b ≠ cr) (rest : Bytes) :
    streamLines (b :: rest) = consByte b (streamLines rest) := by
  rw [streamLines.eq_def]
  dsimp only
  rw [if_neg hlf, if_neg hcr]

theorem streamLines_of_plain {body : Bytes} (h : Plain body) : streamLines body = ([], body) := by
  induction body with
  | nil => rfl
  | cons b body ih =>
    obtain ⟨⟨hlf, hcr⟩, hrest⟩ := List.forall_mem_cons.mp h
    rw [streamLines_cons hlf hcr, ih hrest, consByte_nil]

/-- A line's bytes stand in front of what its end begins. -/
theorem streamLines_append {body : Bytes} (h : Plain body) {rest tail line : Bytes}
    {lines : List Bytes} (hrest : streamLines rest = (line :: lines, tail)) :
    streamLines (body ++ rest) = ((body ++ line) :: lines, tail) := by
  induction body with
  | nil => exact hrest
  | cons b body ih =>
    obtain ⟨⟨hlf, hcr⟩, hbody⟩ := List.forall_mem_cons.mp h
    rw [List.cons_append, streamLines_cons hlf hcr, ih hbody, consByte_cons, List.cons_append]

theorem streamLines_lone {body : Bytes} (h : Plain body) :
    streamLines (body ++ [cr]) = ([], body ++ [cr]) := by
  induction body with
  | nil => rfl
  | cons b body ih =>
    obtain ⟨⟨hlf, hcr⟩, hbody⟩ := List.forall_mem_cons.mp h
    rw [List.cons_append, streamLines_cons hlf hcr, ih hbody, consByte_nil]

/-- Cutting at line ends gives the lines of the stream. -/
theorem cut_eventCutter (body : Bytes) : eventCutter.cut body = streamLines body := by
  fun_induction Cutter.cut eventCutter body with
  | case1 body h =>
    change cutLine body = none at h
    rw [cutLine] at h
    split at h
    · next hnone =>
      have hplain : Plain body := fun b hb => by
        simpa using List.findIdx?_eq_none_iff.mp hnone b hb
      rw [streamLines_of_plain hplain]
    · next pos hpos =>
      split_ifs at h with hlone
      obtain ⟨b, hsplit, hb, hget, hbefore⟩ := split_of_findIdx? hpos
      have hplain : Plain (body.take pos) := fun b hb => by simpa using hbefore b hb
      obtain rfl : b = cr := Option.some.inj (hget.symm.trans hlone.1)
      have hend : body.drop (pos + 1) = [] := List.drop_eq_nil_of_le hlone.2.ge
      rw [hend] at hsplit
      rw [hsplit, streamLines_lone hplain]
  | case2 body line rest h ih =>
    obtain ⟨pos, skip, hpos, hle, _, rfl, rfl, hlast, hskip⟩ := cutLine_eq_some h
    obtain ⟨b, hsplit, hb, hget, hbefore⟩ := split_of_findIdx? hpos
    have hplain : Plain (body.take pos) := fun b hb => by simpa using hbefore b hb
    have hend : streamLines (b :: body.drop (pos + 1)) =
        ([] :: (streamLines (body.drop (pos + skip))).1, (streamLines (body.drop (pos + skip))).2) := by
      rcases (by simpa using hb : b = lf ∨ b = cr) with rfl | rfl
      · have hnot : body[pos]? ≠ some cr := by
          rw [hget]
          decide
        rw [if_neg fun hboth => hnot hboth.1] at hskip
        rw [hskip, streamLines_lf]
      · have hlt := hlast hget
        rw [List.drop_eq_getElem_cons hlt]
        by_cases hcrlf : body[pos + 1]? = some lf
        · rw [if_pos ⟨hget, hcrlf⟩] at hskip
          rw [List.getElem?_eq_getElem hlt, Option.some.injEq] at hcrlf
          rw [hcrlf, hskip, streamLines_crlf]
        · rw [if_neg fun hboth => hcrlf hboth.2] at hskip
          rw [List.getElem?_eq_getElem hlt, Option.some.injEq] at hcrlf
          rw [streamLines_cr hcrlf, hskip, ← List.drop_eq_getElem_cons hlt]
    have hwhole := streamLines_append hplain hend
    rw [← hsplit, List.append_nil] at hwhole
    rw [hwhole, ih]

/-! ## The line framer -/

/-- The line is within the cap. -/
abbrev Fits (cap : Option Nat) (line : Bytes) : Bool := !pastCap cap line.length

/-- Draining hands out the lines up to the first one past the cap, and refuses if there is one. -/
theorem drain_lines (framer : LineFramer) :
    framer.drain.1 =
        ((lineCutter.cut framer.buffer).1.takeWhile (Fits framer.cap)).map stripCr ∧
      framer.drain.2.1 =
        ((lineCutter.cut framer.buffer).1.any fun line => pastCap framer.cap line.length) ∧
      (framer.drain.2.1 = false →
        framer.drain.2.2 = { framer with buffer := (lineCutter.cut framer.buffer).2 }) := by
  fun_induction LineFramer.drain framer with
  | case1 framer line framer' h ih =>
    rw [LineFramer.next_eq] at h
    split at h
    · cases h
    · next raw rest hnext =>
      split_ifs at h with hpast <;> cases h
      all_goals
        rw [Cutter.cut_of_some hnext]
        refine ⟨?_, ?_, fun hgo => ?_⟩
        · rw [List.takeWhile_cons, if_pos (by simpa using hpast), List.map_cons, ih.1]
          simp [stripCr, *]
        · rw [List.any_cons, ih.2.1, Bool.eq_false_iff.mpr hpast, Bool.false_or]
        · exact ih.2.2 hgo
  | case2 framer framer' h =>
    rw [LineFramer.next_eq] at h
    split at h
    · next hnext =>
      cases h
      rw [Cutter.cut_of_none hnext]
      exact ⟨rfl, rfl, fun _ => rfl⟩
    · split_ifs at h <;> cases h
  | case3 framer e framer' h =>
    rw [LineFramer.next_eq] at h
    split at h
    · cases h
    · next raw rest hnext =>
      split_ifs at h with hpast <;> cases h
      rw [Cutter.cut_of_some hnext]
      refine ⟨?_, ?_, nofun⟩
      · rw [List.takeWhile_cons, if_neg (by simpa using hpast), List.map_nil]
      · rw [List.any_cons, hpast, Bool.true_or]

/-- A longer line is past the cap too. -/
theorem pastCap_mono {cap : Option Nat} {length length' : Nat} (h : pastCap cap length = true)
    (hle : length ≤ length') : pastCap cap length' = true := by
  cases cap with
  | none => cases h
  | some cap =>
    have : cap < length := by simpa [pastCap] using h
    simpa [pastCap] using this.trans_le hle

/-- A tail past the cap is the front of a line that is past it too, ended or not. -/
theorem cut_of_past_tail {cap : Option Nat} {tail : Bytes} (h : lineCutter.next tail = none)
    (hpast : pastCap cap tail.length = true) (later : Bytes) :
    (lineCutter.cut (tail ++ later)).1.takeWhile (Fits cap) = [] ∧
      (((lineCutter.cut (tail ++ later)).1 ++ [(lineCutter.cut (tail ++ later)).2]).any fun line =>
        pastCap cap line.length) = true := by
  have hnot : lf ∉ tail := by
    have hnone := List.findIdx?_eq_none_iff.mp (Option.map_eq_none_iff.mp h)
    exact fun hmem => absurd (hnone lf hmem) (by decide)
  rw [cut_lineCutter]
  by_cases hlater : lf ∈ later
  · obtain ⟨before, after, rfl, hbefore⟩ := List.eq_append_cons_of_mem hlater
    have hline : pastCap cap (tail ++ before).length = true :=
      pastCap_mono hpast (by rw [List.length_append]; omega)
    rw [← List.append_assoc, rawLines_append (by simp [hnot, hbefore])]
    refine ⟨?_, ?_⟩
    · rw [List.takeWhile_cons, if_neg (by simpa using hline)]
    · rw [List.cons_append, List.any_cons, hline, Bool.true_or]
  · rw [rawLines_of_not_mem (by simp [hnot, hlater])]
    have hline : pastCap cap (tail ++ later).length = true :=
      pastCap_mono hpast (by rw [List.length_append]; omega)
    exact ⟨rfl, by simpa using hline⟩

/-- Lines that all fit come before the lines that are left. -/
theorem takeWhile_append_of_fits {cap : Option Nat} {lines : List Bytes}
    (h : (lines.any fun line => pastCap cap line.length) = false) (later : List Bytes) :
    (lines ++ later).takeWhile (Fits cap) = lines ++ later.takeWhile (Fits cap) := by
  refine List.takeWhile_append_of_pos fun line hmem => ?_
  simpa using List.any_eq_false.mp h line hmem

/-- A line past the cap ends the lines. -/
theorem takeWhile_append_of_past {cap : Option Nat} {lines later : List Bytes}
    (h : (lines.any fun line => pastCap cap line.length) = true) :
    (lines ++ later).takeWhile (Fits cap) = lines.takeWhile (Fits cap) := by
  induction lines with
  | nil => cases h
  | cons line lines ih =>
    rw [List.cons_append, List.takeWhile_cons, List.takeWhile_cons]
    split_ifs with hfits
    · rw [ih]
      simpa [show pastCap cap line.length = false by simpa using hfits] using h
    · rfl

theorem cappedLines_eq (cap : Option Nat) (body : Bytes) : cappedLines cap body =
    (((lineCutter.cut body).1.takeWhile (Fits cap)).map stripCr,
      ((lineCutter.cut body).1 ++ [(lineCutter.cut body).2]).any fun line =>
        pastCap cap line.length) := by
  rw [cut_lineCutter, cappedLines]

/-- Reading chunk by chunk what is left of a stream, from a tail that is within the cap. -/
theorem readLines_spec (framer : LineFramer) (chunks : List Bytes)
    (htail : lineCutter.next framer.buffer = none) (hcap : framer.overCap = false) :
    readLines framer chunks = cappedLines framer.cap (framer.buffer ++ chunks.flatten) := by
  induction chunks generalizing framer with
  | nil =>
    rw [readLines, List.flatten_nil, List.append_nil, cappedLines_eq, Cutter.cut_of_none htail]
    rw [LineFramer.overCap] at hcap
    simp [hcap]
  | cons chunk chunks ih =>
    obtain ⟨hlines, hrefused, hframer⟩ := drain_lines (framer.push chunk)
    have hbuffer : (framer.push chunk).buffer = framer.buffer ++ chunk := rfl
    have hcap' : (framer.push chunk).cap = framer.cap := rfl
    rw [hbuffer, hcap'] at hlines hrefused
    rw [hbuffer] at hframer
    rw [readLines, List.flatten_cons, ← List.append_assoc, cappedLines_eq, Cutter.cut_append]
    dsimp only
    by_cases hpast : ((lineCutter.cut (framer.buffer ++ chunk)).1.any fun line =>
        pastCap framer.cap line.length) = true
    · rw [hrefused, hpast, Bool.true_or, if_pos rfl, hlines, takeWhile_append_of_past hpast,
        List.append_assoc, List.any_append, hpast, Bool.true_or]
    · rw [Bool.not_eq_true] at hpast
      have hframer : (framer.push chunk).drain.2.2 =
          ⟨(lineCutter.cut (framer.buffer ++ chunk)).2, framer.cap⟩ := hframer (hrefused.trans hpast)
      have hnext : lineCutter.next (lineCutter.cut (framer.buffer ++ chunk)).2 = none :=
        Cutter.next_cut _
      have hall := takeWhile_append_of_fits hpast []
      rw [List.append_nil, List.takeWhile_nil, List.append_nil] at hall
      rw [hrefused, hpast, Bool.false_or, takeWhile_append_of_fits hpast, List.append_assoc,
        List.any_append, hpast, Bool.false_or, hlines, hall, hframer, List.map_append]
      split_ifs with hover
      · obtain ⟨hnone, hany⟩ := cut_of_past_tail hnext hover chunks.flatten
        rw [hnone, hany, List.map_nil, List.append_nil]
      · rw [ih _ hnext (Bool.eq_false_iff.mpr hover), cappedLines_eq]

/-- Reading a body's lines does not depend on its chunks. -/
theorem readLines_eq (cap : Option Nat) (chunks : List Bytes) :
    readLines (.new cap) chunks = cappedLines cap chunks.flatten :=
  readLines_spec (.new cap) chunks rfl (by cases cap <;> rfl)

/-! ## The event framer -/

/-- An event's type and data, as the standard names them: no `event` field is an empty type. -/
def Event.view (event : Event) : String × Bytes := (event.event.getD "", event.data)

/-- A framer without a cap, and the delay taken before, stand where the interpretation does. -/
structure Follows (stream : EventStream) (framer : EventFramer) (reconnect : Option Nat) : Prop where
  cap : framer.cap = none
  eventType : stream.eventType = framer.pending.event.getD ""
  data : stream.data = if framer.hasData then framer.pending.data ++ [lf] else []
  noData : framer.hasData = false → framer.pending.data = []
  idBuffer : stream.idBuffer = framer.id.getD ""
  lastEventId : stream.lastEventId = framer.lastId.getD ""
  reconnectionTime : stream.reconnectionTime = framer.retry.or reconnect

theorem follows_initial : Follows .initial (.new none) none := by
  constructor <;> first | rfl | exact fun _ => rfl

theorem Follows.withBuffer {stream : EventStream} {framer : EventFramer} {reconnect : Option Nat}
    (h : Follows stream framer reconnect) (buffer : Bytes) :
    Follows stream { framer with buffer } reconnect := { h with }

section
variable {fromUtf8Lossy : Bytes → String} {stream : EventStream} {framer : EventFramer}
  {reconnect : Option Nat}

/-- What a turn makes of a framer is what the same line makes of the interpretation. -/
def Agrees (stream : EventStream) (before : List (String × Bytes)) (reconnect : Option Nat) :
    Turn → Prop
  | .goOn framer => Follows stream framer reconnect ∧ stream.dispatched = before
  | .dispatched event framer =>
    Follows stream framer reconnect ∧ stream.dispatched = before ++ [event.view]
  | .overCap _ => False

theorem agrees_dispatch (h : Follows stream framer reconnect) :
    Agrees stream.dispatch stream.dispatched reconnect framer.dispatch := by
  rw [EventFramer.dispatch]
  dsimp only
  split_ifs with hdata
  · refine ⟨⟨h.cap, rfl, by simp [EventStream.dispatch], fun _ => rfl, h.idBuffer, h.idBuffer,
      h.reconnectionTime⟩, ?_⟩
    simp [EventStream.dispatch, h.data, hdata, Event.view, h.eventType]
  · refine ⟨⟨h.cap, rfl, by simp [EventStream.dispatch, hdata], fun _ => rfl, h.idBuffer, h.idBuffer,
      h.reconnectionTime⟩, ?_⟩
    simp [EventStream.dispatch, h.data, hdata]

theorem agrees_field (h : Follows stream framer reconnect) (field value : Bytes) :
    Agrees (stream.processField fromUtf8Lossy (some (2 ^ 64)) field value) stream.dispatched reconnect
      (framer.processField fromUtf8Lossy field value) := by
  rw [EventFramer.processField, EventStream.processField]
  by_cases hevent : field = fieldName "event"
  · rw [if_pos hevent, if_pos hevent]
    exact ⟨{ h with eventType := rfl }, rfl⟩
  rw [if_neg hevent, if_neg hevent]
  by_cases hdata : field = fieldName "data"
  · have hcap : ∀ length, pastCap framer.cap length = false := by simp [h.cap, pastCap]
    rw [if_pos hdata, if_pos hdata]
    dsimp only
    rw [hcap, if_neg Bool.false_ne_true]
    refine ⟨{ h with data := ?_, noData := nofun }, rfl⟩
    rw [if_pos rfl, h.data]
    by_cases hhas : framer.hasData = true
    · simp [hhas]
    · simp [hhas, h.noData (Bool.eq_false_iff.mpr hhas)]
  rw [if_neg hdata, if_neg hdata]
  by_cases hid : field = fieldName "id"
  · have hretry : field ≠ fieldName "retry" := by
      rw [hid]
      decide +kernel
    rw [if_pos hid, if_neg hretry]
    by_cases hnul : 0 ∈ value
    · rw [if_pos hnul, if_neg fun hboth => absurd hnul hboth.2]
      exact ⟨h, rfl⟩
    · rw [if_neg hnul, if_pos ⟨hid, hnul⟩]
      exact ⟨{ h with idBuffer := rfl }, rfl⟩
  have hneither : ¬(field = fieldName "id" ∧ 0 ∉ value) := fun hboth => hid hboth.1
  rw [if_neg hid, if_neg hneither]
  by_cases hretry : field = fieldName "retry"
  · rw [if_pos hretry, if_pos hretry]
    simp only [List.all_eq_true, Option.some.injEq, forall_eq']
    split_ifs
    · exact ⟨{ h with reconnectionTime := rfl }, rfl⟩
    · exact ⟨h, rfl⟩
  · rw [if_neg hretry, if_neg hretry]
    exact ⟨h, rfl⟩

/-- Splitting a line at its first colon. -/
theorem splitField_eq (line : Bytes) : splitField line =
    match line.span (· ≠ colon) with
    | (field, []) => (field, [])
    | (field, _ :: value) =>
      (field,
        match value with
        | [] => []
        | b :: rest => if b = space then rest else b :: rest) := by
  rw [List.span_eq_takeWhile_dropWhile, splitField]
  cases hfind : line.findIdx? (· = colon) with
  | none =>
    have hnone := List.findIdx?_eq_none_iff.mp hfind
    have hall : ∀ b ∈ line, decide (b ≠ colon) = true := fun b hb => by simpa using hnone b hb
    rw [List.takeWhile_eq_self_iff.2 hall, List.dropWhile_eq_nil_iff.2 hall]
  | some pos =>
    obtain ⟨b, hsplit, hb, _, hbefore⟩ := split_of_findIdx? hfind
    obtain rfl := of_decide_eq_true hb
    have hall : ∀ b ∈ line.take pos, decide (b ≠ colon) = true := fun b hb => by
      simpa using hbefore b hb
    have hfield : line.takeWhile (· ≠ colon) = line.take pos := by
      conv_lhs => rw [hsplit, List.takeWhile_append_of_pos hall]
      simp
    have hvalue : line.dropWhile (· ≠ colon) = colon :: line.drop (pos + 1) := by
      conv_lhs => rw [hsplit, List.dropWhile_append_of_pos hall]
      simp
    rw [hfield, hvalue]
    dsimp only
    cases line.drop (pos + 1) <;> simp

theorem agrees_line (h : Follows stream framer reconnect) (line : Bytes) :
    Agrees (stream.processLine fromUtf8Lossy (some (2 ^ 64)) line) stream.dispatched reconnect
      (framer.processLine fromUtf8Lossy line) := by
  cases line with
  | nil => exact agrees_dispatch h
  | cons b rest =>
    rw [EventFramer.processLine, EventStream.processLine, List.isEmpty_cons,
      if_neg Bool.false_ne_true, List.head?_cons]
    by_cases hcolon : b = colon
    · rw [if_pos hcolon, if_pos (congrArg some hcolon)]
      exact ⟨h, rfl⟩
    · rw [if_neg hcolon, if_neg fun heq => hcolon (Option.some.inj heq), splitField_eq]
      split <;> exact agrees_field h _ _

theorem drain_eq (framer : EventFramer) : framer.drain fromUtf8Lossy =
    match framer.next fromUtf8Lossy with
    | (.ok (some event), framer') =>
      (event :: (framer'.drain fromUtf8Lossy).1, (framer'.drain fromUtf8Lossy).2)
    | (.ok none, framer') => ([], false, framer')
    | (.error _, framer') => ([], true, framer') := by
  rw [EventFramer.drain]
  split <;> simp only [*]

/-- Draining does what the interpretation does with the lines that are there. The induction is on
how they are cut. -/
theorem drain_events (fromUtf8Lossy : Bytes → String) (h : Follows stream framer reconnect) :
    (framer.drain fromUtf8Lossy).2.1 = false ∧
      (framer.drain fromUtf8Lossy).2.2.buffer = (eventCutter.cut framer.buffer).2 ∧
      Follows ((eventCutter.cut framer.buffer).1.foldl
        (EventStream.processLine fromUtf8Lossy (some (2 ^ 64))) stream)
        (framer.drain fromUtf8Lossy).2.2 reconnect ∧
      ((eventCutter.cut framer.buffer).1.foldl
        (EventStream.processLine fromUtf8Lossy (some (2 ^ 64))) stream).dispatched =
          stream.dispatched ++ (framer.drain fromUtf8Lossy).1.map Event.view := by
  generalize hbuffer : framer.buffer = buffer
  fun_induction Cutter.cut eventCutter buffer generalizing framer stream with
  | case1 buffer hnext =>
    subst hbuffer
    rw [drain_eq, EventFramer.next_of_none hnext]
    exact ⟨rfl, rfl, h, by simp⟩
  | case2 buffer line rest hcut ih =>
    subst hbuffer
    have hturn : Agrees _ _ _ (EventFramer.processLine fromUtf8Lossy { framer with buffer := rest } line) :=
      agrees_line (h.withBuffer rest) line
    rw [List.foldl_cons]
    have hnext : framer.next fromUtf8Lossy = _ := EventFramer.next_of_some hcut
    cases hline : EventFramer.processLine fromUtf8Lossy { framer with buffer := rest } line with
    | goOn framer' =>
      rw [hline] at hturn hnext
      have hdrain : framer.drain fromUtf8Lossy = framer'.drain fromUtf8Lossy := by
        rw [drain_eq, hnext, ← drain_eq]
      rw [hdrain, ← hturn.2]
      exact ih hturn.1 (EventFramer.buffer_of_processLine hline)
    | dispatched event framer' =>
      rw [hline] at hturn hnext
      obtain ⟨hrefused, htail, hfollows, hevents⟩ :=
        ih hturn.1 (EventFramer.buffer_of_processLine hline)
      rw [drain_eq framer, hnext]
      refine ⟨hrefused, htail, hfollows, ?_⟩
      rw [hevents, hturn.2, List.append_assoc, List.map_cons, List.singleton_append]
    | overCap framer' =>
      rw [hline] at hturn
      exact hturn.elim

end

/-! ## Whole streams -/

/-- Reading chunk by chunk what is left of a stream does what the interpretation does with it. -/
theorem readEvents_spec (fromUtf8Lossy : Bytes → String) {stream : EventStream}
    (reader : EventReader) (chunks : List Bytes) (h : Follows stream reader.framer reader.reconnect)
    (htail : eventCutter.next reader.framer.buffer = none) (hretry : reader.framer.retry = none) :
    let (events, refused, reader') := readEvents fromUtf8Lossy reader chunks
    let whole := (eventCutter.cut (reader.framer.buffer ++ chunks.flatten)).1.foldl
      (EventStream.processLine fromUtf8Lossy (some (2 ^ 64))) stream
    refused = false ∧ whole.dispatched = stream.dispatched ++ events.map Event.view ∧
      whole.lastEventId = reader'.framer.lastId.getD "" ∧ whole.reconnectionTime = reader'.reconnect := by
  induction chunks generalizing reader stream with
  | nil =>
    rw [List.flatten_nil, List.append_nil, Cutter.cut_of_none htail]
    refine ⟨rfl, by simp, h.lastEventId, ?_⟩
    rw [List.foldl_nil, h.reconnectionTime, hretry, Option.none_or]
  | cons chunk chunks ih =>
    have hpushed : Follows stream (reader.framer.push chunk) reader.reconnect :=
      h.withBuffer (reader.framer.buffer ++ chunk)
    obtain ⟨hrefused, hbuffer, hfollows, hevents⟩ := drain_events fromUtf8Lossy hpushed
    rw [show (reader.framer.push chunk).buffer = reader.framer.buffer ++ chunk from rfl]
      at hbuffer hfollows hevents
    have hover : ((reader.framer.push chunk).drain fromUtf8Lossy).2.2.takeRetry.2.overCap = false := by
      rw [EventFramer.overCap, EventFramer.takeRetry, hfollows.cap]
      rfl
    have htaken : Follows _ ((reader.framer.push chunk).drain fromUtf8Lossy).2.2.takeRetry.2
        (((reader.framer.push chunk).drain fromUtf8Lossy).2.2.retry.or reader.reconnect) :=
      { hfollows with reconnectionTime := hfollows.reconnectionTime }
    have hbuffer' : ((reader.framer.push chunk).drain fromUtf8Lossy).2.2.takeRetry.2.buffer = _ :=
      hbuffer
    have hnext : eventCutter.next (eventCutter.cut (reader.framer.buffer ++ chunk)).2 = none :=
      Cutter.next_cut _
    have hrest := ih ⟨_, _⟩ htaken (hbuffer' ▸ hnext) rfl
    rw [hbuffer'] at hrest
    rw [readEvents, List.flatten_cons, ← List.append_assoc, Cutter.cut_append]
    dsimp only
    rw [hrefused, hover, Bool.false_or, if_neg Bool.false_ne_true, List.foldl_append]
    refine ⟨hrest.1, ?_, hrest.2.2⟩
    rw [hrest.2.1, hevents, List.map_append, List.append_assoc]
    rfl

/-- Reading an event stream does not depend on its chunks. -/
theorem readEvents_eq (fromUtf8Lossy : Bytes → String) (chunks : List Bytes) :
    let (events, refused, reader) := readEvents fromUtf8Lossy ⟨.new none, none⟩ chunks
    let whole := (streamLines chunks.flatten).1.foldl
      (EventStream.processLine fromUtf8Lossy (some (2 ^ 64))) .initial
    refused = false ∧ whole.dispatched = events.map Event.view ∧
      whole.lastEventId = reader.framer.lastId.getD "" ∧ whole.reconnectionTime = reader.reconnect := by
  have hspec := readEvents_spec fromUtf8Lossy ⟨.new none, none⟩ chunks
    follows_initial rfl rfl
  rw [cut_eventCutter] at hspec
  exact hspec

/-- Framing does not depend on chunking. An event framer without a cap dispatches the events of the
interpreted stream, and ends with its last event ID and reconnection time, where the stream does not
begin with a byte order mark and reconnection times past 64 bits are ignored. A line framer with any
cap gives the lines up to the first one longer than the cap, and refuses exactly when there is one. -/
theorem framing_eq_whole (fromUtf8Lossy : Bytes → String) (chunks : List Bytes) :
    (¬bom <+: chunks.flatten →
      let read := readEvents fromUtf8Lossy ⟨.new none, none⟩ chunks
      let stream := eventStream fromUtf8Lossy (some (2 ^ 64)) chunks.flatten
      read.2.1 = false ∧ read.1.map Event.view = stream.dispatched ∧
        read.2.2.framer.lastId.getD "" = stream.lastEventId ∧
        read.2.2.reconnect = stream.reconnectionTime) ∧
    ∀ cap, readLines (.new cap) chunks = cappedLines cap chunks.flatten := by
  refine ⟨fun hbom => ?_, fun cap => readLines_eq cap chunks⟩
  obtain ⟨hrefused, hevents, hid, htime⟩ := readEvents_eq fromUtf8Lossy chunks
  rw [eventStream, stripBom, if_neg hbom]
  exact ⟨hrefused, hevents.symm, hid.symm, htime.symm⟩

namespace Sample

/-- How ASCII is read as text. -/
def ascii (bytes : Bytes) : String := String.ofList (bytes.map fun b => Char.ofNat b.toNat)

/-- An event whose line ends are cut. -/
def cutEvent : List Bytes := [fieldName "data: x" ++ [cr], [lf, cr], [lf]]

theorem cutEvent_read :
    (readEvents ascii ⟨.new none, none⟩ cutEvent).1.map Event.view = [("", fieldName "x")] ∧
      readLines (.new (some 8)) cutEvent = ([fieldName "data: x", []], false) := by
  have h := framing_eq_whole ascii cutEvent
  exact ⟨(h.1 (by decide +kernel)).2.1.trans (by decide +kernel),
    (h.2 (some 8)).trans (by decide +kernel)⟩

/-- A reconnection time that does not fit in 64 bits. -/
def longRetry : Bytes := fieldName "retry: 18446744073709551616" ++ [lf]

/-- An event after a byte order mark. -/
def marked : Bytes := bom ++ fieldName "data: x" ++ [lf, lf]

/-- The standard sets the long time and dispatches the marked event; the framer does neither. -/
theorem framer_differs :
    (eventStream ascii none longRetry).reconnectionTime = some (2 ^ 64) ∧
      (readEvents ascii ⟨.new none, none⟩ [longRetry]).2.2.reconnect = none ∧
      (eventStream ascii none marked).dispatched = [("", fieldName "x")] ∧
      (readEvents ascii ⟨.new none, none⟩ [marked]).1 = [] := by
  refine ⟨by decide +kernel, ?_, by decide +kernel, ?_⟩
  · exact (readEvents_eq ascii [longRetry]).2.2.2.symm.trans (by decide +kernel)
  · have hnone := (readEvents_eq ascii [marked]).2.1.symm.trans
      (by decide +kernel : _ = ([] : List (String × Bytes)))
    exact List.map_eq_nil_iff.mp hnone

end Sample

end Saci.Http
