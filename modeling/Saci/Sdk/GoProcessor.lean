import Saci.Sdk.GoBounds
import Saci.Library.Run

/-!
# A processor never traps

On any bytes and in any order, the calls of the Go codec return a value or an `Error`, touch nothing
outside the segment they are about, and leave the bytes alone where they refuse a write, but for one
thing: what follows a Schema message whose body ends past the largest `int` is looked for before the
stream, and that traps.
-/

namespace Saci.GoSdk

open Traced

/-! ## Parsing -/

theorem segmentsFrom_sound {buf : Bytes} (hlength : buf.length ≤ maxAlloc) (fuel : Nat) {pos : Int}
    (hpos : 0 ≤ pos) (hle : pos ≤ buf.length) (hfuel : buf.length - pos < fuel) :
    Sound (Inside 0 buf.length) (segmentsFrom buf fuel pos) fun r =>
      ∀ seg ∈ r.1, Window buf seg.start seg.stop := by
  have w : Window buf 0 buf.length := ⟨le_rfl, by omega, le_rfl, hlength⟩
  have hmax := w.hi_le
  induction fuel generalizing pos with
  | zero => omega
  | succ fuel ih =>
    unfold segmentsFrom
    rw [int_eq (n := pos + 4) (by omega) (by omega)]
    refine (Sound.refuseIf _).bind fun _ hroom => ?_
    refine (uint32At_sound w hpos (by omega)).bind fun segLen hlen => ?_
    dsimp only
    split_ifs with hzero
    · exact .ret nofun
    · rw [int_eq (n := pos + 4 + segLen) (by omega) (by omega)]
      refine (Sound.refuseIf _).bind fun _ hin => ?_
      refine (ih (by omega) (by omega) (by omega)).bind fun (segments, last) hsegments => .ret ?_
      refine List.forall_mem_cons.mpr ⟨⟨?_, ?_, ?_, hlength⟩, hsegments⟩
      · dsimp only; omega
      · dsimp only; omega
      · dsimp only; omega

theorem parse_sound (input : Input) :
    Sound (Inside 0 input.val.length) (parse input) fun s =>
      ∀ seg ∈ s.segments, Window s.buf seg.start seg.stop := by
  refine (segmentsFrom_sound input.property _ le_rfl (by omega) (by omega)).bind
    fun (segments, pos) hsegments => ?_
  exact (Sound.refuseIf _).bind fun _ _ => (Sound.refuseIf _).bind fun _ _ => .ret hsegments

/-! ## Calls -/

/-- The access is on behalf of a segment of the stream, and lies in it. -/
def Owned (segments : List Segment) (a : Segment × Access) : Prop :=
  a.1 ∈ segments ∧ Inside a.1.start a.1.stop a.2

section
variable {buf name : Bytes} {segments : List Segment} {seg : Segment} {i : Nat} {α : Type}

theorem inSegment_sound {x : Go α} {P : α → Prop} (hmem : seg ∈ segments)
    (h : Sound (Inside seg.start seg.stop) x P) : Sound (Owned segments) (inSegment seg x) P :=
  h.relabel fun _ hin => ⟨hmem, hin⟩

theorem components_sound {s : Stream} (h : ∀ seg ∈ s.segments, Window s.buf seg.start seg.stop) :
    Sound (Owned s.segments) (components s) fun _ => True := by
  refine (Sound.forEach (R := fun _ => True) fun (seg, i) hmem => ?_).mono fun _ _ => trivial
  have hseg := List.fst_mem_of_mem_zipIdx hmem
  exact (inSegment_sound hseg (schemaOf_sound (h seg hseg) i)).bind fun _ _ => .ret trivial

theorem segmentOf_sound {entries : List (Segment × Nat)}
    (h : ∀ q ∈ entries, q.1 ∈ segments ∧ Window buf q.1.start q.1.stop) :
    Sound (Owned segments) (segmentOf buf name entries) fun r =>
      (r.1 ∈ segments ∧ Window buf r.1.start r.1.stop) ∧ r.2.2.Fits buf r.1.start r.1.stop := by
  induction entries with
  | nil => exact .refuse _
  | cons q entries ih =>
    obtain ⟨⟨hmem, w⟩, hrest⟩ := List.forall_mem_cons.mp h
    refine (inSegment_sound hmem (schemaOf_sound w q.2)).bind fun sc hsc => ?_
    split_ifs
    · exact ih hrest
    · exact .ret ⟨⟨hmem, w⟩, hsc⟩

end

/-- Where a processor stands: its segments are in the stream's bytes, and its batches in segments. -/
structure Processor.Fits (p : Processor) : Prop where
  segments : ∀ seg ∈ p.stream.segments, Window p.stream.buf seg.start seg.stop
  batches : ∀ q ∈ p.batches, q.1 ∈ p.stream.segments ∧ q.2.Fits q.1.start q.1.stop

/-- What a call returns keeps a processor where it may stand. -/
def Value.Fits (p : Processor) : Value → Prop
  | .batch seg b => seg ∈ p.stream.segments ∧ b.Fits seg.start seg.stop
  | .written buf => buf.length = p.stream.buf.length
  | _ => True

/-- The call does not get past a Schema message whose body ends past the largest `int`: `Component`
gets past that of its segment where the schema's fields can be read, and `RawSegments` past each one
up to the first segment that is refused. -/
def Regular (p : Processor) : Call → Prop
  | .component name => ∀ seg i sc fields,
    (segmentOf p.stream.buf name p.stream.segments.zipIdx).result = .ok (seg, i, sc) →
      (schemaFieldsOf sc.header).result = .ok fields → ¬sc.msg.Overruns
  | .rawSegments => ∀ before seg i after sc, p.stream.segments.zipIdx = before ++ (seg, i) :: after →
    (∀ q ∈ before, ∃ r, (rawSegment p.stream.buf q.1 q.2).result = .ok r) →
      (schemaOf p.stream.buf i seg).result = .ok sc → ¬sc.msg.Overruns
  | _ => True

/-- A call answers with a value or an `Error`, touches nothing outside the segment it is about, and
leaves the bytes alone where it refuses. -/
structure Answer.Safe (o : Answer) : Prop where
  runs : o.outcome.result ≠ .error .trap
  inside : ∀ a ∈ o.outcome.touched, Owned o.segments a
  unchanged : ∀ e, o.outcome.result = .error (.refused e) → o.after = o.before

section
variable {p p' : Processor} {c : Call} {o : Answer}

theorem zipIdx_fits (h : p.Fits) : ∀ q ∈ p.stream.segments.zipIdx,
    q.1 ∈ p.stream.segments ∧ Window p.stream.buf q.1.start q.1.stop := fun _ hq =>
  have hmem := List.fst_mem_of_mem_zipIdx hq
  ⟨hmem, h.segments _ hmem⟩

theorem component_sound (h : p.Fits) {name : Bytes} (hregular : Regular p (.component name)) :
    Sound (Owned p.stream.segments) (component p.stream name) fun r =>
      r.1 ∈ p.stream.segments ∧ r.2.Fits r.1.start r.1.stop := by
  refine (segmentOf_sound (zipIdx_fits h)).self.bind fun (seg, i, sc) ⟨⟨⟨hmem, w⟩, hsc⟩, hresult⟩ => ?_
  have hbatch := batch_sound w hsc fun fields hfields => hregular seg i sc fields hresult hfields
  exact (inSegment_sound hmem hbatch.mapError).bind fun b hb => .ret ⟨hmem, hb⟩

theorem rawSegments_sound (h : p.Fits) (hregular : Regular p .rawSegments) :
    Sound (Owned p.stream.segments) (rawSegments p.stream) fun _ => True := by
  refine (Sound.forEach_of_before (R := fun _ => True) fun before (seg, i) after heq hbefore => ?_).mono
    fun _ _ => trivial
  have hmem : (seg, i) ∈ p.stream.segments.zipIdx := by simp [heq]
  obtain ⟨hseg, w⟩ := zipIdx_fits h _ hmem
  refine inSegment_sound hseg ?_
  refine (schemaOf_sound w i).self.bind fun sc ⟨hsc, hresult⟩ => ?_
  have hfits := hregular before seg i after sc heq hbefore hresult
  refine (segmentRows_sound w hsc hfits).mapError.bind fun rows _ => ?_
  exact (slice_sound w le_rfl w.le le_rfl).bind fun _ _ => .ret trivial

theorem onBatch_sound {α : Type} (h : p.Fits) {i : Nat} {f : Batch → Bytes → Go α} {value : α → Value}
    {P : α → Prop} (hf : ∀ (seg : Segment) (b : Batch), Window p.stream.buf seg.start seg.stop →
      b.Fits seg.start seg.stop → Sound (Inside seg.start seg.stop) (f b p.stream.buf) P)
    (hvalue : ∀ a, P a → (value a).Fits p) :
    Sound (Owned p.stream.segments) (onBatch p i f value) fun found => ∀ v ∈ found, v.Fits p := by
  unfold onBatch
  cases hget : p.batches[i]? with
  | none => exact .ret nofun
  | some q =>
    obtain ⟨hmem, hfits⟩ := h.batches q (List.mem_of_getElem? hget)
    refine inSegment_sound hmem ((hf q.1 q.2 (h.segments _ hmem) hfits).bind fun a ha => .ret ?_)
    rintro v hv
    cases hv
    exact hvalue a ha

/-- A call on regular messages. -/
theorem call_sound (h : p.Fits) (hregular : Regular p c) :
    Sound (Owned p.stream.segments) (call p c) fun found => ∀ v ∈ found, v.Fits p := by
  unfold call
  cases c with
  | components =>
    refine (components_sound h.segments).bind fun names _ => .ret ?_
    rintro v hv
    cases hv
    trivial
  | component name =>
    refine (component_sound h hregular).bind fun (seg, b) hb => .ret ?_
    rintro v hv
    cases hv
    exact hb
  | rawSegments =>
    refine (rawSegments_sound h hregular).bind fun names _ => .ret ?_
    rintro v hv
    cases hv
    trivial
  | fieldIndex i name =>
    refine onBatch_sound h (P := fun _ => True) (fun _ b _ hb => ?_) ?_
    · exact (hb.fieldNamed name).bind fun _ _ => .ret trivial
    · exact fun _ _ => trivial
  | int64s i name =>
    exact onBatch_sound h (fun _ _ w hb => hb.int64s w name) fun _ _ => trivial
  | float64s i name =>
    exact onBatch_sound h (fun _ _ w hb => hb.float64s w name) fun _ _ => trivial
  | bools i name =>
    exact onBatch_sound h (fun _ _ w hb => hb.bools w name) fun _ _ => trivial
  | strings i name =>
    exact onBatch_sound h (fun _ _ w hb => hb.strings w name) fun _ _ => trivial
  | setInt64 i name row v =>
    exact onBatch_sound h (fun _ _ w hb => hb.setUint64 w name typeInt row v) fun _ ha => ha
  | setFloat64 i name row v =>
    exact onBatch_sound h (fun _ _ w hb => hb.setUint64 w name typeFloat row v) fun _ ha => ha
  | setBool i name row v =>
    exact onBatch_sound h (fun _ _ w hb => hb.setBool w name row v) fun _ ha => ha

/-! ## What follows a message that is not regular -/

theorem component_trap (h : p.Fits) {name : Bytes} {seg : Segment} {i : Nat} {sc : SegmentSchema}
    {fields : List Field}
    (hseg : (segmentOf p.stream.buf name p.stream.segments.zipIdx).result = .ok (seg, i, sc))
    (hfields : (schemaFieldsOf sc.header).result = .ok fields) (hover : sc.msg.Overruns) :
    (component p.stream name).result = .error .trap := by
  obtain ⟨⟨-, w⟩, hsc⟩ := (segmentOf_sound (zipIdx_fits h)).returns _ hseg
  have hmessage := following_trap hsc.msg w hover
  have hbatch : (batch p.stream.buf seg sc).result = .error .trap := by
    unfold batch
    rw [result_bind_of_ok hfields]
    exact result_bind_of_error (result_bind_of_error hmessage)
  unfold component
  rw [result_bind_of_ok hseg]
  exact result_bind_of_error (result_mapError_of_trap hbatch)

theorem rawSegment_trap {buf : Bytes} {seg : Segment} (w : Window buf seg.start seg.stop) {i : Nat}
    {sc : SegmentSchema} (hsc : (schemaOf buf i seg).result = .ok sc) (hover : sc.msg.Overruns) :
    (rawSegment buf seg i).result = .error .trap := by
  have hfits := (schemaOf_sound w i).returns sc hsc
  have hrows : (segmentRows buf seg sc).result = .error .trap :=
    result_bind_of_error (following_trap hfits.msg w hover)
  unfold rawSegment
  rw [result_bind_of_ok hsc]
  exact result_bind_of_error (result_mapError_of_trap hrows)

theorem call_trap (h : p.Fits) (hirregular : ¬Regular p c) : (call p c).result = .error .trap := by
  cases c with
  | component name =>
    unfold Regular at hirregular
    push Not at hirregular
    obtain ⟨seg, i, sc, fields, hseg, hfields, hover⟩ := hirregular
    exact result_bind_of_error (component_trap h hseg hfields hover)
  | rawSegments =>
    unfold Regular at hirregular
    push Not at hirregular
    obtain ⟨before, seg, i, after, sc, heq, hbefore, hsc, hover⟩ := hirregular
    have hmem : (seg, i) ∈ p.stream.segments.zipIdx := by simp [heq]
    refine result_bind_of_error ?_
    unfold rawSegments
    rw [heq]
    exact result_forEach_of_trap hbefore (rawSegment_trap (zipIdx_fits h _ hmem).2 hsc hover)
  | _ => exact absurd trivial hirregular

/-! ## Runs -/

theorem after_fits (h : p.Fits) {v : Value} (hv : v.Fits p) : (p.after v).Fits := by
  cases v with
  | batch seg b =>
    refine ⟨h.segments, fun q hq => ?_⟩
    rcases List.mem_append.mp hq with hq | hq
    · exact h.batches q hq
    · rw [List.mem_singleton.mp hq]
      exact hv
  | written buf =>
    have hlength : buf.length = p.stream.buf.length := hv
    refine ⟨fun seg hseg => ?_, h.batches⟩
    have w := h.segments seg hseg
    have hle := w.le_length
    rw [← hlength] at hle
    exact ⟨w.nonneg, w.le, hle, hlength.trans_le w.length_le⟩
  | _ => exact h

/-- A step is safe exactly where the call does not get past an irregular message. -/
theorem step_spec (h : p.Fits) (c : Call) :
    ∃ p' o, step p c = .ok (p', o) ∧ p'.Fits ∧ (o.Safe ↔ Regular p c) := by
  refine ⟨_, _, rfl, ?_, ?_⟩
  · split
    · next value hresult =>
      by_cases hregular : Regular p c
      · exact after_fits h ((call_sound h hregular).returns _ hresult value rfl)
      · cases (call_trap h hregular).symm.trans hresult
    · exact h
  · constructor
    · intro hsafe
      by_contra hirregular
      exact hsafe.runs (call_trap h hirregular)
    · intro hregular
      have hsound := call_sound h hregular
      refine ⟨hsound.runs, hsound.touched, fun e he => ?_⟩
      dsimp only at he ⊢
      rw [he]

theorem opened_fits {input : Input} {stream : Stream} (h : (parse input).result = .ok stream) :
    (opened stream).Fits where
  segments := (parse_sound input).returns stream h
  batches := nofun

/-- `Parse` never traps, and the calls on what it returns are safe exactly as long as they do not get
past an irregular message. -/
theorem safe_iff_regular (input : Input) :
    Sound (Inside 0 input.val.length) (parse input) (fun _ => True) ∧
      ∀ stream, (parse input).result = .ok stream → ∀ calls,
        (∀ p answers, run step (opened stream) calls = .ok (p, answers) → ∀ o ∈ answers, o.Safe) ↔
          EachStep step Regular (opened stream) calls := by
  refine ⟨(parse_sound input).mono fun _ _ => trivial, fun stream hstream calls => ?_⟩
  exact eachStep_iff_outputs (fun p c h => step_spec h c) (opened_fits hstream)

end

namespace Sample

/-- A Schema message without fields for the component "a", which declares a body of that length. -/
def schemaMessage (bodyLength : Nat) : Bytes :=
  let u16 := leBytes 2
  let u32 := leBytes 4
  u32 0xFFFFFFFF ++ u32 128 ++
  -- The root, and the Message with its vtable.
  u32 16 ++ u16 12 ++ u16 24 ++ u16 0 ++ u16 4 ++ u16 8 ++ u16 16 ++
  u32 12 ++ u32 1 ++ u32 28 ++ u32 0 ++ leBytes 8 bodyLength ++
  -- The Schema with its vtable, its fields and its metadata.
  u16 10 ++ u16 12 ++ u16 0 ++ u16 4 ++ u16 8 ++ u16 0 ++ u32 12 ++ u32 8 ++ u32 8 ++
  u32 0 ++ u32 1 ++ u32 12 ++
  -- The label.
  u16 8 ++ u16 12 ++ u16 4 ++ u16 8 ++ u32 8 ++ u32 8 ++ u32 24 ++
  u32 16 ++ componentKey ++ u32 1 ++ [0x61] ++ List.replicate 7 0

/-- A stream of that message, whose body is to end past the largest `int`. -/
def wrapped : Input :=
  ⟨leBytes 4 136 ++ schemaMessage (2 ^ 63 - 1) ++ leBytes 4 0, by decide +kernel⟩

/-- The first call on a stream traps. -/
def trapsOn (input : Input) (c : Call) : Bool :=
  match (parse input).result with
  | .ok stream =>
    match (call (opened stream) c).result with
    | .error .trap => true
    | _ => false
  | _ => false

/-- `Parse` takes the stream, and a call for its component traps. -/
theorem wrapped_traps :
    ∃ stream p answers, (parse wrapped).result = .ok stream ∧
      run step (opened stream) [.component [0x61]] = .ok (p, answers) ∧ ¬∀ o ∈ answers, o.Safe := by
  have htraps : trapsOn wrapped (.component [0x61]) = true := by decide +kernel
  unfold trapsOn at htraps
  split at htraps
  · next stream hstream =>
    refine ⟨stream, _, _, hstream, rfl, fun h => ?_⟩
    split at htraps
    · next htrap => exact (h _ (List.mem_singleton_self _)).runs htrap
    · cases htraps
  · cases htraps

end Sample
end Saci.GoSdk
