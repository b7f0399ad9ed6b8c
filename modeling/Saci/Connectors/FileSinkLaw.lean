import Saci.Connectors.FileSink
import Mathlib.Data.List.Infix

/-!
# A batch lands in the file once or not at all

The file of a sink is what was there, what other writers append, and what one writer makes of the batches
that were accepted, after every call that leaves nothing pending. This holds of the formats that hold
nothing back, as long as no writer fails to reopen once bytes were cut away, and nobody appends between a
measure and its cut: the counter of bytes goes on over a cut, and the file does not.
-/

namespace Saci.File

/-! ## Whose bytes -/

/-- The sink's own bytes. -/
def ownBytes (file : List Octet) : Bytes := file.filterMap Octet.own?

def otherBytes (file : List Octet) : Bytes := file.filterMap Octet.other?

@[simp] theorem ownBytes_append (file more : List Octet) :
    ownBytes (file ++ more) = ownBytes file ++ ownBytes more := List.filterMap_append

@[simp] theorem otherBytes_append (file more : List Octet) :
    otherBytes (file ++ more) = otherBytes file ++ otherBytes more := List.filterMap_append

@[simp] theorem ownBytes_own (bytes : Bytes) : ownBytes (bytes.map .own) = bytes := by
  rw [ownBytes, List.filterMap_map]
  exact List.filterMap_some

@[simp] theorem ownBytes_other (bytes : Bytes) : ownBytes (bytes.map .other) = [] := by
  rw [ownBytes, List.filterMap_map]
  exact List.filterMap_eq_nil_iff.mpr fun _ _ => rfl

@[simp] theorem otherBytes_other (bytes : Bytes) : otherBytes (bytes.map .other) = bytes := by
  rw [otherBytes, List.filterMap_map]
  exact List.filterMap_some

@[simp] theorem otherBytes_own (bytes : Bytes) : otherBytes (bytes.map .own) = [] := by
  rw [otherBytes, List.filterMap_map]
  exact List.filterMap_eq_nil_iff.mpr fun _ _ => rfl

theorem length_ownBytes_add (file : List Octet) :
    (ownBytes file).length + (otherBytes file).length = file.length := by
  induction file with
  | nil => rfl
  | cons octet file ih =>
    cases octet with
    | own byte =>
      have hown : (ownBytes (.own byte :: file)).length = (ownBytes file).length + 1 := rfl
      have hother : otherBytes (.own byte :: file) = otherBytes file := rfl
      rw [hown, hother, List.length_cons]
      omega
    | other byte =>
      have hown : ownBytes (.other byte :: file) = ownBytes file := rfl
      have hother : (otherBytes (.other byte :: file)).length = (otherBytes file).length + 1 := rfl
      rw [hown, hother, List.length_cons]
      omega

/-- The file has grown by these bytes of the sink, and by what others have put in between. -/
structure Grown (world world' : World) (bytes : Bytes) : Prop where
  file : ∃ tail, world'.file = world.file ++ tail ∧ ownBytes tail = bytes ∧
    world'.others = world.others ++ otherBytes tail
  start : world'.start = world.start

theorem grown_append (world : World) (bytes : Bytes) : Grown world (world.append bytes) [] :=
  ⟨⟨bytes.map .other, rfl, ownBytes_other bytes, by rw [otherBytes_other]; rfl⟩, rfl⟩

theorem Grown.trans {world world' world'' : World} {bytes more : Bytes} (h : Grown world world' bytes)
    (h' : Grown world' world'' more) : Grown world world'' (bytes ++ more) := by
  obtain ⟨tail, hfile, hown, hothers⟩ := h.file
  obtain ⟨tail', hfile', hown', hothers'⟩ := h'.file
  refine ⟨⟨tail ++ tail', ?_, ?_, ?_⟩, h'.start.trans h.start⟩
  · rw [hfile', hfile, List.append_assoc]
  · rw [ownBytes_append, hown, hown']
  · rw [hothers', hothers, otherBytes_append, List.append_assoc]

theorem grown_put (world : World) (bytes : Bytes) : Grown world (world.put bytes) bytes :=
  ⟨⟨bytes.map .own, rfl, ownBytes_own bytes, by rw [otherBytes_own, List.append_nil]; rfl⟩, rfl⟩

/-- The writes of the sink are all in the file, in order, however others append between them. -/
theorem grown_weave (world : World) (others : List (Nat × Bytes)) (bytes : Bytes) :
    Grown world (world.weave others bytes) bytes := by
  induction others generalizing world bytes with
  | nil => exact grown_put world bytes
  | cons entry others ih =>
    obtain ⟨n, between⟩ := entry
    have hfirst := (grown_put world (bytes.take n)).trans (grown_append _ between)
    have hall := hfirst.trans (ih ((world.put (bytes.take n)).append between) (bytes.drop n))
    rw [List.append_nil, List.take_append_drop] at hall
    exact hall

/-! ## What a writer makes of the batches -/

/-- A new writer of a restartable format goes on where the old one was. -/
structure Transformer.Resumes (transformer : Transformer) : Prop where
  preamble : transformer.restartable = true → transformer.preamble = []
  body : transformer.restartable = true →
    ∀ written batch, transformer.body written batch = transformer.body [] batch

/-- A format that holds nothing back: a batch is in the file once the writer has flushed it. -/
def Transformer.Releases (transformer : Transformer) : Prop :=
  ∀ written batch, transformer.flushed written batch = transformer.encoded written batch

variable {transformer : Transformer}

theorem Transformer.content_append (written batches more : List RecordBatch) :
    transformer.content written (batches ++ more) =
      transformer.content written batches ++ transformer.content (written ++ batches) more := by
  induction batches generalizing written with
  | nil =>
    rw [List.nil_append, List.append_nil]
    rfl
  | cons batch batches ih =>
    rw [List.cons_append, content, content, ih, List.append_assoc, List.append_assoc, List.singleton_append]

theorem Transformer.content_concat (batches : List RecordBatch) (batch : RecordBatch) :
    transformer.content [] (batches ++ [batch]) =
      transformer.content [] batches ++ transformer.encoded batches batch := by
  rw [content_append, List.nil_append, content, content, List.append_nil]

/-- The bytes of a batch do not depend on which writer of the sink writes it. -/
theorem Transformer.Resumes.encoded_eq (h : transformer.Resumes) {written accepted : List RecordBatch}
    (hwriter : written = accepted ∨ transformer.restartable = true) (batch : RecordBatch) :
    transformer.encoded written batch = transformer.encoded accepted batch := by
  rcases hwriter with rfl | hrestartable
  · rfl
  · rw [encoded, encoded, h.preamble hrestartable, h.body hrestartable written, h.body hrestartable accepted]
    split_ifs <;> rfl

/-! ## Where a sink stands -/

namespace FileSink

variable {sink : FileSink} {world : World} {accepted : List RecordBatch} {initial : Bytes}

/-- The bytes of the others are all there, in the order they came. -/
structure Intact (initial : Bytes) (world : World) : Prop where
  initial : initial.map Octet.other <+: world.file
  others : otherBytes world.file = world.others

theorem Intact.grown {world' : World} {bytes : Bytes} (h : Intact initial world)
    (hgrown : Grown world world' bytes) : Intact initial world' := by
  obtain ⟨tail, hfile, -, hothers⟩ := hgrown.file
  refine ⟨?_, ?_⟩
  · rw [hfile]
    exact h.initial.trans (List.prefix_append _ _)
  · rw [hfile, hothers, otherBytes_append, h.others]

/-- A sink ready for a batch. -/
structure Idle (transformer : Transformer) (sink : FileSink) (world : World) (accepted : List RecordBatch) :
    Prop where
  pending : sink.pending = none
  refused : sink.refused = none
  handles : sink.handles = true
  committed : sink.committed = !accepted.isEmpty
  writer : ∃ written, sink.writer = some written ∧ (written = accepted ∨ transformer.restartable = true)
  base : sink.committed = false → sink.written = sink.writerBase
  own : ownBytes world.file = transformer.content [] accepted

/-- A sink with a batch that started and was not settled. -/
structure Started (transformer : Transformer) (initial : Bytes) (sink : FileSink) (world : World)
    (accepted : List RecordBatch) (p : Pending) : Prop where
  pending : sink.pending = some p
  refused : sink.refused = none
  handles : sink.handles = true
  committed : sink.committed = !accepted.isEmpty
  start : world.start = p.len
  kept : initial.length ≤ p.len
  le : p.len ≤ world.file.length
  own : ownBytes (world.file.take p.len) = transformer.content [] accepted
  counted : p.written + (ownBytes (world.file.drop p.len)).length = sink.written
  planned : ∀ plan, p.plan = some plan → plan = ⟨p.len, !sink.committed || transformer.restartable⟩
  unplanned : p.plan = none → sink.writer.isSome ∧ (sink.committed = false → p.written = sink.writerBase)

/-- Another writer has appended since the batch that started last. -/
def Intruded (world : World) : Prop := otherBytes (world.file.drop world.start) ≠ []

/-- Why a sink has come to refuse, and what is in its file. -/
inductive RefusedFor (transformer : Transformer) (sink : FileSink) (world : World) (accepted : List RecordBatch)
    (failedFinishes : List SaciError) : Refusal → Prop
  /-- A batch that failed is still there, with what another writer has appended during it. -/
  | appended (rest : Bytes) (intruded : Intruded world)
      (own : ownBytes world.file = transformer.content [] accepted ++ rest) :
      RefusedFor transformer sink world accepted failedFinishes .appended
  | cannotResume (committed : sink.committed = true) (fixed : transformer.restartable = false)
      (own : ownBytes world.file = transformer.content [] accepted) :
      RefusedFor transformer sink world accepted failedFinishes (.cannotResume transformer.format)
  | finishFailed {e : SaciError} (rest : Bytes) (failed : e ∈ failedFinishes)
      (own : ownBytes world.file = transformer.content [] accepted ++ rest) :
      RefusedFor transformer sink world accepted failedFinishes (.finishFailed e)

/-- Where a sink stands after any calls. -/
inductive Status (transformer : Transformer) (initial : Bytes) (sink : FileSink) (world : World)
    (accepted : List RecordBatch) (failedFinishes : List SaciError) : Prop
  | idle (idle : Idle transformer sink world accepted)
  | started (p : Pending) (started : Started transformer initial sink world accepted p)
  | refused (why : Refusal) (pending : sink.pending = none) (handles : sink.handles = true)
      (refused : sink.refused = some why) (reason : RefusedFor transformer sink world accepted failedFinishes why)
  | finished (pending : sink.pending = none) (refused : sink.refused = none) (handles : sink.handles = false)
      (written : List RecordBatch)
      (own : ownBytes world.file = transformer.content [] accepted ++ transformer.finished written)

variable {p : Pending} {recovery : Recovery} {failedFinishes : List SaciError}

theorem Started.append (h : Started transformer initial sink world accepted p) {world' : World}
    (hgrown : Grown world world' []) : Started transformer initial sink world' accepted p := by
  obtain ⟨tail, hfile, hown, -⟩ := hgrown.file
  refine { h with
    start := hgrown.start.trans h.start
    le := ?_
    own := ?_
    counted := ?_ }
  · rw [hfile, List.length_append]
    exact h.le.trans (Nat.le_add_right _ _)
  · rw [hfile, List.take_append_of_le_length h.le]
    exact h.own
  · rw [hfile, List.drop_append_of_le_length h.le, ownBytes_append, hown, List.append_nil]
    exact h.counted

/-- What recovery does for a batch is fixed by whether one has landed, and by the format. -/
theorem Started.plan_eq (h : Started transformer initial sink world accepted p) :
    p.plan.getD (plan transformer sink p) = ⟨p.len, !sink.committed || transformer.restartable⟩ := by
  cases hplan : p.plan with
  | some plan => exact h.planned plan hplan
  | none =>
    obtain ⟨hwriter, hbase⟩ := h.unplanned hplan
    rw [Option.getD_none, plan]
    cases hcommitted : sink.committed with
    | true => rw [if_pos rfl, hwriter, Bool.true_and, Bool.not_true, Bool.false_or]
    | false => rw [if_neg Bool.false_ne_true, hbase hcommitted, decide_eq_true rfl, Bool.not_false, Bool.true_or]

/-- What the buffer of the writer holds, where there is a writer. -/
def buffer (sink : FileSink) (buffered : Bytes) : Bytes := if sink.writer.isSome then buffered else []

theorem Started.dropWriter (h : Started transformer initial sink world accepted p) (buffered : Bytes) :
    ∃ sink' world', dropWriter transformer sink world p buffered =
        (⟨p.len, !sink.committed || transformer.restartable⟩, sink', world') ∧
      Started transformer initial sink' world' accepted
        { p with plan := some ⟨p.len, !sink.committed || transformer.restartable⟩ } ∧
      Grown world world' (sink.buffer buffered) ∧
      sink'.written = sink.written + (sink.buffer buffered).length ∧ sink'.committed = sink.committed := by
  rw [FileSink.dropWriter, h.plan_eq]
  dsimp only
  rw [buffer]
  cases hwriter : sink.writer with
  | none =>
    have hsame : Grown world world [] := ⟨⟨[], (List.append_nil _).symm, rfl, (List.append_nil _).symm⟩, rfl⟩
    refine ⟨_, _, rfl, ?_, hsame, rfl, rfl⟩
    refine { h with
      pending := rfl
      planned := fun plan hplan => ?_
      unplanned := fun hplan => nomatch hplan }
    exact (Option.some.inj hplan).symm
  | some written =>
    refine ⟨_, _, rfl, ?_, grown_put world buffered, rfl, rfl⟩
    refine { h with
      pending := rfl
      le := ?_
      own := ?_
      counted := ?_
      planned := fun plan hplan => (Option.some.inj hplan).symm
      unplanned := fun hplan => nomatch hplan }
    · rw [World.put, List.length_append]
      exact h.le.trans (Nat.le_add_right _ _)
    · rw [World.put, List.take_append_of_le_length h.le]
      exact h.own
    · rw [World.put, List.drop_append_of_le_length h.le, ownBytes_append, ownBytes_own, List.length_append,
        ← Nat.add_assoc, h.counted]

/-- What recovery is spared: others appending between the measure and a cut, and a writer that fails to
open where bytes of the batch were cut away. -/
structure Recovery.Spared (recovery : Recovery) (sink : FileSink) : Prop where
  late : recovery.late ≠ [] → recovery.cut ≠ .ok ()
  reopened : ∀ p, sink.pending = some p → recovery.cloned = .ok () ∧ recovery.opened = .ok () ∨
    sink.written + (sink.buffer recovery.buffered).length = p.written

/-! ### Cutting the batch away -/

theorem Started.file_setLen (h : Started transformer initial sink world accepted p) :
    (world.setLen p.len).file = world.file.take p.len := by
  rw [World.setLen, Nat.sub_eq_zero_of_le h.le, List.replicate_zero, List.append_nil]

theorem Started.own_setLen (h : Started transformer initial sink world accepted p) :
    ownBytes (world.setLen p.len).file = transformer.content [] accepted := by
  rw [h.file_setLen]
  exact h.own

/-- Where the file is as long as the sink's own writes say, what is cut is its own. -/
theorem Started.intact_setLen (h : Started transformer initial sink world accepted p)
    (hintact : Intact initial world) (hlength : world.file.length = p.len + (sink.written - p.written)) :
    Intact initial (world.setLen p.len) := by
  have htail : otherBytes (world.file.drop p.len) = [] := by
    have hcounted := h.counted
    have hsplit := length_ownBytes_add (world.file.drop p.len)
    rw [List.length_drop] at hsplit
    rw [← List.length_eq_zero_iff]
    have hle := h.le
    omega
  have hothers : otherBytes (world.file.take p.len) = world.others := by
    rw [← hintact.others]
    conv_rhs => rw [← List.take_append_drop p.len world.file]
    rw [otherBytes_append, htail, List.append_nil]
  refine ⟨?_, ?_⟩
  · rw [h.file_setLen]
    have hle : (initial.map Octet.other).length ≤ p.len := by
      rw [List.length_map]
      exact h.kept
    refine List.prefix_of_prefix_length_le hintact.initial (List.take_prefix _ _) ?_
    rw [List.length_take]
    exact le_min hle (hle.trans h.le)
  · rw [h.file_setLen]
    exact hothers

/-- A batch that has put nothing into the file has still started after the cut. -/
theorem Started.setLen (h : Started transformer initial sink world accepted p) {plan : Plan}
    (hplan : p.plan = some plan) (hsame : sink.written = p.written) (base : Nat) :
    Started transformer initial { sink with writerBase := base } (world.setLen p.len) accepted p := by
  refine { h with
    le := ?_
    own := ?_
    counted := ?_
    unplanned := fun hnone => nomatch hnone.symm.trans hplan }
  · rw [h.file_setLen, List.length_take]
    exact le_min (le_refl _) h.le
  · rw [h.file_setLen, List.take_take, min_self]
    exact h.own
  · rw [h.file_setLen, List.drop_take, Nat.sub_self, List.take_zero]
    exact hsame.symm

/-- Where no writer opens, at most the base of its writes has moved. -/
theorem openWriter_cases (hhandles : sink.handles = true) (cloned : Except String Unit)
    (opened : SaciResult Unit) :
    sink.openWriter cloned opened = ({ sink with writerBase := sink.written }, .ok ()) ∨
      ∃ base e, ¬ (cloned = .ok () ∧ opened = .ok ()) ∧
        sink.openWriter cloned opened = ({ sink with writerBase := base }, .error e) := by
  have hhandle : sink.handle = .ok () := if_pos hhandles
  rw [openWriter.eq_def, hhandle]
  cases cloned with
  | error e => exact .inr ⟨sink.writerBase, _, (fun hok => nomatch hok.1), rfl⟩
  | ok u =>
    cases opened with
    | error e => exact .inr ⟨sink.written, e, (fun hok => nomatch hok.2), rfl⟩
    | ok u => exact .inl rfl

theorem takeBack_status {r : SaciResult Unit} {sink' : FileSink} {world' : World}
    (hintact : Intact initial world)
    (h : Started transformer initial sink world accepted
      { p with plan := some ⟨p.len, !sink.committed || transformer.restartable⟩ })
    (hlength : world.file.length = p.len + (sink.written - p.written))
    (hlate : recovery.late ≠ [] → recovery.cut ≠ .ok ())
    (hreopened : recovery.cloned = .ok () ∧ recovery.opened = .ok () ∨ sink.written = p.written)
    (heq : takeBack transformer sink world ⟨p.len, !sink.committed || transformer.restartable⟩ recovery =
      (sink', world', r)) :
    Intact initial world' ∧ Status transformer initial sink' world' accepted failedFinishes ∧
      (r = .ok () → sink'.pending = none) := by
  have hcut : sink.cutTo recovery.cut = recovery.cut := if_pos h.handles
  rw [takeBack, hcut] at heq
  cases hanswer : recovery.cut with
  | error e =>
    rw [hanswer] at heq
    cases heq
    have hgrown := grown_append world recovery.late
    exact ⟨hintact.grown hgrown, .started _ (h.append hgrown), nofun⟩
  | ok u =>
    have hnone : recovery.late = [] := by
      by_contra hne
      exact hlate hne hanswer
    have hworld : world.append recovery.late = world := by
      rw [hnone, World.append, List.map_nil, List.append_nil, List.append_nil]
    rw [hanswer, hworld] at heq
    dsimp only at heq
    have hintact' := h.intact_setLen hintact hlength
    cases hreopen : !sink.committed || transformer.restartable with
    | true =>
      rw [hreopen, if_pos rfl] at heq
      rcases openWriter_cases h.handles recovery.cloned recovery.opened with hopen | ⟨base, e, hfailed, hopen⟩
      · rw [hopen] at heq
        cases heq
        refine ⟨hintact', .idle ⟨rfl, h.refused, h.handles, h.committed, ⟨[], rfl, ?_⟩, fun _ => rfl,
          h.own_setLen⟩, fun _ => rfl⟩
        rcases Bool.or_eq_true_iff.mp hreopen with hfirst | hrestartable
        · left
          rw [h.committed, Bool.not_not] at hfirst
          exact (List.isEmpty_iff.mp hfirst).symm
        · exact .inr hrestartable
      · rw [hopen] at heq
        cases heq
        exact ⟨hintact', .started _ (h.setLen rfl (hreopened.resolve_left hfailed) base), nofun⟩
    | false =>
      rw [hreopen, if_neg Bool.false_ne_true] at heq
      cases heq
      obtain ⟨hcommitted, hfixed⟩ := Bool.or_eq_false_iff.mp hreopen
      refine ⟨hintact', .refused _ rfl h.handles rfl (.cannotResume ?_ hfixed h.own_setLen), fun _ => rfl⟩
      rwa [Bool.not_eq_false'] at hcommitted

theorem len_eq (h : sink.handles = true) (measured : Except String Unit) : sink.len world measured =
    match measured with
    | .error e => .error (.generic s!"FileSink: cannot measure {sink.path}: {e}")
    | .ok () => .ok world.file.length := by
  have hhandle : sink.handle = .ok () := if_pos h
  unfold len
  rw [hhandle]
  rfl

/-- Recovery settles the batch that is pending, or leaves it pending. -/
theorem recover_status {r : SaciResult Unit} {sink' : FileSink} {world' : World}
    (hintact : Intact initial world)
    (hstatus : Status transformer initial sink world accepted failedFinishes) (hspared : recovery.Spared sink)
    (heq : recover transformer sink world recovery = (sink', world', r)) :
    Intact initial world' ∧ Status transformer initial sink' world' accepted failedFinishes ∧
      (r = .ok () → sink'.pending = none) := by
  rw [recover] at heq
  cases hpending : sink.pending with
  | none =>
    rw [hpending] at heq
    cases heq
    exact ⟨hintact, hstatus, fun _ => hpending⟩
  | some p =>
    rw [hpending] at heq
    have hstarted : Started transformer initial sink world accepted p := by
      cases hstatus with
      | idle h => exact nomatch hpending.symm.trans h.pending
      | started q h => exact Option.some.inj (hpending.symm.trans h.pending) ▸ h
      | refused _ hnone => exact nomatch hpending.symm.trans hnone
      | finished hnone => exact nomatch hpending.symm.trans hnone
    obtain ⟨sink₁, world₁, hdrop, hplanned, hgrown, hwritten, hcommitted⟩ :=
      hstarted.dropWriter recovery.buffered
    dsimp only at heq
    rw [hdrop] at heq
    dsimp only at heq
    have hearly := grown_append world₁ recovery.early
    have hintact₁ := (hintact.grown hgrown).grown hearly
    have hplanned₁ := hplanned.append hearly
    rw [len_eq hplanned.handles] at heq
    cases hmeasured : recovery.measured with
    | error e =>
      rw [hmeasured] at heq
      cases heq
      exact ⟨hintact₁, .started _ hplanned₁, nofun⟩
    | ok u =>
      rw [hmeasured] at heq
      dsimp only at heq
      split_ifs at heq with hlength
      · cases heq
        -- others have appended: the batch is left where it is
        have hsplit := length_ownBytes_add ((world₁.append recovery.early).file.drop p.len)
        have hcounted := hplanned₁.counted
        dsimp only at hcounted
        have hle : p.len ≤ (world₁.append recovery.early).file.length := hplanned₁.le
        refine ⟨hintact₁, .refused _ rfl hplanned₁.handles rfl
          (.appended (ownBytes ((world₁.append recovery.early).file.drop p.len)) (fun hnone => hlength ?_) ?_),
          fun _ => rfl⟩
        · rw [hplanned₁.start] at hnone
          dsimp only at hnone
          rw [hnone, List.length_nil, List.length_drop] at hsplit
          omega
        · have hown : ownBytes (_ : List Octet) = transformer.content [] accepted := hplanned₁.own
          rw [← hown, ← ownBytes_append, List.take_append_drop]
      · rw [← hcommitted] at heq hplanned₁
        refine takeBack_status hintact₁ hplanned₁ (not_not.mp hlength) hspared.late ?_ heq
        rw [hwritten]
        exact hspared.reopened p hpending

theorem handles_openWriter (cloned : Except String Unit) (opened : SaciResult Unit) :
    (sink.openWriter cloned opened).1.handles = sink.handles := by
  unfold openWriter
  split
  · rfl
  · split <;> rfl

theorem handles_takeBack (plan : Plan) :
    (takeBack transformer sink world plan recovery).1.handles = sink.handles := by
  unfold takeBack
  dsimp only
  split
  · rfl
  · split_ifs
    · have hopen : (sink.openWriter recovery.cloned recovery.opened).1.handles = sink.handles :=
        handles_openWriter _ _
      split <;> rename_i heq <;> rw [heq] at hopen <;> exact hopen
    · rfl

theorem handles_recover : (recover transformer sink world recovery).1.handles = sink.handles := by
  unfold recover
  split
  · rfl
  · rename_i p hpending
    have hdrop : (dropWriter transformer sink world p recovery.buffered).2.1.handles = sink.handles := by
      unfold dropWriter
      dsimp only
      split <;> rfl
    dsimp only
    rw [← hdrop]
    split
    · rfl
    · split_ifs
      · rfl
      · exact handles_takeBack _

/-- A call goes on with a sink that is ready. -/
theorem begin_status {r : SaciResult Unit} {sink' : FileSink} {world' : World}
    (hintact : Intact initial world)
    (hstatus : Status transformer initial sink world accepted failedFinishes) (hspared : recovery.Spared sink)
    (heq : begin transformer sink world recovery = (sink', world', r)) :
    Intact initial world' ∧ Status transformer initial sink' world' accepted failedFinishes ∧
      (r = .ok () → Idle transformer sink' world' accepted) := by
  rw [begin] at heq
  cases hhandles : sink.handles with
  | false =>
    have hhandle : sink.handle = .error (.generic "FileSink: write_batch called after finish") :=
      if_neg (by rw [hhandles]; exact Bool.false_ne_true)
    rw [hhandle] at heq
    cases heq
    exact ⟨hintact, hstatus, nofun⟩
  | true =>
    have hhandle : sink.handle = .ok () := if_pos hhandles
    rw [hhandle] at heq
    rcases hrecover : recover transformer sink world recovery with ⟨sink₁, world₁, r₁⟩
    obtain ⟨hintact₁, hstatus₁, hnone⟩ := recover_status hintact hstatus hspared hrecover
    have hhandles₁ : sink₁.handles = true := by
      have hkept : (recover transformer sink world recovery).1.handles = sink.handles := handles_recover
      rwa [hrecover, hhandles] at hkept
    rw [hrecover] at heq
    cases r₁ with
    | error e =>
      cases heq
      exact ⟨hintact₁, hstatus₁, nofun⟩
    | ok u =>
      dsimp only at heq
      cases hrefused : sink₁.refused with
      | some why =>
        rw [hrefused] at heq
        cases heq
        exact ⟨hintact₁, hstatus₁, nofun⟩
      | none =>
        rw [hrefused] at heq
        cases heq
        refine ⟨hintact₁, hstatus₁, fun _ => ?_⟩
        cases hstatus₁ with
        | idle h => exact h
        | started p h => exact nomatch h.pending.symm.trans (hnone rfl)
        | refused _ _ _ hwhy => exact nomatch hwhy.symm.trans hrefused
        | finished _ _ hclosed => exact nomatch hclosed.symm.trans hhandles₁

/-- A batch starts where the file ends, and lands if nothing fails. -/
theorem encode_status (failedFinishes : List SaciError) {r : SaciResult Unit} {sink' : FileSink}
    {world' : World} {batch : RecordBatch} {attempt : Attempt} (hresumes : transformer.Resumes)
    (hreleases : transformer.Releases) (hintact : Intact initial world)
    (hidle : Idle transformer sink world accepted)
    (heq : encode transformer sink world batch attempt = (sink', world', r)) :
    Intact initial world' ∧ Status transformer initial sink' world' accepted failedFinishes ∧
      (r = .ok () →
        Idle transformer { sink' with pending := none, committed := true } world' (accepted ++ [batch])) := by
  obtain ⟨written, hwriter, hresume⟩ := hidle.writer
  have hearly := grown_append world attempt.early
  have hintact₁ := hintact.grown hearly
  have hown₁ : ownBytes (world.append attempt.early).file = transformer.content [] accepted := by
    rw [World.append, ownBytes_append, ownBytes_other, List.append_nil]
    exact hidle.own
  unfold encode at heq
  dsimp only at heq
  rw [len_eq hidle.handles] at heq
  cases hmeasured : attempt.measured with
  | error e =>
    rw [hmeasured] at heq
    cases heq
    exact ⟨hintact₁, .idle { hidle with own := hown₁ }, nofun⟩
  | ok u =>
    rw [hmeasured] at heq
    dsimp only at heq
    rw [hwriter] at heq
    dsimp only at heq
    let start : World := { world.append attempt.early with start := (world.append attempt.early).file.length }
    have hintact₂ : Intact initial start := ⟨hintact₁.initial, hintact₁.others⟩
    obtain ⟨bytes, hbytes⟩ : ∃ bytes, bytes =
      (attempt.fault.map Prod.fst).getD (transformer.flushed written batch) := ⟨_, rfl⟩
    rw [← hbytes] at heq
    have hgrown := grown_weave start attempt.others bytes
    obtain ⟨tail, hfile, htail, -⟩ := hgrown.file
    have hlength : initial.length ≤ start.file.length := by
      have hle := hintact₂.initial.length_le
      rwa [List.length_map] at hle
    have hstarted : Started transformer initial { sink with
        writer := some (written ++ [batch])
        written := sink.written + bytes.length
        pending := some ⟨start.file.length, sink.written, none⟩ } (start.weave attempt.others bytes) accepted
        ⟨start.file.length, sink.written, none⟩ := by
      refine ⟨rfl, hidle.refused, hidle.handles, hidle.committed, hgrown.start, hlength, ?_, ?_, ?_, nofun,
        fun _ => ⟨rfl, hidle.base⟩⟩
      · rw [hfile, List.length_append]
        exact Nat.le_add_right _ _
      · rw [hfile, List.take_left]
        exact hown₁
      · rw [hfile, List.drop_left, htail]
    have hintact₃ := hintact₂.grown hgrown
    cases hfault : attempt.fault with
    | some fault =>
      rw [hfault] at heq
      cases heq
      exact ⟨hintact₃, .started _ hstarted, nofun⟩
    | none =>
      rw [hfault] at heq hbytes
      cases heq
      refine ⟨hintact₃, .started _ hstarted, fun _ => ?_⟩
      refine ⟨rfl, hidle.refused, hidle.handles, ?_, ⟨_, rfl, ?_⟩, nofun, ?_⟩
      · cases accepted <;> rfl
      · exact hresume.imp_left fun hsame => by rw [hsame]
      · have hencoded : bytes = transformer.encoded accepted batch := by
          rw [hbytes, Option.map_none, Option.getD_none, hreleases, hresumes.encoded_eq hresume]
        rw [show (start.weave attempt.others bytes).file = start.file ++ tail from hfile, ownBytes_append, htail,
          hencoded, Transformer.content_concat]
        exact congrArg (· ++ _) hown₁

/-- What an event is spared: what its recoveries are. -/
def Event.Spared (transformer : Transformer) (state : State) : Event → Prop
  | .append _ => True
  | .write batch before attempt after => before.Spared state.sink ∧
    ∀ sink world sink' world' e, begin transformer state.sink state.world before = (sink, world, .ok ()) →
      encode transformer sink world batch attempt = (sink', world', .error e) → after.Spared sink'
  | .dropped _ before _ => before.Spared state.sink
  | .finish before _ => before.Spared state.sink

theorem RefusedFor.mono {why : Refusal} {failed more : List SaciError}
    (h : RefusedFor transformer sink world accepted failed why) (hsub : failed ⊆ more) :
    RefusedFor transformer sink world accepted more why := by
  cases h with
  | appended rest intruded own => exact .appended rest intruded own
  | cannotResume committed fixed own => exact .cannotResume committed fixed own
  | finishFailed rest failed own => exact .finishFailed rest (hsub failed) own

theorem Status.mono {failed more : List SaciError}
    (h : Status transformer initial sink world accepted failed) (hsub : failed ⊆ more) :
    Status transformer initial sink world accepted more := by
  cases h with
  | idle h => exact .idle h
  | started p h => exact .started p h
  | refused why hpending hhandles hrefused reason =>
    exact .refused why hpending hhandles hrefused (reason.mono hsub)
  | finished hpending hrefused hclosed written hown => exact .finished hpending hrefused hclosed written hown

/-- Others may append between the calls. -/
theorem Status.append (h : Status transformer initial sink world accepted failedFinishes) (bytes : Bytes) :
    Status transformer initial sink (world.append bytes) accepted failedFinishes := by
  have hown : ownBytes (world.append bytes).file = ownBytes world.file := by
    rw [World.append, ownBytes_append, ownBytes_other, List.append_nil]
  cases h with
  | idle h => exact .idle { h with own := hown.trans h.own }
  | started p h => exact .started p (h.append (grown_append world bytes))
  | refused why hpending hhandles hrefused reason =>
    refine .refused why hpending hhandles hrefused ?_
    cases reason with
    | appended rest intruded own =>
      refine .appended rest (fun hnone => intruded ?_) (hown.trans own)
      rw [World.append, List.drop_append, otherBytes_append, List.append_eq_nil_iff] at hnone
      exact hnone.1
    | cannotResume committed fixed own => exact .cannotResume committed fixed (hown.trans own)
    | finishFailed rest failed own => exact .finishFailed rest failed (hown.trans own)
  | finished hpending hrefused hclosed written own =>
    exact .finished hpending hrefused hclosed written (hown.trans own)

/-- After any calls: the others' bytes are intact, and the sink is in one of its four states. -/
structure Kept (transformer : Transformer) (initial : Bytes) (state : State) : Prop where
  intact : Intact initial state.world
  status : Status transformer initial state.sink state.world state.accepted state.failedFinishes

theorem writeBatch_kept {state : State} (hresumes : transformer.Resumes) (hreleases : transformer.Releases)
    (h : Kept transformer initial state) {batch : RecordBatch} {before after : Recovery} {attempt : Attempt}
    (hspared : (Event.write batch before attempt after).Spared transformer state) :
    Kept transformer initial (step transformer state (.write batch before attempt after)) := by
  obtain ⟨hbefore, hafter⟩ := hspared
  rcases hbegin : begin transformer state.sink state.world before with ⟨sink₁, world₁, r₁⟩
  obtain ⟨hintact₁, hstatus₁, hidle⟩ := begin_status h.intact h.status hbefore hbegin
  rw [step, writeBatch, hbegin]
  cases r₁ with
  | error e => exact ⟨hintact₁, hstatus₁⟩
  | ok u =>
    rcases hencode : encode transformer sink₁ world₁ batch attempt with ⟨sink₂, world₂, r₂⟩
    obtain ⟨hintact₂, hstatus₂, hlanded⟩ :=
      encode_status state.failedFinishes hresumes hreleases hintact₁ (hidle rfl) hencode
    dsimp only
    rw [hencode]
    cases r₂ with
    | ok u => exact ⟨hintact₂, .idle (hlanded rfl)⟩
    | error error =>
      rcases hrecover : recover transformer sink₂ world₂ after with ⟨sink₃, world₃, r₃⟩
      obtain ⟨hintact₃, hstatus₃, -⟩ :=
        recover_status hintact₂ hstatus₂ (hafter _ _ _ _ _ hbegin hencode) hrecover
      dsimp only
      rw [hrecover]
      cases r₃ <;> exact ⟨hintact₃, hstatus₃⟩

theorem dropped_kept {state : State} (hresumes : transformer.Resumes) (hreleases : transformer.Releases)
    (h : Kept transformer initial state) {batch : RecordBatch} {before : Recovery} {attempt : Attempt}
    (hspared : before.Spared state.sink) :
    Kept transformer initial (step transformer state (.dropped batch before attempt)) := by
  rcases hbegin : begin transformer state.sink state.world before with ⟨sink₁, world₁, r₁⟩
  obtain ⟨hintact₁, hstatus₁, hidle⟩ := begin_status h.intact h.status hspared hbegin
  rw [step, hbegin]
  cases r₁ with
  | error e => exact ⟨hintact₁, hstatus₁⟩
  | ok u =>
    rcases hencode : encode transformer sink₁ world₁ batch attempt with ⟨sink₂, world₂, r₂⟩
    obtain ⟨hintact₂, hstatus₂, -⟩ :=
      encode_status state.failedFinishes hresumes hreleases hintact₁ (hidle rfl) hencode
    dsimp only
    rw [hencode]
    exact ⟨hintact₂, hstatus₂⟩

theorem finish_kept {state : State} (h : Kept transformer initial state) {before : Recovery} {script : Finish}
    (hspared : before.Spared state.sink) :
    Kept transformer initial (step transformer state (.finish before script)) := by
  rw [step, finish]
  split_ifs with hclosed
  · exact h
  rcases hbegin : begin transformer state.sink state.world before with ⟨sink₁, world₁, r₁⟩
  obtain ⟨hintact₁, hstatus₁, hidle⟩ := begin_status h.intact h.status hspared hbegin
  cases r₁ with
  | error e => exact ⟨hintact₁, hstatus₁.mono (List.subset_append_left _ _)⟩
  | ok u =>
    have hready := hidle rfl
    obtain ⟨written, hwriter, -⟩ := hready.writer
    dsimp only
    rw [hwriter]
    dsimp only
    obtain ⟨bytes, hbytes⟩ : ∃ bytes, bytes =
      (script.fault.map Prod.fst).getD (transformer.finished written) := ⟨_, rfl⟩
    rw [← hbytes]
    have hgrown := grown_weave world₁ script.others bytes
    obtain ⟨tail, hfile, htail, -⟩ := hgrown.file
    have hown : ownBytes (world₁.weave script.others bytes).file =
        transformer.content [] state.accepted ++ bytes := by
      rw [hfile, ownBytes_append, htail, hready.own]
    cases hfault : script.fault with
    | some fault =>
      exact ⟨hintact₁.grown hgrown, .refused _ hready.pending hready.handles rfl
        (.finishFailed bytes (List.mem_append_right _ (List.mem_singleton.mpr rfl)) hown)⟩
    | none =>
      rw [hfault] at hbytes
      dsimp only
      cases hsynced : { sink₁ with
          writer := none
          written := sink₁.written + bytes.length }.syncData script.synced with
      | error e =>
        exact ⟨hintact₁.grown hgrown, .refused _ hready.pending hready.handles rfl
          (.finishFailed bytes (List.mem_append_right _ (List.mem_singleton.mpr rfl)) hown)⟩
      | ok u =>
        exact ⟨hintact₁.grown hgrown, .finished hready.pending hready.refused rfl written
          (hown.trans (congrArg _ hbytes))⟩

/-- One event keeps the file. -/
theorem step_kept {state : State} (hresumes : transformer.Resumes) (hreleases : transformer.Releases)
    (h : Kept transformer initial state) {event : Event} (hspared : event.Spared transformer state) :
    Kept transformer initial (step transformer state event) := by
  cases event with
  | append bytes => exact ⟨h.intact.grown (grown_append _ _), h.status.append bytes⟩
  | write batch before attempt after => exact writeBatch_kept hresumes hreleases h hspared
  | dropped batch before attempt => exact dropped_kept hresumes hreleases h hspared
  | finish before script => exact finish_kept h hspared

/-- Every event of a run is spared. -/
def Spared (transformer : Transformer) : State → List Event → Prop
  | _, [] => True
  | state, event :: events =>
    event.Spared transformer state ∧ Spared transformer (step transformer state event) events

theorem run_kept {state : State} (hresumes : transformer.Resumes) (hreleases : transformer.Releases)
    (h : Kept transformer initial state) {events : List Event} (hspared : Spared transformer state events) :
    Kept transformer initial (run transformer state events) := by
  induction events generalizing state with
  | nil => exact h
  | cons event events ih => exact ih (step_kept hresumes hreleases h hspared.1) hspared.2

theorem kept_opened (path : String) (initial : Bytes) : Kept transformer initial (.opened path initial) where
  intact := ⟨List.prefix_refl _, otherBytes_other initial⟩
  status := .idle ⟨rfl, rfl, rfl, rfl, ⟨[], rfl, .inl rfl⟩, fun _ => rfl, ownBytes_other initial⟩

/-! ## Once or not at all -/

/-- A batch lands once or not at all. Where nothing is pending, the file has the bytes of the others in
order, the content at the start first, and what one writer makes of the accepted batches: a batch that failed
is there only if another writer has appended during it, and a trailer only after a call of `finish`. A sink
refuses for one of three reasons. -/
structure LandsOnce (transformer : Transformer) (initial : Bytes) (state : State) : Prop where
  initial : initial.map Octet.other <+: state.world.file
  others : otherBytes state.world.file = state.world.others
  batches : state.sink.pending = none → state.sink.refused = none → state.sink.handles = true →
    ownBytes state.world.file = transformer.content [] state.accepted
  finished : state.sink.handles = false → ∃ written,
    ownBytes state.world.file = transformer.content [] state.accepted ++ transformer.finished written
  refused : ∀ why, state.sink.refused = some why →
    state.sink.pending = none ∧ ∃ rest,
      ownBytes state.world.file = transformer.content [] state.accepted ++ rest ∧
      match why with
      | .appended => Intruded state.world
      | .cannotResume format => format = transformer.format ∧ transformer.restartable = false ∧
          state.sink.committed = true ∧ rest = []
      | .finishFailed e => e ∈ state.failedFinishes

theorem Kept.landsOnce {state : State} (h : Kept transformer initial state) :
    LandsOnce transformer initial state where
  initial := h.intact.initial
  others := h.intact.others
  batches hpending hrefused hhandles := by
    cases h.status with
    | idle h => exact h.own
    | started p h => exact nomatch hpending.symm.trans h.pending
    | refused why _ _ hwhy => exact nomatch hrefused.symm.trans hwhy
    | finished _ _ hclosed => exact nomatch hhandles.symm.trans hclosed
  finished hclosed := by
    cases h.status with
    | idle h => exact nomatch hclosed.symm.trans h.handles
    | started p h => exact nomatch hclosed.symm.trans h.handles
    | refused why _ hhandles => exact nomatch hclosed.symm.trans hhandles
    | finished _ _ _ written hown => exact ⟨written, hown⟩
  refused why hwhy := by
    cases h.status with
    | idle h => exact nomatch hwhy.symm.trans h.refused
    | started p h => exact nomatch hwhy.symm.trans h.refused
    | refused why' hpending _ hwhy' reason =>
      obtain rfl := Option.some.inj (hwhy'.symm.trans hwhy)
      refine ⟨hpending, ?_⟩
      cases reason with
      | appended rest intruded own => exact ⟨rest, own, intruded⟩
      | cannotResume committed fixed own =>
        exact ⟨[], own.trans (List.append_nil _).symm, rfl, fixed, committed, rfl⟩
      | finishFailed rest failed own => exact ⟨rest, own, failed⟩
    | finished _ hnone => exact nomatch hwhy.symm.trans hnone

/-- **A batch lands once or not at all.** In every run of a sink that holds nothing back, in which a writer
opens again wherever bytes were cut away and nobody appends between a measure and its cut, the file has what
it should have in every state reached. -/
theorem lands_once (hresumes : transformer.Resumes) (hreleases : transformer.Releases) (path : String)
    (initial : Bytes) (events : List Event) (hspared : Spared transformer (.opened path initial) events) :
    LandsOnce transformer initial (run transformer (.opened path initial) events) :=
  (run_kept hresumes hreleases (kept_opened path initial) hspared).landsOnce

end FileSink

namespace FileSink.Sample

/-- A line for each batch, as long as the batch has rows. -/
def lines : Transformer where
  format := "ndjson"
  restartable := true
  preamble := []
  body _ batch := [UInt8.ofNat batch.numRows]
  flushed _ batch := [UInt8.ofNat batch.numRows]
  finished _ := []

theorem resumes_lines : lines.Resumes := ⟨fun _ => rfl, fun _ _ _ => rfl⟩

theorem releases_lines : lines.Releases := fun written batch => by
  rw [Transformer.encoded]
  cases written <;> rfl

def batch : RecordBatch := ⟨⟨[]⟩, [[]]⟩

/-- A recovery in which nothing fails. -/
def quiet : Recovery := ⟨[], [], .ok (), [], .ok (), .ok (), .ok ()⟩

def lands : Attempt := ⟨[], .ok (), none, [], .ok ()⟩

/-- An encoding that fails after a byte. -/
def tears : Attempt := ⟨[], .ok (), some ([7], .generic "No space left on device"), [], .ok ()⟩

/-- The writer does not open again after the cut: the next call takes the cut for another writer's
append, and the sink refuses for good. -/
theorem reopen_refuses : lines.Resumes ∧ lines.Releases ∧ ¬LandsOnce lines []
    (run lines (.opened "out.ndjson" []) [.write batch quiet lands quiet,
      .write batch quiet tears { quiet with cloned := .error "Too many open files" },
      .write batch quiet lands quiet]) := by
  refine ⟨resumes_lines, releases_lines, fun h => ?_⟩
  obtain ⟨_, _, _, hintruded⟩ := h.refused .appended rfl
  exact hintruded rfl

/-- A batch that fails after one that landed, and its retry. -/
theorem retry_lands : LandsOnce lines [10] (run lines (.opened "out.ndjson" [10])
    [.write batch quiet lands quiet, .write batch quiet tears quiet, .append [20],
      .write batch quiet lands quiet]) := by
  have hspared : ∀ sink, quiet.Spared sink := fun sink =>
    ⟨fun hne => absurd rfl hne, fun _ _ => .inl ⟨rfl, rfl⟩⟩
  refine lands_once resumes_lines releases_lines _ _ _ ⟨?_, ?_, trivial, ?_, trivial⟩
  · exact ⟨hspared _, fun _ _ _ _ _ _ _ => hspared _⟩
  · exact ⟨hspared _, fun _ _ _ _ _ _ _ => hspared _⟩
  · exact ⟨hspared _, fun _ _ _ _ _ _ _ => hspared _⟩

end FileSink.Sample
end Saci.File
