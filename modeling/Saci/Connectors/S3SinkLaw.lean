import Saci.Connectors.S3Sink
import Mathlib.Algebra.BigOperators.Group.List.Basic

/-!
# Every row is in one object of the bucket

An upload that failed may have landed, but its key stays with the object until an upload of it answers
`Ok`, and the number in the key moves only then. So what has landed by mistake is overwritten, and the
confirmed objects are never touched again.
-/

namespace Saci.S3

variable {shared : SinkShared}

/-! ## Keys -/

/-- Joining paths keeps distinct names distinct. -/
def Library.Joins (library : Library) : Prop := ∀ keyPrefix, Function.Injective (library.join keyPrefix)

theorem ofDigitChars_sixDigits (seq : Nat) : Nat.ofDigitChars 10 (sixDigits seq).toList 0 = seq := by
  rw [sixDigits, String.toList_append, String.toList_ofList, Nat.ofDigitChars_append,
    Nat.ofDigitChars_replicate_zero, Nat.mul_zero, Nat.toList_repr, Nat.ofDigitChars_ten_toDigits]

theorem isDigit_of_mem_sixDigits {seq : Nat} {c : Char} (h : c ∈ (sixDigits seq).toList) : c.isDigit = true := by
  rw [sixDigits, String.toList_append, String.toList_ofList, Nat.toList_repr, List.mem_append] at h
  rcases h with hzero | hdigit
  · rw [List.eq_of_mem_replicate hzero]
    rfl
  · exact Nat.isDigit_of_mem_toDigits (by decide) (by decide) hdigit

/-- What follows the last hyphen of two texts that agree is the same. -/
theorem eq_of_append_cons_eq {α : Type} {a : α} {l l' r r' : List α} (hr : a ∉ r) (hr' : a ∉ r')
    (h : l ++ a :: r = l' ++ a :: r') : r = r' := by
  rcases List.append_eq_append_iff.mp h with ⟨m, -, hm⟩ | ⟨m, -, hm⟩
  · cases m with
    | nil => exact (List.cons_inj_right a).mp hm
    | cons b m =>
      rw [List.cons_append, List.cons.injEq] at hm
      exact absurd (hm.2 ▸ List.mem_append_right m List.mem_cons_self) hr
  · cases m with
    | nil => exact ((List.cons_inj_right a).mp hm).symm
    | cons b m =>
      rw [List.cons_append, List.cons.injEq] at hm
      exact absurd (hm.2 ▸ List.mem_append_right m List.mem_cons_self) hr'

/-- Objects of distinct numbers have distinct keys. -/
theorem objectKey_inj (hjoins : shared.library.Joins) {t t' : Int} {seq seq' : Nat}
    (h : shared.objectKey t seq = shared.objectKey t' seq') : seq = seq' := by
  have hstem := congrArg String.toList (hjoins _ h)
  have hhyphen : ∀ seq, '-' ∉ (sixDigits seq).toList := fun seq hmem =>
    absurd (isDigit_of_mem_sixDigits hmem) (by decide)
  have htext : ∀ t seq, (s!"{shared.library.timestamp t}-{sixDigits seq}{shared.suffix}").toList =
      (shared.library.timestamp t).toList ++ '-' :: (sixDigits seq).toList ++ shared.suffix.toList := by
    intro t seq
    simp [toString]
  rw [htext, htext] at hstem
  have hdigits := eq_of_append_cons_eq (hhyphen seq) (hhyphen seq') (List.append_cancel_right hstem)
  rw [← ofDigitChars_sixDigits seq, ← ofDigitChars_sixDigits seq', hdigits]

/-! ## What a sink has stored -/

/-- The rows of batches. -/
def rowsOf (batches : List RecordBatch) : Nat := (batches.map RecordBatch.numRows).sum

/-- An object that is open: its count is that of its batches, and the encoder has just them. -/
structure Gathered (pending : Pending) : Prop where
  rows : pending.rows = rowsOf pending.batches
  filled : ∀ batch ∈ pending.batches, batch.numRows ≠ 0
  encoder : ∀ written, pending.encoder = some written → written = pending.batches

/-- A key is that of a confirmed object, or an upload of the open object was sent under it. -/
def Known (shared : SinkShared) (objects : List (Int × List RecordBatch)) (state : SinkState) (key : String) :
    Prop :=
  (∃ i t batches, objects[i]? = some (t, batches) ∧ key = shared.objectKey t i) ∨
    ∃ pending, state.openObject = some pending ∧ pending.attempted = true ∧
      key = shared.objectKey pending.openedAt state.seq

/-- The confirmed objects are in the bucket, under their numbers, and besides them at most what an upload
of the open object has left. -/
structure Stored (shared : SinkShared) (objects : List (Int × List RecordBatch)) (state : SinkState)
    (store : Store) : Prop where
  seq : objects.length = state.seq
  confirmed : ∀ i t batches, objects[i]? = some (t, batches) →
    store (shared.objectKey t i) = some (shared.library.object batches)
  others : ∀ key bytes, store key = some bytes → Known shared objects state key
  gathered : ∀ pending, state.openObject = some pending → Gathered pending

theorem rowsOf_eq_zero_iff {batches : List RecordBatch} (h : ∀ batch ∈ batches, batch.numRows ≠ 0) :
    rowsOf batches = 0 ↔ batches = [] := by
  cases batches with
  | nil => exact iff_of_true rfl rfl
  | cons batch batches =>
    refine iff_of_false (fun hzero => ?_) (List.cons_ne_nil _ _)
    rw [rowsOf, List.map_cons, List.sum_cons] at hzero
    exact h batch List.mem_cons_self (Nat.eq_zero_of_add_eq_zero_right hzero)

/-- What comes of an upload. -/
inductive Flushed (shared : SinkShared) (objects : List (Int × List RecordBatch)) (state : SinkState) :
    SinkState → Store → Option (SaciResult Unit) → Prop
  /-- There is nothing to upload. -/
  | nothing {store} (empty : ∀ pending, state.openObject = some pending → pending.batches = [])
      (stored : Stored shared objects state store) : Flushed shared objects state state store (some (.ok ()))
  | uploaded {store} (pending : Pending) (isOpen : state.openObject = some pending)
      (filled : pending.batches ≠ [])
      (stored : Stored shared (objects ++ [(pending.openedAt, pending.batches)])
        { state with openObject := none, seq := state.seq + 1 } store) :
      Flushed shared objects state { state with openObject := none, seq := state.seq + 1 } store (some (.ok ()))
  | kept {store answer} (pending : Pending) (isOpen : state.openObject = some pending)
      (filled : pending.batches ≠ []) (attempted : Bool) (still : pending.attempted = true → attempted = true)
      (failed : answer ≠ some (.ok ())) (dropped : answer = none → attempted = true)
      (stored : Stored shared objects
        { state with openObject := some { pending with encoder := none, attempted } } store) :
      Flushed shared objects state
        { state with openObject := some { pending with encoder := none, attempted } } store answer

variable {objects : List (Int × List RecordBatch)} {state state' : SinkState} {store store' : Store}
  {pending : Pending}

/-- Without its encoder, the open object is what it was. -/
theorem Gathered.withoutEncoder (h : Gathered pending) (attempted : Bool) :
    Gathered { pending with encoder := none, attempted } := ⟨h.rows, h.filled, nofun⟩

/-- A put under the key of the open object leaves the confirmed ones alone. -/
theorem Stored.put_of_ne (hjoins : shared.library.Joins) (h : Stored shared objects state store) {t : Int}
    {bytes : Bytes} {i : Nat} {t' : Int} {batches : List RecordBatch} (hi : objects[i]? = some (t', batches)) :
    store.put (shared.objectKey t state.seq) bytes (shared.objectKey t' i) =
      some (shared.library.object batches) := by
  have hlt : i < state.seq := h.seq ▸ (List.getElem?_eq_some_iff.mp hi).1
  have hne : shared.objectKey t' i ≠ shared.objectKey t state.seq := fun hkey =>
    hlt.ne (objectKey_inj hjoins hkey)
  rw [Store.put, Function.update_of_ne hne]
  exact h.confirmed i t' batches hi

/-- An upload that was sent and not confirmed may have landed. -/
theorem Stored.tried (hjoins : shared.library.Joins) (h : Stored shared objects state store)
    (hopen : state.openObject = some pending) (landed : Bool) (bytes : Bytes) :
    Stored shared objects { state with openObject := some { pending with encoder := none, attempted := true } }
      (if landed then store.put (shared.objectKey pending.openedAt state.seq) bytes else store) where
  seq := h.seq
  confirmed i t batches hi := by
    cases landed with
    | false => exact h.confirmed i t batches hi
    | true => exact h.put_of_ne hjoins hi
  others key content hkey := by
    have hold : store key = some content → Known shared objects
        { state with openObject := some { pending with encoder := none, attempted := true } } key := by
      intro hkey
      refine (h.others key content hkey).imp_right fun ⟨other, hother, _, hsame⟩ => ?_
      cases hopen.symm.trans hother
      exact ⟨_, rfl, rfl, hsame⟩
    cases landed with
    | false => exact hold hkey
    | true =>
      by_cases hsame : key = shared.objectKey pending.openedAt state.seq
      · exact .inr ⟨_, rfl, rfl, hsame⟩
      · rw [if_pos rfl, Store.put, Function.update_of_ne hsame] at hkey
        exact hold hkey
  gathered other hother := by
    cases hother
    exact (h.gathered pending hopen).withoutEncoder true

/-- A confirmed upload closes the object, and its number goes on. -/
theorem Stored.uploaded (hjoins : shared.library.Joins) (h : Stored shared objects state store)
    (hopen : state.openObject = some pending) :
    Stored shared (objects ++ [(pending.openedAt, pending.batches)])
      { state with openObject := none, seq := state.seq + 1 }
      (store.put (shared.objectKey pending.openedAt state.seq) (shared.library.object pending.batches)) where
  seq := by rw [List.length_append, h.seq, List.length_singleton]
  confirmed i t batches hi := by
    rw [List.getElem?_append] at hi
    split_ifs at hi with hlt
    · exact h.put_of_ne hjoins hi
    · have hzero : i - objects.length = 0 := by
        have hlt' := (List.getElem?_eq_some_iff.mp hi).1
        rw [List.length_singleton] at hlt'
        omega
      rw [hzero] at hi
      cases hi
      have hseq : i = state.seq := by
        have hlength := h.seq
        omega
      rw [hseq, Store.put, Function.update_self]
  others key content hkey := by
    left
    by_cases hsame : key = shared.objectKey pending.openedAt state.seq
    · refine ⟨state.seq, pending.openedAt, pending.batches, ?_, hsame⟩
      rw [← h.seq, List.getElem?_concat_length]
    · rw [Store.put, Function.update_of_ne hsame] at hkey
      rcases h.others key content hkey with ⟨i, t, batches, hi, hold⟩ | ⟨other, hother, -, hold⟩
      · refine ⟨i, t, batches, ?_, hold⟩
        rw [List.getElem?_append_left (List.getElem?_eq_some_iff.mp hi).1]
        exact hi
      · cases hopen.symm.trans hother
        exact absurd hold hsame
  gathered := nofun

theorem flushLocked_flushed (hjoins : shared.library.Joins) {upload : Upload} {answer : Option (SaciResult Unit)}
    (h : Stored shared objects state store)
    (heq : flushLocked shared state store upload = (state', store', answer)) :
    Flushed shared objects state state' store' answer := by
  unfold flushLocked at heq
  cases hopen : state.openObject with
  | none =>
    rw [hopen] at heq
    cases heq
    exact .nothing (fun _ hsome => nomatch hopen.symm.trans hsome) h
  | some pending =>
    rw [hopen] at heq
    have hgathered := h.gathered pending hopen
    dsimp only at heq
    split_ifs at heq with hrows
    · cases heq
      refine .nothing (fun other hother => ?_) h
      cases hopen.symm.trans hother
      exact (rowsOf_eq_zero_iff hgathered.filled).mp (hgathered.rows.symm.trans hrows)
    · have hfilled : pending.batches ≠ [] := fun hnil =>
        hrows (hgathered.rows.trans ((rowsOf_eq_zero_iff hgathered.filled).mpr hnil))
      have hbatches : pending.encoder.getD pending.batches = pending.batches := by
        cases hencoder : pending.encoder with
        | none => rfl
        | some written => exact hgathered.encoder written hencoder
      rw [hbatches] at heq
      cases hencoded : upload.encoded with
      | error e =>
        rw [hencoded] at heq
        cases heq
        refine .kept pending hopen hfilled pending.attempted id (fun hok => nomatch hok) nofun
          ⟨h.seq, h.confirmed, ?_, ?_⟩
        · intro key content hkey
          refine (h.others key content hkey).imp_right fun ⟨other, hother, htried, hsame⟩ => ?_
          cases hopen.symm.trans hother
          exact ⟨_, rfl, htried, hsame⟩
        · intro other hother
          cases hother
          exact hgathered.withoutEncoder pending.attempted
      | ok u =>
        rw [hencoded] at heq
        dsimp only at heq
        cases hput : upload.put with
        | ok =>
          rw [hput] at heq
          cases heq
          exact .uploaded pending hopen hfilled (h.uploaded hjoins hopen)
        | failed landed e =>
          rw [hput] at heq
          cases heq
          exact .kept pending hopen hfilled true (fun _ => rfl) (fun hok => nomatch hok) (fun _ => rfl)
            (h.tried hjoins hopen landed _)
        | dropped landed =>
          rw [hput] at heq
          cases heq
          exact .kept pending hopen hfilled true (fun _ => rfl) nofun (fun _ => rfl) (h.tried hjoins hopen landed _)

/-! ## Taking a batch back -/

/-- The batches of the open object that were accepted. -/
def held (state : SinkState) : List RecordBatch :=
  match state.openObject with
  | none => []
  | some pending => if state.ownRows = 0 then pending.batches else pending.batches.dropLast

theorem held_of_settled (hopen : state.openObject = some pending) (hown : state.ownRows = 0) :
    held state = pending.batches := by
  rw [held, hopen]
  exact if_pos hown

theorem Stored.congr (h : Stored shared objects state store) (hopen : state'.openObject = state.openObject)
    (hseq : state'.seq = state.seq) : Stored shared objects state' store where
  seq := h.seq.trans hseq.symm
  confirmed := h.confirmed
  others key bytes hkey := by
    rw [Known, hopen, hseq]
    exact h.others key bytes hkey
  gathered := by
    rw [hopen]
    exact h.gathered

/-- The open object has a batch of a call that has not returned, after these. -/
structure Pushed (state : SinkState) (base : List RecordBatch) (batch : RecordBatch) (pending : Pending) : Prop where
  isOpen : state.openObject = some pending
  batches : pending.batches = base ++ [batch]
  own : state.ownRows = batch.numRows
  filled : batch.numRows ≠ 0

variable {base : List RecordBatch} {batch : RecordBatch}

theorem takeBack_of_pushed (hpushed : Pushed state base batch pending) : state.takeBack = { state with
    openObject := if base.isEmpty && !pending.attempted then none
      else some { pending with batches := base, rows := pending.rows - batch.numRows, encoder := none }
    ownRows := 0 } := by
  rw [SinkState.takeBack, if_neg (by rw [hpushed.own]; exact hpushed.filled), hpushed.isOpen]
  dsimp only
  rw [hpushed.batches, List.dropLast_concat, hpushed.own]

/-- Taking a batch back leaves what was there before. -/
theorem takeBack_pushed (h : Stored shared objects state store) (hpushed : Pushed state base batch pending) :
    Stored shared objects state.takeBack store ∧ held state.takeBack = base ∧ state.takeBack.ownRows = 0 ∧
      state.takeBack.finished = state.finished := by
  rw [takeBack_of_pushed hpushed]
  have hgathered := h.gathered pending hpushed.isOpen
  have hback : Gathered { pending with batches := base, rows := pending.rows - batch.numRows, encoder := none } := by
    refine ⟨?_, fun other hother => ?_, nofun⟩
    · have hrows := hgathered.rows
      rw [hpushed.batches, rowsOf, List.map_append, List.sum_append] at hrows
      dsimp only
      rw [hrows, rowsOf, List.map_singleton, List.sum_singleton, Nat.add_sub_cancel]
    · exact hgathered.filled other (hpushed.batches ▸ List.mem_append_left _ hother)
  cases hgone : base.isEmpty && !pending.attempted with
  | true =>
    rw [Bool.and_eq_true, List.isEmpty_iff, Bool.not_eq_true'] at hgone
    obtain ⟨rfl, huntried⟩ := hgone
    refine ⟨⟨h.seq, h.confirmed, fun key bytes hkey => .inl ?_, nofun⟩, rfl, rfl, rfl⟩
    refine (h.others key bytes hkey).resolve_right fun ⟨other, hother, htried, _⟩ => ?_
    cases hpushed.isOpen.symm.trans hother
    exact Bool.false_ne_true (huntried.symm.trans htried)
  | false =>
    refine ⟨⟨h.seq, h.confirmed, fun key bytes hkey => ?_, fun other hother => ?_⟩, rfl, rfl, rfl⟩
    · refine (h.others key bytes hkey).imp_right fun ⟨other, hother, htried, hsame⟩ => ?_
      cases hpushed.isOpen.symm.trans hother
      exact ⟨_, rfl, htried, hsame⟩
    · cases hother
      exact hback

/-- What a push changes of an object. -/
theorem push_spec (pending : Pending) (batch : RecordBatch) (now : Int) :
    (pending.push batch now).batches = pending.batches ++ [batch] ∧
      (pending.push batch now).rows = pending.rows + batch.numRows ∧
      (pending.push batch now).encoder = pending.encoder ∧
      (pending.push batch now).attempted = pending.attempted ∧
      (pending.attempted = true → (pending.push batch now).openedAt = pending.openedAt) := by
  by_cases hempty : pending.batches.isEmpty
  · rw [Pending.push, if_pos hempty]
    exact ⟨rfl, rfl, rfl, rfl, fun htried => if_pos htried⟩
  · rw [Pending.push, if_neg hempty]
    exact ⟨rfl, rfl, rfl, rfl, fun _ => rfl⟩

/-- The object that a batch goes to. -/
theorem gathered_getD (h : Stored shared objects state store) (hown : state.ownRows = 0) (now : Int) :
    Gathered (state.openObject.getD (.new now)) ∧ (state.openObject.getD (.new now)).batches = held state ∧
      ((state.openObject.getD (.new now)).attempted = true →
        state.openObject = some (state.openObject.getD (.new now))) := by
  cases hopen : state.openObject with
  | none =>
    refine ⟨⟨rfl, nofun, nofun⟩, ?_, fun htried => nomatch htried⟩
    rw [held, hopen]
    rfl
  | some pending => exact ⟨h.gathered pending hopen, (held_of_settled hopen hown).symm, fun _ => rfl⟩

/-- A batch that is pushed, under an encoder that has been dropped or has written all of the batches. -/
theorem stored_push (h : Stored shared objects state store) (hown : state.ownRows = 0)
    (hfilled : batch.numRows ≠ 0) (now : Int) {encoder : Option (List RecordBatch)}
    (hencoder : ∀ written, encoder = some written → written = held state ++ [batch]) :
    let pushed : SinkState := { state with
      ownRows := batch.numRows
      openObject := some { (state.openObject.getD (.new now)).push batch now with encoder } }
    Stored shared objects pushed store ∧
      Pushed pushed (held state) batch { (state.openObject.getD (.new now)).push batch now with encoder } := by
  obtain ⟨hgathered, hheld, htriedOpen⟩ := gathered_getD h hown now
  obtain ⟨hbatches, hrows, -, hattempted, hopenedAt⟩ :=
    push_spec (state.openObject.getD (.new now)) batch now
  rw [hheld] at hbatches
  refine ⟨⟨h.seq, h.confirmed, fun key bytes hkey => ?_, fun other hother => ?_⟩, rfl, hbatches, rfl, hfilled⟩
  · refine (h.others key bytes hkey).imp_right fun ⟨other, hother, htried, hsame⟩ => ?_
    rw [hother, Option.getD_some] at hattempted hopenedAt
    refine ⟨_, rfl, ?_, ?_⟩
    · dsimp only
      rw [hother, Option.getD_some, hattempted, htried]
    · dsimp only
      rw [hother, Option.getD_some, hopenedAt htried]
      exact hsame
  · cases hother
    refine ⟨?_, fun other hother => ?_, fun written hwritten => ?_⟩
    · dsimp only
      rw [hrows, hbatches, hgathered.rows, hheld, rowsOf, rowsOf, List.map_append, List.sum_append,
        List.map_singleton, List.sum_singleton]
    · dsimp only at hother
      rw [hbatches, List.mem_append, List.mem_singleton] at hother
      rcases hother with hold | rfl
      · exact hgathered.filled other (hheld.symm ▸ hold)
      · exact hfilled
    · exact (hencoder written hwritten).trans hbatches.symm

/-- The encoder goes with the batch. -/
theorem takeBack_withoutEncoder (state : SinkState) (pending : Pending) {own : Nat} (hown : own ≠ 0) :
    { state with openObject := some pending, ownRows := own }.takeBack =
      { state with openObject := some { pending with encoder := none }, ownRows := own }.takeBack := by
  rw [SinkState.takeBack, SinkState.takeBack, if_neg hown, if_neg hown]

/-- A batch is accepted into the open object, or taken back out of it. -/
theorem accept_spec (h : Stored shared objects state store) (hown : state.ownRows = 0)
    (hfilled : batch.numRows ≠ 0) {now : Int} {encoded answer : SaciResult Unit}
    (heq : state.accept batch now encoded = (state', answer)) :
    Stored shared objects state' store ∧ state'.finished = state.finished ∧
      (∀ e, answer = .error e → held state' = held state ∧ state'.ownRows = 0) ∧
      (answer = .ok () → ∃ pending, Pushed state' (held state) batch pending) := by
  unfold SinkState.accept at heq
  cases encoded with
  | error e =>
    dsimp only at heq
    rw [takeBack_withoutEncoder _ _ hfilled] at heq
    cases heq
    have hnone : ∀ written, (none : Option (List RecordBatch)) = some written → written = held state ++ [batch] :=
      (by rintro _ ⟨⟩)
    obtain ⟨hstored, hpushed⟩ := stored_push h hown hfilled now hnone
    obtain ⟨hback, hheld, hsettled, hfinished⟩ := takeBack_pushed hstored hpushed
    exact ⟨hback, hfinished, fun _ _ => ⟨hheld, hsettled⟩, by rintro ⟨⟩⟩
  | ok u =>
    obtain ⟨hgathered, hheld, -⟩ := gathered_getD h hown now
    obtain ⟨hbatches, -, hencoder, -, -⟩ := push_spec (state.openObject.getD (.new now)) batch now
    dsimp only at heq
    split at heq
    · rename_i written hsome
      cases heq
      have hmirror : ∀ w, some (written ++ [batch]) = some w → w = held state ++ [batch] := by
        rintro _ ⟨⟩
        rw [hgathered.encoder written (hencoder ▸ hsome), hheld]
      obtain ⟨hstored, hpushed⟩ := stored_push h hown hfilled now hmirror
      exact ⟨hstored, rfl, (by rintro _ ⟨⟩), fun _ => ⟨_, hpushed⟩⟩
    · cases heq
      have hmirror : ∀ w, some ((state.openObject.getD (.new now)).push batch now).batches = some w →
          w = held state ++ [batch] := by
        rintro _ ⟨⟩
        rw [hbatches, hheld]
      obtain ⟨hstored, hpushed⟩ := stored_push h hown hfilled now hmirror
      exact ⟨hstored, rfl, (by rintro _ ⟨⟩), fun _ => ⟨_, hpushed⟩⟩

/-! ## Runs -/

/-- The batches that have rows. -/
def filled (batches : List RecordBatch) : List RecordBatch := batches.filter fun batch => batch.numRows ≠ 0

theorem filled_concat (batches : List RecordBatch) (hfilled : batch.numRows ≠ 0) :
    filled (batches ++ [batch]) = filled batches ++ [batch] := by
  simp [filled, hfilled]

theorem filled_concat_empty (batches : List RecordBatch) (hempty : batch.numRows = 0) :
    filled (batches ++ [batch]) = filled batches := by
  simp [filled, hempty]

/-- What holds of a sink and its bucket between two calls. -/
structure Kept (shared : SinkShared) (objects : List (Int × List RecordBatch)) (world : World) : Prop where
  stored : Stored shared objects world.state world.store
  accepted : filled world.accepted = objects.flatMap Prod.snd ++ held world.state
  own : world.state.ownRows ≠ 0 → ∃ pending base batch, Pushed world.state base batch pending ∧
    world.outstanding = some batch
  empty : world.state.ownRows = 0 → ∀ pending, world.state.openObject = some pending → pending.batches = [] →
    ∃ batch, world.outstanding = some batch ∧ batch.numRows ≠ 0
  finished : world.state.finished = true → world.state.ownRows = 0 ∧
    ∀ pending, world.state.openObject = some pending → pending.batches = []

/-- Every batch that failed is written again, until it is accepted. -/
def Redriven (shared : SinkShared) : World → List Event → Prop
  | _, [] => True
  | world, event :: events =>
    (∀ batch now encoded upload, event = .write batch now encoded upload →
      ∀ failed, world.outstanding = some failed → batch = failed) ∧
    Redriven shared (step shared world event) events

variable {world : World}

theorem held_of_pushed (hpushed : Pushed state base batch pending) : held state = base := by
  rw [held, hpushed.isOpen]
  dsimp only
  rw [if_neg (by rw [hpushed.own]; exact hpushed.filled), hpushed.batches, List.dropLast_concat]

/-- Every call starts by taking back what a dropped one has left. -/
theorem Kept.takeBack (h : Kept shared objects world) :
    Kept shared objects { world with state := world.state.takeBack } ∧ world.state.takeBack.ownRows = 0 ∧
      world.state.takeBack.finished = world.state.finished := by
  by_cases hown : world.state.ownRows = 0
  · have hsame : world.state.takeBack = world.state := if_pos hown
    rw [hsame]
    exact ⟨h, hown, rfl⟩
  · obtain ⟨pending, base, batch, hpushed, houtstanding⟩ := h.own hown
    obtain ⟨hstored, hheld, hsettled, hfinished⟩ := takeBack_pushed h.stored hpushed
    refine ⟨⟨hstored, ?_, fun hne => absurd hsettled hne, fun _ _ _ _ => ⟨batch, houtstanding, hpushed.filled⟩,
      fun hfin => absurd (h.finished (hfinished.symm.trans hfin)).1 hown⟩, hsettled, hfinished⟩
    rw [h.accepted, hheld, held_of_pushed hpushed]

/-- What is due for an upload is confirmed, or kept. -/
theorem Kept.flush (hjoins : shared.library.Joins) (h : Kept shared objects world)
    (hown : world.state.ownRows = 0) {upload : Upload} {answer : Option (SaciResult Unit)}
    (heq : flushLocked shared world.state world.store upload = (state', store', answer)) :
    (∃ objects', Kept shared objects' { world with state := state', store := store' }) ∧
      state'.ownRows = 0 ∧
      (answer = some (.ok ()) → ∀ pending, state'.openObject = some pending → pending.batches = []) := by
  cases flushLocked_flushed hjoins h.stored heq with
  | nothing hempty hstored => exact ⟨⟨objects, { h with stored := hstored }⟩, hown, fun _ => hempty⟩
  | uploaded pending isOpen hfilled hstored =>
    refine ⟨⟨_, hstored, ?_, fun hne => absurd hown hne, nofun, fun hfin => ?_⟩, hown, nofun⟩
    · rw [h.accepted, held_of_settled isOpen hown, List.flatMap_append, List.flatMap_singleton]
      exact (List.append_nil _).symm
    · exact absurd ((h.finished hfin).2 pending isOpen) hfilled
  | kept pending isOpen hfilled attempted _ hfailed _ hstored =>
    refine ⟨⟨objects, hstored, ?_, fun hne => absurd hown hne, ?_, fun hfin => ?_⟩, hown,
      fun hok => absurd hok hfailed⟩
    · rw [h.accepted, held_of_settled isOpen hown]
      exact congrArg _ (if_pos hown).symm
    · intro _ other hother hnil
      cases hother
      exact h.empty hown pending isOpen hnil
    · exact absurd ((h.finished hfin).2 pending isOpen) hfilled

/-- A batch that was pushed and is not uploaded: kept where the call returns `Ok`. -/
theorem kept_of_pushed {accepted : List RecordBatch} (h : Stored shared objects state store)
    (hpushed : Pushed state base batch pending) (hopen : state.finished = false)
    (haccepted : filled accepted = objects.flatMap Prod.snd ++ base) :
    Kept shared objects ⟨{ state with ownRows := 0 }, store, accepted ++ [batch], none⟩ where
  stored := h.congr rfl rfl
  accepted := by
    have hisOpen : { state with ownRows := 0 }.openObject = some pending := hpushed.isOpen
    have hheld := (held_of_settled hisOpen rfl).trans hpushed.batches
    rw [filled_concat _ hpushed.filled, haccepted, hheld, List.append_assoc]
  own hne := absurd rfl hne
  empty _ other hother hnil := by
    cases hpushed.isOpen.symm.trans hother
    rw [hpushed.batches] at hnil
    exact absurd hnil (List.append_ne_nil_of_right_ne_nil _ (List.cons_ne_nil _ _))
  finished hfin := absurd (hopen.symm.trans hfin) Bool.false_ne_true

/-- A batch that was taken back. -/
theorem kept_of_takenBack {accepted : List RecordBatch} (h : Stored shared objects state store)
    (hheld : held state = base) (hown : state.ownRows = 0) (hopen : state.finished = false)
    (hfilled : batch.numRows ≠ 0) (haccepted : filled accepted = objects.flatMap Prod.snd ++ base) :
    Kept shared objects ⟨state, store, accepted, some batch⟩ where
  stored := h
  accepted := haccepted.trans (congrArg _ hheld.symm)
  own hne := absurd hown hne
  empty _ _ _ _ := ⟨batch, rfl, hfilled⟩
  finished hfin := absurd (hopen.symm.trans hfin) Bool.false_ne_true

/-- The upload of a call that has pushed its batch: confirmed, taken back, or left as the call is dropped. -/
theorem flush_of_pushed (hjoins : shared.library.Joins) {accepted : List RecordBatch}
    (h : Stored shared objects state store) (hpushed : Pushed state base batch pending)
    (hopen : state.finished = false) (haccepted : filled accepted = objects.flatMap Prod.snd ++ base)
    {upload : Upload} {answer : Option (SaciResult Unit)}
    (heq : flushLocked shared state store upload = (state', store', answer)) :
    (answer = some (.ok ()) →
      ∃ objects', Kept shared objects' ⟨{ state' with ownRows := 0 }, store', accepted ++ [batch], none⟩) ∧
    ((∃ e, answer = some (.error e)) → Kept shared objects ⟨state'.takeBack, store', accepted, some batch⟩) ∧
    (answer = none → Kept shared objects ⟨state', store', accepted, some batch⟩) := by
  cases flushLocked_flushed hjoins h heq with
  | nothing hempty hstored =>
    have hnil := hempty pending hpushed.isOpen
    rw [hpushed.batches] at hnil
    exact absurd hnil (List.append_ne_nil_of_right_ne_nil _ (List.cons_ne_nil _ _))
  | uploaded other isOpen hfilled hstored =>
    cases hpushed.isOpen.symm.trans isOpen
    refine ⟨fun _ => ⟨_, hstored.congr rfl rfl, ?_, fun hne => absurd rfl hne, nofun, fun hfin => ?_⟩,
      (fun ⟨_, he⟩ => nomatch he), nofun⟩
    · rw [filled_concat _ hpushed.filled, haccepted, List.flatMap_append, List.flatMap_singleton, hpushed.batches,
        List.append_assoc]
      exact (List.append_nil _).symm
    · exact absurd (hopen.symm.trans hfin) Bool.false_ne_true
  | kept other isOpen hfilled attempted _ hfailed _ hstored =>
    cases hpushed.isOpen.symm.trans isOpen
    have hstill : Pushed { state with openObject := some { pending with encoder := none, attempted } } base batch
        { pending with encoder := none, attempted } := ⟨rfl, hpushed.batches, hpushed.own, hpushed.filled⟩
    refine ⟨fun hok => absurd hok hfailed, fun _ => ?_, fun _ => ?_⟩
    · obtain ⟨hback, hheld, hsettled, hfinished⟩ := takeBack_pushed hstored hstill
      exact kept_of_takenBack hback hheld hsettled (hfinished.trans hopen) hpushed.filled haccepted
    · refine ⟨hstored, haccepted.trans (congrArg _ (held_of_pushed hstill).symm),
        fun _ => ⟨_, _, _, hstill, rfl⟩, fun hown => ?_, fun hfin => ?_⟩
      · exact absurd (hpushed.own.symm.trans hown) hpushed.filled
      · exact absurd (hopen.symm.trans hfin) Bool.false_ne_true

theorem write_kept (hjoins : shared.library.Joins) (h : Kept shared objects world) {now : Int}
    {encoded : SaciResult Unit} {upload : Upload}
    (hredriven : ∀ failed, world.outstanding = some failed → batch = failed) :
    ∃ objects', Kept shared objects' (step shared world (.write batch now encoded upload)) := by
  rw [step, writeBatch]
  split_ifs with hfinished hempty
  · refine ⟨objects, h.stored, h.accepted, fun hown => absurd (h.finished hfinished).1 hown, ?_, h.finished⟩
    intro hown pending hopen hnil
    obtain ⟨failed, houtstanding, hfilled⟩ := h.empty hown pending hopen hnil
    exact ⟨batch, rfl, hredriven failed houtstanding ▸ hfilled⟩
  · obtain ⟨hback, hown, hfin⟩ := h.takeBack
    refine ⟨objects, hback.stored, ?_, fun hne => absurd hown hne, ?_, hback.finished⟩
    · exact (filled_concat_empty _ hempty).trans hback.accepted
    · intro _ pending hopen hnil
      obtain ⟨failed, houtstanding, hfilled⟩ := hback.empty hown pending hopen hnil
      exact absurd hempty (hredriven failed houtstanding ▸ hfilled)
  · obtain ⟨hback, hown, hfin⟩ := h.takeBack
    have hopen : world.state.takeBack.finished = false := hfin.trans (Bool.eq_false_of_not_eq_true hfinished)
    dsimp only
    rcases haccept : world.state.takeBack.accept batch now encoded with ⟨state₁, answer₁⟩
    obtain ⟨hstored, hfin₁, herror, hok⟩ := accept_spec hback.stored hown hempty haccept
    have hopen₁ := hfin₁.trans hopen
    cases answer₁ with
    | error e =>
      obtain ⟨hheld, hsettled⟩ := herror e rfl
      exact ⟨objects, kept_of_takenBack hstored hheld hsettled hopen₁ hempty hback.accepted⟩
    | ok u =>
      obtain ⟨pending, hpushed⟩ := hok rfl
      dsimp only
      split_ifs with hdue
      · rcases hflush : flushLocked shared state₁ world.store upload with ⟨state₂, store₂, answer₂⟩
        obtain ⟨hconfirmed, hfailed, hdropped⟩ :=
          flush_of_pushed hjoins hstored hpushed hopen₁ hback.accepted hflush
        match answer₂ with
        | none => exact ⟨objects, hdropped rfl⟩
        | some (.error e) => exact ⟨objects, hfailed ⟨e, rfl⟩⟩
        | some (.ok ()) => exact hconfirmed rfl
      · exact ⟨objects, kept_of_pushed hstored hpushed hopen₁ hback.accepted⟩

theorem tick_kept (hjoins : shared.library.Joins) (h : Kept shared objects world) (now : Int) (upload : Upload) :
    ∃ objects', Kept shared objects' (step shared world (.tick now upload)) := by
  rw [step, tick]
  split_ifs with hfinished
  · exact ⟨objects, h⟩
  · obtain ⟨hback, hown, -⟩ := h.takeBack
    dsimp only
    split_ifs with hdue
    · rcases hflush : flushLocked shared world.state.takeBack world.store upload with ⟨state', store', answer⟩
      exact (hback.flush hjoins hown hflush).1
    · exact ⟨objects, hback⟩

theorem finish_kept (hjoins : shared.library.Joins) (h : Kept shared objects world) (upload : Upload) :
    ∃ objects', Kept shared objects' (step shared world (.finish upload)) := by
  obtain ⟨hback, hown, -⟩ := h.takeBack
  rw [step, finish]
  rcases hflush : flushLocked shared world.state.takeBack world.store upload with ⟨state', store', answer⟩
  obtain ⟨⟨objects', hkept⟩, hsettled, hempty⟩ := hback.flush hjoins hown hflush
  match answer with
  | none => exact ⟨objects', hkept⟩
  | some (.error e) => exact ⟨objects', hkept⟩
  | some (.ok ()) =>
    exact ⟨objects', hkept.stored.congr rfl rfl, hkept.accepted, fun hne => absurd hsettled hne, hkept.empty,
      fun _ => ⟨hsettled, hempty rfl⟩⟩

theorem run_kept (hjoins : shared.library.Joins) {events : List Event} (h : ∃ objects, Kept shared objects world)
    (hredriven : Redriven shared world events) : ∃ objects, Kept shared objects (run shared world events) := by
  induction events generalizing world with
  | nil => exact h
  | cons event events ih =>
    obtain ⟨objects, hkept⟩ := h
    refine ih ?_ hredriven.2
    cases event with
    | write batch now encoded upload => exact write_kept hjoins hkept (hredriven.1 batch now encoded upload rfl)
    | tick now upload => exact tick_kept hjoins hkept now upload
    | finish upload => exact finish_kept hjoins hkept upload

theorem kept_new (shared : SinkShared) : Kept shared [] .new where
  stored := ⟨rfl, nofun, nofun, nofun⟩
  accepted := rfl
  own hne := absurd rfl hne
  empty := nofun
  finished := nofun

/-! ## Once, in order, and nothing else -/

/-- The objects of a sink are these, under the numbers from zero on. -/
structure Holds (shared : SinkShared) (store : Store) (objects : List (Int × List RecordBatch)) : Prop where
  confirmed : ∀ i t batches, objects[i]? = some (t, batches) →
    store (shared.objectKey t i) = some (shared.library.object batches)
  others : ∀ key bytes, store key = some bytes →
    ∃ i t batches, objects[i]? = some (t, batches) ∧ key = shared.objectKey t i ∧
      bytes = shared.library.object batches

/-- What a sink promises of the batches it has accepted: they are in the confirmed objects and then in the
open one, and once the sink has finished they are in the objects, once each and in order, and nothing else. -/
structure RowsKept (shared : SinkShared) (world : World) : Prop where
  kept : ∃ objects : List (Int × List RecordBatch), objects.length = world.state.seq ∧
    (∀ i t batches, objects[i]? = some (t, batches) →
      world.store (shared.objectKey t i) = some (shared.library.object batches)) ∧
    filled world.accepted = objects.flatMap Prod.snd ++ held world.state
  finished : world.state.finished = true → world.outstanding = none →
    ∃ objects : List (Int × List RecordBatch), Holds shared world.store objects ∧
      filled world.accepted = objects.flatMap Prod.snd

theorem Kept.rowsKept (h : Kept shared objects world) : RowsKept shared world where
  kept := ⟨objects, h.stored.seq, h.stored.confirmed, h.accepted⟩
  finished hfinished hnone := by
    obtain ⟨hown, hempty⟩ := h.finished hfinished
    have hclosed : world.state.openObject = none := by
      cases hopen : world.state.openObject with
      | none => rfl
      | some pending =>
        obtain ⟨batch, houtstanding, -⟩ := h.empty hown pending hopen (hempty pending hopen)
        exact nomatch hnone.symm.trans houtstanding
    refine ⟨objects, ⟨h.stored.confirmed, fun key bytes hkey => ?_⟩, ?_⟩
    · rcases h.stored.others key bytes hkey with ⟨i, t, batches, hi, rfl⟩ | ⟨pending, hopen, -⟩
      · exact ⟨i, t, batches, hi, rfl, Option.some.inj (hkey.symm.trans (h.stored.confirmed i t batches hi))⟩
      · exact nomatch hclosed.symm.trans hopen
    · have hheld : held world.state = [] := by
        rw [held, hclosed]
      rw [h.accepted, hheld, List.append_nil]

/-- **Rows of the sink.** However calls and ticks interleave, and whatever fails, lands unreported or is
dropped, every accepted batch is in a confirmed object or in the open one; and in the objects exactly once,
in order, with nothing else, once `finish` has returned. -/
theorem rows_kept (hjoins : shared.library.Joins) (events : List Event) (hredriven : Redriven shared .new events) :
    RowsKept shared (run shared .new events) := by
  obtain ⟨objects, h⟩ := run_kept hjoins ⟨[], kept_new shared⟩ hredriven
  exact h.rowsKept

end Saci.S3

namespace Saci.S3.Sample

/-- A byte for each batch. -/
def library : Library where
  timestamp _ := "20250115T104000.123Z"
  join keyPrefix stem := keyPrefix ++ "/" ++ stem
  object batches := batches.map fun batch => UInt8.ofNat batch.numRows
  buffered _ := 0

/-- A sink that uploads at every row. -/
def shared : SinkShared := ⟨library, "orders", ".csv", ⟨1, 0, 0⟩⟩

theorem joins_library : library.Joins := fun keyPrefix a b h => by
  have htext : (keyPrefix ++ "/" ++ a).toList = (keyPrefix ++ "/" ++ b).toList := congrArg String.toList h
  rw [String.toList_append, @String.toList_append (keyPrefix ++ "/") b] at htext
  exact String.toList_inj.mp (List.append_cancel_left htext)

def batch : RecordBatch := ⟨⟨[]⟩, [[]]⟩

/-- The upload of the first write lands and is reported failed, that of the second is dropped. -/
def events : List Event :=
  [.write batch 0 (.ok ()) ⟨.ok (), .failed true "timeout"⟩, .write batch 5 (.ok ()) ⟨.ok (), .dropped true⟩,
    .tick 6 ⟨.ok (), .ok⟩, .write batch 7 (.ok ()) ⟨.ok (), .ok⟩, .finish ⟨.ok (), .ok⟩]

theorem redriven_write {world : World} {other : RecordBatch} {now : Int} {encoded : SaciResult Unit}
    {upload : Upload} (h : world.outstanding = none ∨ world.outstanding = some other) :
    ∀ batch' now' encoded' upload', Event.write other now encoded upload = .write batch' now' encoded' upload' →
      ∀ failed, world.outstanding = some failed → batch' = failed := by
  rintro _ _ _ _ ⟨⟩ failed hfailed
  rcases h with hnone | hsome
  · exact nomatch hnone.symm.trans hfailed
  · exact Option.some.inj (hsome.symm.trans hfailed)

theorem rows_kept_events : RowsKept shared (run shared .new events) := by
  refine rows_kept joins_library events
    ⟨redriven_write (.inl rfl), redriven_write (.inr ?_), nofun, redriven_write (.inr ?_), nofun, trivial⟩
  · rfl
  · rfl

end Saci.S3.Sample
