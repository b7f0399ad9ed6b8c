import Saci.Library.Run
import Saci.Service.DeadLetterFates

/-!
# The schedule of the dead letter queue

Runs of one process: letters recorded, and passes that may replay. While a letter that the process
put into the store is there, the queue should not take its store for empty, and a replay should be
scheduled. That holds along every run without a replay that overlooks letters: one that leaves
messages in the store, writes nothing back, and either takes its source at its word or follows on a
replay that once read the store through.
-/

namespace Saci

variable {σ : Type} {ipc : ArrowIpcTransformer} {filter : ReplayFilter} {ctx : ReplayCtx σ}
  {trigger : DlqTrigger}

/-! ## Runs -/

/-- The queue, its store, and how many messages at the front of the store this process has not
written. -/
structure DlqWorld where
  queue : DeadLetterQueue
  store : List RecordBatch
  foreign : Nat

inductive DlqEvent (σ : Type)
  | record (refusal : DeadLetterQueue.Refusal)
  | atHead (pass : DeadLetterQueue.DlqPass σ)
  | atTail (pass : DeadLetterQueue.DlqPass σ)

namespace DlqWorld

def start (workflowId : String) (kind : DlqStoreKind) (replayPoint : DlqReplayPoint) (known : Bool)
    (store : List RecordBatch) : DlqWorld :=
  ⟨.built workflowId kind replayPoint known, store, store.length⟩

/-- A pass: what the replay has consumed is off the front of the store. -/
def pass (w : DlqWorld) (ipc : ArrowIpcTransformer) (point : DlqReplayPoint)
    (pass : DeadLetterQueue.DlqPass σ) : DlqWorld :=
  let (queue, _, store, report) := w.queue.atPoint point ipc w.store pass
  let written := (report.map DlqReplayReport.retained).getD 0
  ⟨queue, store, w.foreign - (w.store.length + written - store.length)⟩

def step (ipc : ArrowIpcTransformer) (w : DlqWorld) : DlqEvent σ → Except Empty (DlqWorld × Unit)
  | .record refusal =>
    let (queue, message) := w.queue.record ipc refusal
    .ok ({ w with queue := queue, store := w.store ++ message.toList }, ())
  | .atHead pass => .ok (w.pass ipc .beforeSources pass, ())
  | .atTail pass => .ok (w.pass ipc .afterSources pass, ())

/-- A letter that this process put into the store is still there. -/
def HasOwn (w : DlqWorld) : Prop := w.foreign < w.store.length

/-- No letter of this process is forgotten: the queue does not take the store for empty, and a
replay is scheduled that starts once it is due. -/
def Remembers (σ : Type) (ipc : ArrowIpcTransformer) (w : DlqWorld) : Prop :=
  w.HasOwn →
    ¬ (w.queue.pendingLetters = 0 ∧ w.queue.known) ∧
    ∃ due, w.queue.nextAutoReplay = some due ∧
      ∀ pass : DeadLetterQueue.DlqPass σ, pass.recovered.any id = false → pass.request = none →
        pass.cancelled = false → due ≤ pass.now →
        (w.queue.atPoint w.queue.replayPoint ipc w.store pass).2.2.2.isSome

end DlqWorld

/-! ## How far a drain reads -/

/-- The messages that a drain leaves, and whether it goes on to the reported end. -/
def readOn (purge : Bool) (held rest : List RecordBatch) : List DrainTurn → List RecordBatch × Bool
  | [] => (rest, true)
  | .cancelled :: _ => (held ++ rest, false)
  | .error _ :: _ => (rest, false)
  | .window messages :: turns =>
    if ¬ purge ∧ (decodeRows (envelopeRows (rest.take messages))).2.isSome then (rest, false)
    else readOn purge (rest.take messages) (rest.drop messages) turns

theorem drain_readOn (ipc : ArrowIpcTransformer) (filter : ReplayFilter) (ctx : ReplayCtx σ)
    (trigger : DlqTrigger) (st : Drain σ) (turns : List DrainTurn) :
    (st.drain ipc filter ctx trigger turns).held ++ (st.drain ipc filter ctx trigger turns).rest =
        (readOn (trigger = .purge) st.held st.rest turns).1 ∧
      ((st.drain ipc filter ctx trigger turns).error = none ↔
        st.error = none ∧ (readOn (trigger = .purge) st.held st.rest turns).2 = true) := by
  induction turns generalizing st with
  | nil => exact ⟨rfl, (and_iff_left rfl).symm⟩
  | cons turn turns ih =>
    cases turn with
    | cancelled => exact ⟨rfl, iff_of_false (by rintro ⟨⟩) (fun h => by cases h.2)⟩
    | error e => exact ⟨rfl, iff_of_false (by rintro ⟨⟩) (fun h => by cases h.2)⟩
    | window messages =>
      have htake : st.rest.take messages ++ st.rest.drop messages = st.rest :=
        List.take_append_drop ..
      rw [Drain.drain, readOn]
      dsimp only
      by_cases hempty : (envelopeRows (st.rest.take messages)).isEmpty
      · have hdecode : ¬ ((¬ decide (trigger = .purge) = true) ∧
            (decodeRows (envelopeRows (st.rest.take messages))).2.isSome) := by
          rw [List.isEmpty_iff.mp hempty]
          exact fun h => Bool.false_ne_true h.2
        rw [if_pos hempty, if_neg hdecode]
        exact ih { st with held := st.rest.take messages, rest := st.rest.drop messages }
      rw [if_neg hempty]
      by_cases hpurge : trigger = .purge
      · rw [if_pos hpurge, if_neg fun h => h.1 (decide_eq_true hpurge)]
        exact ih { st with
          held := st.rest.take messages
          rest := st.rest.drop messages
          window := st.retained.length
          purged := st.purged + (envelopeRows (st.rest.take messages)).length }
      rw [if_neg hpurge, offerRows_eq]
      cases hdecode : decodeRows (envelopeRows (st.rest.take messages)) with
      | mk letters error =>
        cases error with
        | some e =>
          rw [if_pos ⟨fun h => hpurge (of_decide_eq_true h), rfl⟩]
          exact ⟨htake, iff_of_false (by rintro ⟨⟩) (fun h => by cases h.2)⟩
        | none =>
          rw [if_neg fun h => Bool.false_ne_true h.2]
          exact ih (Drain.offerAll ipc filter ctx
            { st with
              held := st.rest.take messages
              rest := st.rest.drop messages
              window := st.retained.length } letters)

/-- What a replay leaves in the store unread. -/
def unread (trigger : DlqTrigger) (store : List RecordBatch) (outside : ReplayOutside) :
    List RecordBatch :=
  match outside.sourceError with
  | some _ => store
  | none => (readOn (trigger = .purge) [] store outside.turns).1

/-- The replay's source can be built and reports its end. -/
def ReportsEnd (trigger : DlqTrigger) (store : List RecordBatch) (outside : ReplayOutside) : Prop :=
  outside.sourceError = none ∧ (readOn (trigger = .purge) [] store outside.turns).2 = true

theorem drained_unread (ipc : ArrowIpcTransformer) (trigger : DlqTrigger) (filter : ReplayFilter)
    (ctx : ReplayCtx σ) (sinks : σ) (store : List RecordBatch) (outside : ReplayOutside) :
    (DeadLetterQueue.drained ipc trigger filter ctx sinks store outside).held ++
        (DeadLetterQueue.drained ipc trigger filter ctx sinks store outside).rest =
        unread trigger store outside ∧
      ((DeadLetterQueue.drained ipc trigger filter ctx sinks store outside).error = none ↔
        ReportsEnd trigger store outside) := by
  unfold DeadLetterQueue.drained unread ReportsEnd
  cases outside.sourceError with
  | some e => exact ⟨rfl, iff_of_false nofun (fun h => nomatch h.1)⟩
  | none =>
    obtain ⟨hleft, herror⟩ := drain_readOn ipc filter ctx trigger (Drain.start sinks store)
      outside.turns
    exact ⟨hleft, herror.trans ⟨fun h => ⟨rfl, h.2⟩, fun h => ⟨rfl, h.2⟩⟩⟩

/-! ## What is written back -/

/-- A replay writes a letter back: one that is in hand was kept, the recording half can be opened,
and the store takes the first write. -/
structure WritesBack (queue : DeadLetterQueue) (ipc : ArrowIpcTransformer) (trigger : DlqTrigger)
    (filter : ReplayFilter) (ctx : ReplayCtx σ) (sinks : σ) (store : List RecordBatch)
    (outside : ReplayOutside) : Prop where
  source : outside.sourceError = none
  trigger : trigger ≠ .purge
  kept : ∃ letter, .kept letter ∈
    (offers ipc filter ctx (sinks, []) (course [] store outside.turns).inHand).2
  reopened : queue.store.exclusive = false ∧ queue.sinkOpen = true ∨ outside.sinkError = none
  taken : outside.writeErrors.head?.getD none = none

namespace DeadLetterQueue

/-- The recording half as a replay leaves it closed. -/
def closed (queue : DeadLetterQueue) : DeadLetterQueue :=
  if queue.store.exclusive then { queue with sinkOpen := false } else queue

theorem reopenRecordHalf_closed (queue : DeadLetterQueue) (clock : DlqClock)
    (sinkError : Option SaciError) :
    (queue.closed.reopenRecordHalf clock sinkError).2 = true ↔
      queue.store.exclusive = false ∧ queue.sinkOpen = true ∨ sinkError = none := by
  have hreopen : ∀ q : DeadLetterQueue, (q.reopenRecordHalf clock sinkError).2 = true ↔
      q.sinkOpen = true ∨ sinkError = none := by
    intro q
    unfold reopenRecordHalf rebuildRecordHalf
    cases hopen : q.sinkOpen with
    | true => exact iff_of_true rfl (.inl rfl)
    | false =>
      cases sinkError with
      | none => exact iff_of_true rfl (.inr rfl)
      | some e => exact iff_of_false Bool.false_ne_true nofun
  rw [hreopen, closed]
  cases queue.store.exclusive with
  | true => exact ⟨fun h => .inr (h.resolve_left Bool.false_ne_true),
      fun h => .inr (h.resolve_left fun h => Bool.noConfusion h.1)⟩
  | false => exact ⟨fun h => h.imp_left fun h => ⟨rfl, h⟩, fun h => h.imp_left And.right⟩

theorem rewrite_kept_eq_nil (queue : DeadLetterQueue) (retained : List Letter)
    (outside : ReplayOutside) :
    (queue.rewrite retained outside).2.kept = [] ↔
      retained = [] ∨ (queue.reopenRecordHalf outside.clock outside.sinkError).2 = false ∨
        outside.writeErrors.head?.getD none ≠ none := by
  unfold rewrite
  cases retained with
  | nil => exact iff_of_true rfl (.inl rfl)
  | cons letter retained =>
    dsimp only [List.isEmpty_cons]
    rw [if_neg Bool.false_ne_true]
    generalize queue.reopenRecordHalf outside.clock outside.sinkError = reopened
    obtain ⟨queue, isOpen⟩ := reopened
    cases isOpen with
    | false => exact iff_of_true rfl (.inr (.inl rfl))
    | true =>
      unfold rewriteLoop
      dsimp only [Letter.toEnvelope]
      cases outside.writeErrors.head?.getD none with
      | some e => exact iff_of_true rfl (.inr (.inr (by rintro ⟨⟩)))
      | none =>
        refine iff_of_false ?_ ?_
        · dsimp only
          generalize rewriteLoop queue.workflowId retained outside.writeErrors.tail = behind
          obtain ⟨rewritten, down⟩ := behind
          cases down with
          | false => exact List.cons_ne_nil _ _
          | true => exact List.cons_ne_nil _ _
        · rintro (h | h | h)
          · exact List.cons_ne_nil _ _ h
          · exact Bool.noConfusion h
          · exact h rfl

theorem SameButRecordHalf.trans {q₁ q₂ q₃ : DeadLetterQueue} (h : q₁.SameButRecordHalf q₂)
    (h' : q₂.SameButRecordHalf q₃) : q₁.SameButRecordHalf q₃ := by
  obtain ⟨_, _, _, rfl⟩ := h
  obtain ⟨_, _, _, rfl⟩ := h'
  exact ⟨_, _, _, rfl⟩

theorem closed_same (queue : DeadLetterQueue) : queue.SameButRecordHalf queue.closed := by
  unfold closed
  split
  · exact ⟨_, _, _, rfl⟩
  · exact ⟨_, _, _, rfl⟩

theorem rewrite_same (queue : DeadLetterQueue) (retained : List Letter) (outside : ReplayOutside) :
    queue.SameButRecordHalf (queue.rewrite retained outside).1 := by
  have hreopen := queue.reopenRecordHalf_same outside.clock outside.sinkError
  unfold rewrite
  split
  · split
    · exact hreopen
    · exact ⟨_, _, _, rfl⟩
  · split
    · next h =>
      rw [h] at hreopen
      exact hreopen
    · next h =>
      rw [h] at hreopen
      split
      · exact hreopen
      · exact hreopen.trans ⟨_, _, _, rfl⟩

/-- What a replay has in hand to write back. -/
theorem drained_retained_eq_nil (ipc : ArrowIpcTransformer) (trigger : DlqTrigger)
    (filter : ReplayFilter) (ctx : ReplayCtx σ) (sinks : σ) (store : List RecordBatch) (outside : ReplayOutside) :
    (drained ipc trigger filter ctx sinks store outside).retained = [] ↔
      ¬ (outside.sourceError = none ∧ trigger ≠ .purge ∧ ∃ letter, .kept letter ∈
        (offers ipc filter ctx (sinks, []) (course [] store outside.turns).inHand).2) := by
  cases hsource : outside.sourceError with
  | some e =>
    rw [drained, hsource]
    exact iff_of_true rfl fun h => by cases h.1
  | none =>
    rw [drained_of_source hsource]
    by_cases htrigger : trigger = .purge
    · subst htrigger
      obtain ⟨_, _, _, hretained, _⟩ := drain_purge ipc filter ctx (Drain.start sinks store)
        outside.turns rfl
      exact iff_of_true hretained fun h => h.2.1 rfl
    · obtain ⟨-, -, hretained⟩ := drain_start ipc filter ctx htrigger sinks store outside.turns
      rw [hretained, List.filterMap_eq_nil_iff]
      constructor
      · rintro hnone ⟨-, -, letter, hkept⟩
        cases hnone _ hkept
      · intro h offered hoffered
        cases offered with
        | delivered index letter => rfl
        | kept letter => exact absurd ⟨rfl, htrigger, letter, hoffered⟩ h

/-- A replay's settled queue and its report, by what it wrote back. -/
theorem replay_settled (queue : DeadLetterQueue) (ipc : ArrowIpcTransformer) (trigger : DlqTrigger)
    (filter : ReplayFilter) (ctx : ReplayCtx σ) (sinks : σ) (store : List RecordBatch)
    (outside : ReplayOutside) :
    ∃ (kept : List Letter) (stored : List RecordBatch) (error : Option String)
      (rewritten : DeadLetterQueue),
      (kept = [] ↔ ¬ WritesBack queue ipc trigger filter ctx sinks store outside) ∧
      (error = none ↔ ReportsEnd trigger store outside) ∧
      queue.SameButRecordHalf rewritten ∧
      (queue.replay ipc trigger filter ctx sinks store outside).queue =
        rewritten.settle kept error outside.clock ∧
      (queue.replay ipc trigger filter ctx sinks store outside).store =
        unread trigger store outside ++ stored ∧
      (queue.replay ipc trigger filter ctx sinks store outside).report.retained = stored.length ∧
      stored.length = kept.length := by
  obtain ⟨hunread, herror⟩ := drained_unread ipc trigger filter ctx sinks store outside
  have hretained := drained_retained_eq_nil ipc trigger filter ctx sinks store outside
  generalize hst : drained ipc trigger filter ctx sinks store outside = st at *
  have hkept := queue.closed.rewrite_kept_eq_nil st.retained outside
  have hsame := queue.closed.rewrite_same st.retained outside
  obtain ⟨-, -, hlength⟩ := (queue.closed.rewrite_writtenBack st.retained outside).length_add
  refine ⟨(queue.closed.rewrite st.retained outside).2.kept,
    (queue.closed.rewrite st.retained outside).2.stored, st.error,
    (queue.closed.rewrite st.retained outside).1, ?_, herror, queue.closed_same.trans hsame,
    ?_, ?_, ?_, hlength.symm⟩
  · rw [hkept, hretained]
    have hreopen := queue.reopenRecordHalf_closed outside.clock outside.sinkError
    constructor
    · rintro h ⟨hsource, htrigger, hin, hopen, htaken⟩
      rcases h with h | h | h
      · exact h ⟨hsource, htrigger, hin⟩
      · exact Bool.noConfusion (h.symm.trans (hreopen.mpr hopen))
      · exact h htaken
    · intro h
      by_contra hnone
      obtain ⟨hin, hmore⟩ := not_or.mp hnone
      obtain ⟨hopen, htaken⟩ := not_or.mp hmore
      obtain ⟨hsource, htrigger, hin⟩ := not_not.mp hin
      exact h ⟨hsource, htrigger, hin, hreopen.mp (Bool.eq_true_of_not_eq_false hopen),
        not_not.mp htaken⟩
  · rw [replay]
    dsimp only
    rw [hst]
    rfl
  · rw [replay]
    dsimp only
    rw [hst, hunread]
    rfl
  · rw [replay]
    dsimp only
    rw [hst]
    exact hlength

end DeadLetterQueue

/-! ## Letters overlooked -/

theorem length_readOn (purge : Bool) (held rest : List RecordBatch) (turns : List DrainTurn) :
    (readOn purge held rest turns).1.length ≤ held.length + rest.length := by
  induction turns generalizing held rest with
  | nil => exact Nat.le_add_left _ _
  | cons turn turns ih =>
    cases turn with
    | cancelled => exact List.length_append.le
    | error e => exact Nat.le_add_left _ _
    | window messages =>
      rw [readOn]
      split
      · exact Nat.le_add_left _ _
      · refine (ih _ _).trans ?_
        rw [← List.length_append, List.take_append_drop]
        exact Nat.le_add_left _ _

theorem length_unread (trigger : DlqTrigger) (store : List RecordBatch) (outside : ReplayOutside) :
    (unread trigger store outside).length ≤ store.length := by
  unfold unread
  split
  · exact Nat.le_refl _
  · exact (length_readOn _ _ _ _).trans (Nat.zero_add _).le

/-- A pass whose replay overlooks a letter of this process: it leaves messages in the store and
writes nothing back, and its source reports its end all the same, or a replay has read the store
through before. -/
structure PassOverlooks (w : DlqWorld) (ipc : ArrowIpcTransformer) (point : DlqReplayPoint)
    (pass : DeadLetterQueue.DlqPass σ) (trigger : DlqTrigger) (filter : ReplayFilter) : Prop where
  due : w.queue.replayPoint = point
  starts : w.queue.maybeTrigger (pass.recovered.any id) pass.request pass.cancelled pass.now =
    some (trigger, filter)
  own : w.HasOwn
  leaves : unread trigger w.store pass.outside ≠ []
  unwritten : ¬ WritesBack w.queue ipc trigger filter pass.ctx pass.sinks w.store pass.outside
  blind : ReportsEnd trigger w.store pass.outside ∨ w.queue.known = true

def DlqEvent.Overlooks (ipc : ArrowIpcTransformer) (w : DlqWorld) : DlqEvent σ → Prop
  | .record _ => False
  | .atHead pass => ∃ trigger filter, PassOverlooks w ipc .beforeSources pass trigger filter
  | .atTail pass => ∃ trigger filter, PassOverlooks w ipc .afterSources pass trigger filter

/-! ## What a run keeps -/

namespace DlqWorld

/-- The fields behind `Remembers`, and that a store has no more foreign messages than messages. -/
structure Minds (w : DlqWorld) : Prop where
  foreign : w.foreign ≤ w.store.length
  unknown : w.HasOwn → ¬ (w.queue.pendingLetters = 0 ∧ w.queue.known)
  scheduled : w.HasOwn → w.queue.nextAutoReplay ≠ none

/-- With the queue not taken for empty and a replay scheduled, the replay starts. -/
theorem Minds.remembers {w : DlqWorld} (h : w.Minds) (σ : Type) (ipc : ArrowIpcTransformer) :
    w.Remembers σ ipc := by
  intro hown
  obtain ⟨due, hdue⟩ := Option.ne_none_iff_exists'.mp (h.scheduled hown)
  refine ⟨h.unknown hown, due, hdue, fun pass hhealed hrequest hcancelled hnow => ?_⟩
  rw [DeadLetterQueue.atPoint, if_pos rfl, DeadLetterQueue.maybeReplay]
  have hstarts : ∃ start, w.queue.maybeTrigger (pass.recovered.any id) pass.request pass.cancelled
      pass.now = some start := by
    unfold DeadLetterQueue.maybeTrigger
    rw [hrequest, hcancelled, hhealed]
    dsimp only
    rw [if_neg Bool.false_ne_true]
    split
    · exact ⟨_, rfl⟩
    · rw [if_neg (h.unknown hown), if_neg Bool.false_ne_true, hdue, Option.any_some,
        if_pos (decide_eq_true hnow)]
      exact ⟨_, rfl⟩
  obtain ⟨⟨trigger, filter⟩, hstart⟩ := hstarts
  rw [hstart]
  rfl

theorem Remembers.minds {w : DlqWorld} (hforeign : w.foreign ≤ w.store.length)
    (h : w.Remembers σ ipc) : w.Minds := by
  refine ⟨hforeign, fun hown => (h hown).1, fun hown => ?_⟩
  obtain ⟨-, due, hdue, -⟩ := h hown
  rw [hdue]
  exact Option.some_ne_none due

/-- Recording a letter schedules a replay; a letter lost changes nothing that matters. -/
theorem Minds.record {w : DlqWorld} (h : w.Minds) (ipc : ArrowIpcTransformer)
    (refusal : DeadLetterQueue.Refusal) :
    Minds ⟨(w.queue.record ipc refusal).1,
      w.store ++ (w.queue.record ipc refusal).2.toList, w.foreign⟩ := by
  obtain ⟨hforeign, hunknown, hscheduled⟩ := h
  have hsame := w.queue.rebuildRecordHalf_same refusal.clock refusal.sinkError
  have hlost : ∀ queue : DeadLetterQueue, w.queue.SameButRecordHalf queue →
      Minds ⟨queue, w.store ++ [], w.foreign⟩ := by
    rintro queue ⟨_, _, _, rfl⟩
    rw [List.append_nil]
    exact ⟨hforeign, hunknown, hscheduled⟩
  unfold DeadLetterQueue.record
  split
  · next hdown =>
    rw [hdown] at hsame
    exact hlost _ hsame
  · next queue hopen =>
    rw [hopen] at hsame
    dsimp only
    split
    · exact hlost _ hsame
    · next envelope henvelope =>
      split
      · refine ⟨?_, fun _ => ?_, fun _ => ?_⟩
        · exact hforeign.trans (List.length_append.symm ▸ Nat.le_add_right _ _)
        · unfold DeadLetterQueue.scheduleAutoReplay
          split
          · exact fun h => Nat.succ_ne_zero _ h.1
          · exact fun h => Nat.succ_ne_zero _ h.1
        · unfold DeadLetterQueue.scheduleAutoReplay
          split
          · exact Option.some_ne_none _
          · next hnext => exact hnext
      · exact hlost _ (hsame.trans ⟨_, _, _, rfl⟩)

theorem pass_of_ne {w : DlqWorld} {point : DlqReplayPoint} (h : w.queue.replayPoint ≠ point)
    (ipc : ArrowIpcTransformer) (pass : DeadLetterQueue.DlqPass σ) : w.pass ipc point pass = w := by
  unfold DlqWorld.pass DeadLetterQueue.atPoint
  rw [if_neg h]
  have hsame : w.foreign - (w.store.length + 0 - w.store.length) = w.foreign := by omega
  exact congrArg (DlqWorld.mk w.queue w.store) hsame

theorem pass_of_none {w : DlqWorld} {point : DlqReplayPoint} {pass : DeadLetterQueue.DlqPass σ}
    (h : w.queue.replayPoint = point)
    (hstart : w.queue.maybeTrigger (pass.recovered.any id) pass.request pass.cancelled pass.now =
      none) (ipc : ArrowIpcTransformer) :
    w.pass ipc point pass = { w with queue := { w.queue with startedOnce := true } } := by
  unfold DlqWorld.pass DeadLetterQueue.atPoint DeadLetterQueue.maybeReplay
  rw [if_pos h, hstart]
  have hsame : w.foreign - (w.store.length + 0 - w.store.length) = w.foreign := by omega
  exact congrArg (DlqWorld.mk { w.queue with startedOnce := true } w.store) hsame

/-- A pass that replays: what the replay wrote stands behind what it left unread. -/
theorem pass_of_some {w : DlqWorld} {point : DlqReplayPoint} {pass : DeadLetterQueue.DlqPass σ}
    (h : w.queue.replayPoint = point)
    (hstart : w.queue.maybeTrigger (pass.recovered.any id) pass.request pass.cancelled pass.now =
      some (trigger, filter)) (ipc : ArrowIpcTransformer) :
    ∃ (kept : List Letter) (stored : List RecordBatch) (error : Option String)
      (rewritten : DeadLetterQueue),
      (kept = [] ↔
        ¬ WritesBack w.queue ipc trigger filter pass.ctx pass.sinks w.store pass.outside) ∧
      (error = none ↔ ReportsEnd trigger w.store pass.outside) ∧
      rewritten.known = w.queue.known ∧ stored.length = kept.length ∧
      w.pass ipc point pass =
        ⟨rewritten.settle kept error pass.outside.clock,
          unread trigger w.store pass.outside ++ stored,
          w.foreign - (w.store.length + stored.length -
            ((unread trigger w.store pass.outside).length + stored.length))⟩ := by
  obtain ⟨kept, stored, error, rewritten, hkept, herror, hsame, hqueue, hstore, hretained,
    hstored⟩ := DeadLetterQueue.replay_settled { w.queue with startedOnce := true } ipc trigger
      filter pass.ctx pass.sinks w.store pass.outside
  refine ⟨kept, stored, error, rewritten, hkept.trans (not_congr ?_), herror, ?_, hstored, ?_⟩
  · exact ⟨fun h => ⟨h.source, h.trigger, h.kept, h.reopened, h.taken⟩,
      fun h => ⟨h.source, h.trigger, h.kept, h.reopened, h.taken⟩⟩
  · obtain ⟨_, _, _, rfl⟩ := hsame
    rfl
  · unfold DlqWorld.pass DeadLetterQueue.atPoint DeadLetterQueue.maybeReplay
    rw [if_pos h, hstart]
    dsimp only
    rw [hqueue, hstore, Option.map_some, Option.getD_some, hretained, List.length_append]

end DlqWorld

namespace DeadLetterQueue

theorem settle_nil (queue : DeadLetterQueue) (error : Option String) (clock : DlqClock) :
    (queue.settle [] error clock).pendingLetters = 0 ∧
      (queue.settle [] error clock).known =
        (queue.known || (error.isNone && queue.store.confirmsEnd)) ∧
      ((queue.settle [] error clock).nextAutoReplay = none ↔ error = none) := by
  unfold settle
  cases error with
  | none => exact ⟨rfl, rfl, iff_of_true rfl rfl⟩
  | some e => exact ⟨rfl, rfl, iff_of_false (Option.some_ne_none _) (Option.some_ne_none _)⟩

theorem settle_cons (queue : DeadLetterQueue) {kept : List Letter} (hkept : kept ≠ [])
    (error : Option String) (clock : DlqClock) :
    (queue.settle kept error clock).pendingLetters ≠ 0 ∧
      (queue.settle kept error clock).nextAutoReplay ≠ none := by
  have hempty : ¬ (kept.isEmpty ∧ error.isNone) := fun h => hkept (List.isEmpty_iff.mp h.1)
  unfold settle
  dsimp only
  rw [if_neg hempty]
  exact ⟨fun h => hkept (List.eq_nil_of_length_eq_zero h), Option.some_ne_none _⟩

end DeadLetterQueue

namespace DlqWorld

/-- Of what is in the store behind a replay, this process wrote something if it just did, or if it
had and the replay did not come to the end. -/
theorem hasOwn_replayed {total foreign : Nat} {left stored : List RecordBatch}
    (hforeign : foreign ≤ total) (hleft : left.length ≤ total) (queue : DeadLetterQueue) :
    HasOwn ⟨queue, left ++ stored,
        foreign - (total + stored.length - (left.length + stored.length))⟩ ↔
      stored ≠ [] ∨ left ≠ [] ∧ foreign < total := by
  rw [HasOwn, List.length_append, ← List.length_pos_iff, ← List.length_pos_iff]
  dsimp only
  omega

/-- A store never has more foreign messages than messages. -/
theorem foreign_pass {w : DlqWorld} (h : w.foreign ≤ w.store.length) (ipc : ArrowIpcTransformer)
    (point : DlqReplayPoint) (pass : DeadLetterQueue.DlqPass σ) :
    (w.pass ipc point pass).foreign ≤ (w.pass ipc point pass).store.length := by
  by_cases hpoint : w.queue.replayPoint = point
  · cases hstart : w.queue.maybeTrigger (pass.recovered.any id) pass.request pass.cancelled
        pass.now with
    | none =>
      rw [pass_of_none hpoint hstart]
      exact h
    | some start =>
      obtain ⟨trigger, filter⟩ := start
      obtain ⟨kept, stored, error, rewritten, -, -, -, -, hpass⟩ := pass_of_some hpoint hstart ipc
      have hleft := length_unread trigger w.store pass.outside
      rw [hpass, List.length_append]
      dsimp only
      omega
  · rw [pass_of_ne hpoint]
    exact h

/-- A pass minds the letters of this process exactly when it does not overlook them. -/
theorem Minds.pass_iff {w : DlqWorld} (h : w.Minds) (ipc : ArrowIpcTransformer)
    (point : DlqReplayPoint) (pass : DeadLetterQueue.DlqPass σ) :
    (w.pass ipc point pass).Minds ↔
      ¬ ∃ trigger filter, PassOverlooks w ipc point pass trigger filter := by
  have hfront := foreign_pass h.foreign ipc point pass
  obtain ⟨hforeign, hunknown, hscheduled⟩ := h
  by_cases hpoint : w.queue.replayPoint = point
  · cases hstart : w.queue.maybeTrigger (pass.recovered.any id) pass.request pass.cancelled
        pass.now with
    | none =>
      rw [pass_of_none hpoint hstart]
      refine iff_of_true ⟨hforeign, hunknown, hscheduled⟩ ?_
      rintro ⟨trigger, filter, hoverlooks⟩
      exact nomatch hstart.symm.trans hoverlooks.starts
    | some start =>
      obtain ⟨trigger, filter⟩ := start
      obtain ⟨kept, stored, error, rewritten, hkept, herror, hknown, hstored, hpass⟩ :=
        pass_of_some hpoint hstart ipc
      rw [hpass] at hfront ⊢
      have hown := @hasOwn_replayed w.store.length w.foreign _ stored hforeign
        (length_unread trigger w.store pass.outside)
        (rewritten.settle kept error pass.outside.clock)
      constructor
      · rintro ⟨-, hunknown', hscheduled'⟩ ⟨trigger', filter', hoverlooks⟩
        cases hstart.symm.trans hoverlooks.starts
        obtain rfl : kept = [] := hkept.mpr hoverlooks.unwritten
        have hown' := hown.mpr (.inr ⟨hoverlooks.leaves, hoverlooks.own⟩)
        obtain ⟨hpending, hknown', hnext⟩ := rewritten.settle_nil error pass.outside.clock
        rcases hoverlooks.blind with hend | hread
        · exact hscheduled' hown' (hnext.mpr (herror.mpr hend))
        · refine hunknown' hown' ⟨hpending, ?_⟩
          rw [hknown', hknown, hread, Bool.true_or]
      · intro hminds
        by_cases hnone : kept = []
        · subst hnone
          obtain ⟨hpending, hknown', hnext⟩ := rewritten.settle_nil error pass.outside.clock
          -- nothing was written, so what is there was overlooked unless the replay saw that it is
          have hsees : (stored ≠ [] ∨ unread trigger w.store pass.outside ≠ [] ∧
              w.foreign < w.store.length) → error ≠ none ∧ w.queue.known = false := by
            rintro (hwritten | ⟨hleaves, hown⟩)
            · exact absurd (List.eq_nil_of_length_eq_zero hstored) hwritten
            · have hblind : ¬ (ReportsEnd trigger w.store pass.outside ∨ w.queue.known = true) :=
                fun hblind => hminds ⟨trigger, filter, hpoint, hstart, hown, hleaves,
                  hkept.mp rfl, hblind⟩
              exact ⟨fun h => hblind (.inl (herror.mp h)),
                Bool.eq_false_iff.mpr fun h => hblind (.inr h)⟩
          refine ⟨hfront, fun hown' => ?_, fun hown' => ?_⟩
          · obtain ⟨herrored, hunread⟩ := hsees (hown.mp hown')
            obtain ⟨e, rfl⟩ := Option.ne_none_iff_exists'.mp herrored
            rintro ⟨-, hread⟩
            rw [hknown', hknown, hunread] at hread
            exact Bool.false_ne_true hread
          · exact fun h => (hsees (hown.mp hown')).1 (hnext.mp h)
        · obtain ⟨hpending, hnext⟩ := rewritten.settle_cons hnone error pass.outside.clock
          exact ⟨hfront, fun _ h => hpending h.1, fun _ => hnext⟩
  · rw [pass_of_ne hpoint]
    refine iff_of_true ⟨hforeign, hunknown, hscheduled⟩ ?_
    rintro ⟨trigger, filter, hoverlooks⟩
    exact hpoint hoverlooks.due

end DlqWorld

/-- **No letter is forgotten**, in every state that a run comes to, exactly when no pass of the run
overlooks letters. -/
theorem remembers_iff (σ : Type) (ipc : ArrowIpcTransformer) (workflowId : String)
    (kind : DlqStoreKind) (replayPoint : DlqReplayPoint) (known : Bool) (store : List RecordBatch)
    (events : List (DlqEvent σ)) :
    (∀ front, front <+: events → ∀ w os,
      run (DlqWorld.step ipc) (.start workflowId kind replayPoint known store) front = .ok (w, os) →
        w.Remembers σ ipc) ↔
      EachStep (DlqWorld.step ipc) (fun w event => ¬ event.Overlooks ipc w)
        (.start workflowId kind replayPoint known store) events := by
  have hstart : (DlqWorld.start workflowId kind replayPoint known store).Minds :=
    ⟨Nat.le_refl _, fun h => absurd h (Nat.lt_irrefl _), fun h => absurd h (Nat.lt_irrefl _)⟩
  have hstep : ∀ (w : DlqWorld) (event : DlqEvent σ), w.Minds →
      ∃ w' o, DlqWorld.step ipc w event = .ok (w', o) ∧ (w'.Minds ↔ ¬ event.Overlooks ipc w) := by
    intro w event hminds
    cases event with
    | record refusal => exact ⟨_, _, rfl, iff_of_true (hminds.record ipc refusal) id⟩
    | atHead pass => exact ⟨_, _, rfl, hminds.pass_iff ipc .beforeSources pass⟩
    | atTail pass => exact ⟨_, _, rfl, hminds.pass_iff ipc .afterSources pass⟩
  have hfront : ∀ (w : DlqWorld) (event : DlqEvent σ) w' o, w.foreign ≤ w.store.length →
      DlqWorld.step ipc w event = .ok (w', o) → w'.foreign ≤ w'.store.length := by
    intro w event w' o h hw'
    cases event with
    | record refusal =>
      obtain rfl := congrArg Prod.fst (Except.ok.inj hw')
      exact h.trans (List.length_append.symm ▸ Nat.le_add_right _ _)
    | atHead pass =>
      obtain rfl := congrArg Prod.fst (Except.ok.inj hw')
      exact DlqWorld.foreign_pass h ipc .beforeSources pass
    | atTail pass =>
      obtain rfl := congrArg Prod.fst (Except.ok.inj hw')
      exact DlqWorld.foreign_pass h ipc .afterSources pass
  rw [← eachStep_iff_invariant hstep hstart]
  constructor
  · intro h front hstarts w os hrun
    have hforeign : w.foreign ≤ w.store.length :=
      run_invariant (I := fun w : DlqWorld => w.foreign ≤ w.store.length) hfront hrun (Nat.le_refl _)
    exact (h front hstarts w os hrun).minds hforeign
  · intro h front hstarts w os hrun
    exact (h front hstarts w os hrun).remembers σ ipc

end Saci

namespace Saci.DlqSample

def clock (now : Nat) : DlqClock := ⟨now, fun _ => 10⟩

def refusal : DeadLetterQueue.Refusal :=
  ⟨⟨⟨[]⟩, [[], []]⟩, "orders", "writer", .generic "refused", 5, clock 5, none, none⟩

/-- A pass of its own accord at a time, with the turns of its drain. -/
def pass (now : Nat) (sourceError : Option SaciError) (turns : List DrainTurn) :
    DeadLetterQueue.DlqPass Unit :=
  ⟨ctx, (), [], none, false, now, ⟨clock now, sourceError, turns, none, []⟩⟩

def kafka : DlqStoreKind := ⟨"kafka", false, false⟩

/-- The empty store is read through, a letter is recorded, and when the schedule comes due the
source half cannot be built. -/
def sourceDown : List (DlqEvent Unit) :=
  [.atTail (pass 1 none []), .record refusal, .atTail (pass 20 (some (.generic "unreachable")) [])]

/-- A letter is recorded, and the poll window of the startup replay elapses before it is seen. -/
def windowElapsed : List (DlqEvent Unit) := [.record refusal, .atTail (pass 6 none [])]

def after (kind : DlqStoreKind) (events : List (DlqEvent Unit)) : DlqWorld :=
  match run (DlqWorld.step ipc) (.start "shop" kind .afterSources false []) events with
  | .ok (w, _) => w
  | .error e => nomatch e

/-- The recorded letter is in the store and forgotten: the queue takes the store for empty, or no
replay is scheduled. -/
theorem source_down_and_window_elapsed_forget :
    (run (DlqWorld.step ipc) (.start "shop" nats .afterSources false []) sourceDown =
        .ok (after nats sourceDown, [(), (), ()]) ∧
      (after nats sourceDown).HasOwn ∧ ¬ (after nats sourceDown).Remembers Unit ipc) ∧
    (run (DlqWorld.step ipc) (.start "shop" kafka .afterSources false []) windowElapsed =
        .ok (after kafka windowElapsed, [(), ()]) ∧
      (after kafka windowElapsed).HasOwn ∧
      ¬ (after kafka windowElapsed).Remembers Unit ipc) := by
  have hown : (after nats sourceDown).HasOwn ∧ (after kafka windowElapsed).HasOwn := by
    unfold DlqWorld.HasOwn
    decide +kernel
  refine ⟨⟨rfl, hown.1, fun h => ?_⟩, ⟨rfl, hown.2, fun h => ?_⟩⟩
  · exact (h hown.1).1 (by decide +kernel)
  · obtain ⟨-, due, hdue, -⟩ := h hown.2
    have hnone : (after kafka windowElapsed).queue.nextAutoReplay = none := by decide +kernel
    exact nomatch hdue.symm.trans hnone

end Saci.DlqSample
