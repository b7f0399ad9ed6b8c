import Saci.Service.DeadLetterConservation

/-!
# The fates of dead letters

What became of every letter that a replay consumed, and when the replay keeps account of all of
them: unless it is cancelled right behind an empty window while a letter of the window before it is
still to be written back.
-/

namespace Saci

variable {σ : Type} {ipc : ArrowIpcTransformer} {filter : ReplayFilter} {ctx : ReplayCtx σ}
  {trigger : DlqTrigger} {workflow : String}

/-! ## Fates -/

inductive Fate
  | delivered (index : Nat) (letter : Letter)
  | purged
  | lost (letter : Letter)
  | stored (letter : Letter) (message : RecordBatch)

namespace Fate

def delivered? : Fate → Option (Nat × Letter)
  | delivered index letter => some (index, letter)
  | _ => none

def message? : Fate → Option RecordBatch
  | stored _ message => some message
  | _ => none

def isPurged : Fate → Bool
  | purged => true
  | _ => false

def isLost : Fate → Bool
  | lost _ => true
  | _ => false

/-- A fate and the row it is the fate of. An excluded letter is neither delivered nor changed. -/
inductive Fits (workflow : String) (trigger : DlqTrigger) (filter : ReplayFilter) (ctx : ReplayCtx σ) :
    RecordBatch × Nat → Fate → Prop
  | purged {row} : trigger = .purge → Fits workflow trigger filter ctx row .purged
  | delivered {row index letter} : Letter.fromRow row.1 row.2 = .ok letter →
      filter.admits letter = true → ctx.ids[index]? = some letter.sink →
      Fits workflow trigger filter ctx row (.delivered index letter)
  | lost {row letter back} : Letter.fromRow row.1 row.2 = .ok letter →
      WrittenBackAs filter letter back → Fits workflow trigger filter ctx row (.lost back)
  | stored {row letter back message} : Letter.fromRow row.1 row.2 = .ok letter →
      WrittenBackAs filter letter back → back.toEnvelope workflow = .ok message →
      Fits workflow trigger filter ctx row (.stored back message)

/-- The fates of some rows are counted out: so many deliveries, letters lost, and messages. -/
theorem length_fates (fates : List Fate) :
    fates.length = (fates.filterMap delivered?).length + fates.countP isPurged +
      fates.countP isLost + (fates.filterMap message?).length := by
  induction fates with
  | nil => rfl
  | cons fate fates ih =>
    cases fate with
    | delivered index letter =>
      rw [List.filterMap_cons_some (f := delivered?) rfl, List.filterMap_cons_none (f := message?) rfl,
        List.countP_cons_of_neg (by exact Bool.false_ne_true),
        List.countP_cons_of_neg (by exact Bool.false_ne_true)]
      simp only [List.length_cons]
      omega
    | purged =>
      rw [List.filterMap_cons_none (f := delivered?) rfl, List.filterMap_cons_none (f := message?) rfl,
        List.countP_cons_of_pos (by rfl), List.countP_cons_of_neg (by exact Bool.false_ne_true)]
      simp only [List.length_cons]
      omega
    | lost letter =>
      rw [List.filterMap_cons_none (f := delivered?) rfl, List.filterMap_cons_none (f := message?) rfl,
        List.countP_cons_of_neg (by exact Bool.false_ne_true), List.countP_cons_of_pos (by rfl)]
      simp only [List.length_cons]
      omega
    | stored letter message =>
      rw [List.filterMap_cons_none (f := delivered?) rfl, List.filterMap_cons_some (f := message?) rfl,
        List.countP_cons_of_neg (by exact Bool.false_ne_true),
        List.countP_cons_of_neg (by exact Bool.false_ne_true)]
      simp only [List.length_cons]
      omega

theorem length_envelopeRows_messages {rows : List (RecordBatch × Nat)} {fates : List Fate}
    (h : List.Forall₂ (Fits workflow trigger filter ctx) rows fates) :
    (envelopeRows (fates.filterMap message?)).length = (fates.filterMap message?).length := by
  induction h with
  | nil => rfl
  | @cons row fate rows fates hfits _ ih =>
    cases hfits with
    | purged => rwa [List.filterMap_cons_none (f := message?) rfl]
    | delivered => rwa [List.filterMap_cons_none (f := message?) rfl]
    | lost => rwa [List.filterMap_cons_none (f := message?) rfl]
    | stored _ _ henvelope =>
      obtain rfl := Except.ok.inj henvelope
      rw [List.filterMap_cons_some (f := message?) rfl]
      exact congrArg (· + 1) ih

end Fate

/-- The replay keeps account of every letter. The store's front is consumed, and every row of it has
its fate: it is delivered to the node it names, purged, counted as lost, or written behind what is
left, once. -/
def Conserved (workflow : String) (trigger : DlqTrigger) (filter : ReplayFilter) (ctx : ReplayCtx σ)
    (store : List RecordBatch) (r : DeadLetterQueue.Replayed σ) : Prop :=
  ∃ consumed left fates,
    store = consumed ++ left ∧
    List.Forall₂ (Fate.Fits workflow trigger filter ctx) (envelopeRows consumed) fates ∧
    r.store = left ++ fates.filterMap Fate.message? ∧
    fates.filterMap Fate.delivered? <+: r.delivered ∧
    fates.countP Fate.isPurged ≤ r.report.purged ∧
    fates.countP Fate.isLost = r.report.lost

/-- Where account is kept, no letter is missing from the counts. -/
theorem Conserved.length_le {store : List RecordBatch} {r : DeadLetterQueue.Replayed σ} (htrigger : trigger ≠ .purge)
    (h : Conserved workflow trigger filter ctx store r) :
    (envelopeRows store).length ≤
      r.delivered.length + r.report.lost + (envelopeRows r.store).length := by
  obtain ⟨consumed, left, fates, rfl, hfits, hstore, hdelivered, -, hlost⟩ := h
  have hpurged : fates.countP Fate.isPurged = 0 := by
    clear hstore hdelivered hlost
    generalize envelopeRows consumed = rows at hfits
    induction hfits with
    | nil => rfl
    | cons hfate _ ih =>
      cases hfate with
      | purged hpurge => exact absurd hpurge htrigger
      | delivered => exact ih
      | lost => exact ih
      | stored => exact ih
  have hlength := hfits.length_eq
  have hcount := Fate.length_fates fates
  have hle := hdelivered.length_le
  rw [hstore, envelopeRows_append, envelopeRows_append, List.length_append, List.length_append,
    Fate.length_envelopeRows_messages hfits]
  omega

/-! ## Writing back -/

/-- Letters written back in turn: each ends in the store or is lost. -/
inductive WrittenBack (workflow : String) : List Letter → DeadLetterQueue.Rewritten → Prop
  | nil : WrittenBack workflow [] ⟨[], [], []⟩
  | stored {letter letters message rewritten} : letter.toEnvelope workflow = .ok message →
      WrittenBack workflow letters rewritten →
      WrittenBack workflow (letter :: letters)
        { rewritten with
          stored := message :: rewritten.stored
          kept := letter :: rewritten.kept }
  | lost {letter letters rewritten} : WrittenBack workflow letters rewritten →
      WrittenBack workflow (letter :: letters)
        { rewritten with lost := letter :: rewritten.lost }

namespace WrittenBack

theorem all_lost (letters : List Letter) : WrittenBack workflow letters ⟨[], [], letters⟩ := by
  induction letters with
  | nil => exact .nil
  | cons letter letters ih => exact .lost ih

theorem rewriteLoop (workflow : String) (letters : List Letter) (writeErrors : List (Option SaciError)) :
    WrittenBack workflow letters (DeadLetterQueue.rewriteLoop workflow letters writeErrors).1 := by
  induction letters generalizing writeErrors with
  | nil => exact .nil
  | cons letter letters ih =>
    unfold DeadLetterQueue.rewriteLoop
    split
    · exact .lost (ih _)
    · next message hmessage =>
      split
      · exact all_lost _
      · exact .stored hmessage (ih _)

theorem length_add {letters : List Letter} {rewritten : DeadLetterQueue.Rewritten}
    (h : WrittenBack workflow letters rewritten) :
    rewritten.stored.length + rewritten.lost.length = letters.length ∧
      (envelopeRows rewritten.stored).length = rewritten.stored.length ∧
      rewritten.kept.length = rewritten.stored.length := by
  induction h with
  | nil => exact ⟨rfl, rfl, rfl⟩
  | stored hmessage _ ih =>
    obtain ⟨hlength, hrows, hkept⟩ := ih
    obtain rfl := Except.ok.inj hmessage
    refine ⟨?_, congrArg (· + 1) hrows, congrArg (· + 1) hkept⟩
    simp only [List.length_cons]
    omega
  | lost _ ih =>
    obtain ⟨hlength, hrows, hkept⟩ := ih
    refine ⟨?_, hrows, hkept⟩
    simp only [List.length_cons]
    omega

end WrittenBack

namespace DeadLetterQueue

/-- Two queues that differ in the recording half at most. -/
def SameButRecordHalf (queue queue' : DeadLetterQueue) : Prop :=
  ∃ sinkOpen sinkAttempt sinkDownUntil, queue' =
    { queue with
      sinkOpen := sinkOpen
      sinkAttempt := sinkAttempt
      sinkDownUntil := sinkDownUntil }

theorem rebuildRecordHalf_same (queue : DeadLetterQueue) (clock : DlqClock)
    (sinkError : Option SaciError) :
    queue.SameButRecordHalf (queue.rebuildRecordHalf clock sinkError).1 := by
  unfold rebuildRecordHalf
  split
  · exact ⟨_, _, _, rfl⟩
  split
  · exact ⟨_, _, _, rfl⟩
  split
  · exact ⟨_, _, _, rfl⟩
  · exact ⟨_, _, _, rfl⟩

theorem reopenRecordHalf_same (queue : DeadLetterQueue) (clock : DlqClock)
    (sinkError : Option SaciError) :
    queue.SameButRecordHalf (queue.reopenRecordHalf clock sinkError).1 := by
  unfold reopenRecordHalf
  split
  · exact ⟨_, _, _, rfl⟩
  · obtain ⟨sinkOpen, sinkAttempt, sinkDownUntil, h⟩ := rebuildRecordHalf_same
      { queue with sinkAttempt := 0, sinkDownUntil := none } clock sinkError
    exact ⟨sinkOpen, sinkAttempt, sinkDownUntil, h⟩

theorem rewrite_writtenBack (queue : DeadLetterQueue) (retained : List Letter)
    (outside : ReplayOutside) :
    WrittenBack queue.workflowId retained (queue.rewrite retained outside).2 := by
  unfold rewrite
  split
  · next hempty =>
    obtain rfl := List.isEmpty_iff.mp hempty
    exact .nil
  · have hworkflow : (queue.reopenRecordHalf outside.clock outside.sinkError).1.workflowId =
        queue.workflowId := by
      obtain ⟨_, _, _, h⟩ := queue.reopenRecordHalf_same outside.clock outside.sinkError
      rw [h]
    split
    · exact .all_lost _
    · next reopened hreopen =>
      rw [hreopen] at hworkflow
      have hloop := WrittenBack.rewriteLoop queue.workflowId retained outside.writeErrors
      rw [← hworkflow] at hloop ⊢
      split
      · next hdone =>
        rw [hdone] at hloop
        exact hloop
      · next hdown =>
        rw [hdown] at hloop
        exact hloop

end DeadLetterQueue

/-- Offered letters have their fates once those kept are written back. -/
theorem exists_fates (trigger : DlqTrigger) {rows : List (RecordBatch × Nat)} {letters : List Letter}
    (hrows : List.Forall₂ (fun row letter => Letter.fromRow row.1 row.2 = .ok letter) rows letters)
    (s : σ × List Nat) {rewritten : DeadLetterQueue.Rewritten}
    (h : WrittenBack workflow ((offers ipc filter ctx s letters).2.filterMap Offer.kept?)
      rewritten) :
    ∃ fates, List.Forall₂ (Fate.Fits workflow trigger filter ctx) rows fates ∧
      fates.filterMap Fate.message? = rewritten.stored ∧
      fates.filterMap Fate.delivered? =
        (offers ipc filter ctx s letters).2.filterMap Offer.delivered? ∧
      fates.countP Fate.isPurged = 0 ∧ fates.countP Fate.isLost = rewritten.lost.length := by
  induction hrows generalizing s rewritten with
  | nil =>
    cases h
    exact ⟨[], .nil, rfl, rfl, rfl, rfl⟩
  | @cons row letter rows letters hrow _ ih =>
    rw [offers] at h ⊢
    dsimp only at h ⊢
    have hfollow := @ih (offer ipc filter ctx s letter).1
    generalize offers ipc filter ctx (offer ipc filter ctx s letter).1 letters = behind at *
    obtain ⟨index, hoffer, hadmits, hsink⟩ | ⟨back, hoffer, hback⟩ :=
      offer_spec ipc filter ctx s letter
    · rw [hoffer] at h ⊢
      rw [List.filterMap_cons_none (f := Offer.kept?) rfl] at h
      obtain ⟨fates, hfits, hstored, hdelivered, hpurged, hlost⟩ := hfollow h
      refine ⟨.delivered index letter :: fates, .cons (.delivered hrow hadmits hsink) hfits,
        hstored, ?_, hpurged, hlost⟩
      rw [List.filterMap_cons_some (f := Fate.delivered?) rfl,
        List.filterMap_cons_some (f := Offer.delivered?) rfl, hdelivered]
    · rw [hoffer] at h ⊢
      rw [List.filterMap_cons_some (f := Offer.kept?) rfl] at h
      cases h with
      | stored hmessage hbehind =>
        obtain ⟨fates, hfits, hstored, hdelivered, hpurged, hlost⟩ := hfollow hbehind
        exact ⟨.stored back _ :: fates, .cons (.stored hrow hback hmessage) hfits,
          congrArg _ hstored, hdelivered, hpurged, hlost⟩
      | lost hbehind =>
        obtain ⟨fates, hfits, hstored, hdelivered, hpurged, hlost⟩ := hfollow hbehind
        refine ⟨.lost back :: fates, .cons (.lost hrow hback) hfits, hstored, hdelivered, hpurged,
          ?_⟩
        rw [List.countP_cons_of_pos rfl, hlost, List.length_cons]

/-! ## Purging -/

/-- A purge consumes whole windows and counts their rows. -/
theorem drain_purge (ipc : ArrowIpcTransformer) (filter : ReplayFilter) (ctx : ReplayCtx σ)
    (st : Drain σ) (turns : List DrainTurn) (hretained : st.retained = []) :
    ∃ consumed, st.held ++ st.rest = consumed ++
        ((st.drain ipc filter ctx .purge turns).held ++ (st.drain ipc filter ctx .purge turns).rest) ∧
      st.purged + (envelopeRows consumed).length ≤
        (st.drain ipc filter ctx .purge turns).purged + (envelopeRows st.held).length ∧
      (st.drain ipc filter ctx .purge turns).retained = [] ∧
      (st.drain ipc filter ctx .purge turns).delivered = st.delivered := by
  induction turns generalizing st with
  | nil => exact ⟨st.held, rfl, Nat.le_refl _, hretained, rfl⟩
  | cons turn turns ih =>
    cases turn with
    | cancelled =>
      refine ⟨[], rfl, Nat.le_add_right _ _, ?_, rfl⟩
      exact (congrArg (List.take st.window) hretained).trans List.take_nil
    | error e => exact ⟨st.held, rfl, Nat.le_refl _, hretained, rfl⟩
    | window messages =>
      rw [Drain.drain]
      dsimp only
      rw [if_pos rfl]
      have htake : st.rest.take messages ++ st.rest.drop messages = st.rest :=
        List.take_append_drop ..
      split
      · next hempty =>
        have hnone : (envelopeRows (st.rest.take messages)).length = 0 :=
          congrArg List.length (List.isEmpty_iff.mp hempty)
        obtain ⟨consumed, happend, hpurged, hkept, hdelivered⟩ := ih
          { st with held := st.rest.take messages, rest := st.rest.drop messages } hretained
        dsimp only at happend hpurged
        refine ⟨st.held ++ consumed, ?_, ?_, hkept, hdelivered⟩
        · rw [List.append_assoc, ← happend, htake]
        · rw [envelopeRows_append, List.length_append]
          omega
      · obtain ⟨consumed, happend, hpurged, hkept, hdelivered⟩ := ih
          { st with
            held := st.rest.take messages
            rest := st.rest.drop messages
            window := st.retained.length
            purged := st.purged + (envelopeRows (st.rest.take messages)).length } hretained
        dsimp only at happend hpurged
        refine ⟨st.held ++ consumed, ?_, ?_, hkept, hdelivered⟩
        · rw [List.append_assoc, ← happend, htake]
        · rw [envelopeRows_append, List.length_append]
          omega

theorem fits_purged (rows : List (RecordBatch × Nat)) :
    List.Forall₂ (Fate.Fits workflow .purge filter ctx) rows
      (List.replicate rows.length .purged) := by
  induction rows with
  | nil => exact .nil
  | cons row rows ih => exact .cons (.purged rfl) ih

/-! ## Conservation -/

namespace Course

/-- The last window that was gone through. -/
def last (c : Course) : List Letter := c.windows.getLast?.getD []

theorem flatten_windows (c : Course) :
    c.windows.flatten = c.windows.dropLast.flatten ++ c.last := by
  obtain ⟨windows, stop, consumed, left⟩ := c
  rcases List.eq_nil_or_concat windows with rfl | ⟨front, last, rfl⟩
  · rfl
  · simp [Course.last]

/-- Unless the drain stops behind an empty window, the letters in hand are those consumed. -/
theorem settled_eq_inHand {c : Course} (h : c.stop ≠ .cancelled true) : c.settled = c.inHand := by
  unfold settled inHand
  cases hstop : c.stop with
  | fetched => rfl
  | undecodable front => rfl
  | cancelled afterEmpty => cases afterEmpty with
    | false => rfl
    | true => exact absurd hstop h

theorem settled_append_offered (c : Course) : ∃ more, c.offered = c.settled ++ more := by
  have hall := c.flatten_windows
  unfold offered settled
  cases c.stop with
  | fetched => exact ⟨[], (List.append_nil _).symm⟩
  | undecodable front => exact ⟨front, rfl⟩
  | cancelled afterEmpty => cases afterEmpty with
    | false => exact ⟨c.last, hall⟩
    | true => exact ⟨[], (List.append_nil _).symm⟩

end Course

/-- A replay forgets letters when its drain is cancelled right behind an empty window and its sinks
have not taken every letter of the last window before that. -/
structure Forgets (ipc : ArrowIpcTransformer) (trigger : DlqTrigger) (filter : ReplayFilter)
    (ctx : ReplayCtx σ) (sinks : σ) (store : List RecordBatch) (outside : ReplayOutside) : Prop where
  source : outside.sourceError = none
  trigger : trigger ≠ .purge
  cancelled : (course [] store outside.turns).stop = .cancelled true
  kept : ∃ letter, .kept letter ∈ (offers ipc filter ctx
    (offers ipc filter ctx (sinks, []) (course [] store outside.turns).inHand).1
    (course [] store outside.turns).last).2

/-- What a replay does with what its drain leaves. -/
theorem replay_spec (queue : DeadLetterQueue) (ipc : ArrowIpcTransformer) (trigger : DlqTrigger)
    (filter : ReplayFilter) (ctx : ReplayCtx σ) (sinks : σ) (store : List RecordBatch)
    (outside : ReplayOutside) :
    ∃ rewritten, WrittenBack queue.workflowId
        (DeadLetterQueue.drained ipc trigger filter ctx sinks store outside).retained rewritten ∧
      (queue.replay ipc trigger filter ctx sinks store outside).store =
        (DeadLetterQueue.drained ipc trigger filter ctx sinks store outside).held ++
          (DeadLetterQueue.drained ipc trigger filter ctx sinks store outside).rest ++
          rewritten.stored ∧
      (queue.replay ipc trigger filter ctx sinks store outside).delivered =
        (DeadLetterQueue.drained ipc trigger filter ctx sinks store outside).delivered ∧
      (queue.replay ipc trigger filter ctx sinks store outside).report.purged =
        (DeadLetterQueue.drained ipc trigger filter ctx sinks store outside).purged ∧
      (queue.replay ipc trigger filter ctx sinks store outside).report.lost =
        rewritten.lost.length := by
  refine ⟨(DeadLetterQueue.rewrite
    (if queue.store.exclusive then { queue with sinkOpen := false } else queue)
    (DeadLetterQueue.drained ipc trigger filter ctx sinks store outside).retained outside).2,
    ?_, rfl, rfl, rfl, rfl⟩
  have hworkflow : (if queue.store.exclusive then { queue with sinkOpen := false }
      else queue).workflowId = queue.workflowId := by
    split
    · rfl
    · rfl
  have hwritten := DeadLetterQueue.rewrite_writtenBack
    (if queue.store.exclusive then { queue with sinkOpen := false } else queue)
    (DeadLetterQueue.drained ipc trigger filter ctx sinks store outside).retained outside
  rwa [hworkflow] at hwritten

theorem drained_of_source {outside : ReplayOutside} (h : outside.sourceError = none)
    (ipc : ArrowIpcTransformer) (trigger : DlqTrigger) (filter : ReplayFilter) (ctx : ReplayCtx σ)
    (sinks : σ) (store : List RecordBatch) :
    DeadLetterQueue.drained ipc trigger filter ctx sinks store outside =
      (Drain.start sinks store).drain ipc filter ctx trigger outside.turns := by
  rw [DeadLetterQueue.drained, h]

/-- A drain of the whole store, along its course. -/
theorem drain_start (ipc : ArrowIpcTransformer) (filter : ReplayFilter) (ctx : ReplayCtx σ)
    (htrigger : trigger ≠ .purge) (sinks : σ) (store : List RecordBatch)
    (turns : List DrainTurn) :
    ((Drain.start sinks store).drain ipc filter ctx trigger turns).held ++
        ((Drain.start sinks store).drain ipc filter ctx trigger turns).rest =
      (course [] store turns).left ∧
    ((Drain.start sinks store).drain ipc filter ctx trigger turns).delivered =
      (offers ipc filter ctx (sinks, []) (course [] store turns).offered).2.filterMap
        Offer.delivered? ∧
    ((Drain.start sinks store).drain ipc filter ctx trigger turns).retained =
      (offers ipc filter ctx (sinks, []) (course [] store turns).inHand).2.filterMap
        Offer.kept? := by
  have hdrained : DrainedAlong ipc filter ctx (Drain.start sinks store) (course [] store turns)
      ((Drain.start sinks store).drain ipc filter ctx trigger turns) :=
    drain_along htrigger _ turns
  generalize course [] store turns = c at hdrained ⊢
  obtain ⟨hleft, hdelivered, hretained⟩ := hdrained
  obtain ⟨windows, stop, consumed, left⟩ := c
  refine ⟨hleft, hdelivered, ?_⟩
  cases stop with
  | fetched => exact hretained
  | undecodable front => exact hretained
  | cancelled afterEmpty => cases windows with
    | nil => exact hretained
    | cons letters windows => exact hretained

/-- A drain that forgets leaves a letter in no count. -/
theorem Forgets.not_conserved {queue : DeadLetterQueue} {sinks : σ} {store : List RecordBatch}
    {outside : ReplayOutside} (h : Forgets ipc trigger filter ctx sinks store outside) :
    ¬ Conserved queue.workflowId trigger filter ctx store
      (queue.replay ipc trigger filter ctx sinks store outside) := by
  intro hconserved
  obtain ⟨hsource, htrigger, hcancelled, letter, hkept⟩ := h
  obtain ⟨rewritten, hwritten, hstore, hdelivered, -, hlost⟩ :=
    replay_spec queue ipc trigger filter ctx sinks store outside
  have hle := hconserved.length_le htrigger
  rw [hstore, hdelivered, hlost] at hle
  rw [drained_of_source hsource] at hwritten hle
  obtain ⟨hleft, hdelivered, hretained⟩ := drain_start ipc filter ctx htrigger sinks store
    outside.turns
  have hdecoded : Decoded (course [] store outside.turns).consumed
      (course [] store outside.turns).settled :=
    settledFrom_nil _ ▸ consumed_decoded store outside.turns .nil
  have hall : (course [] store outside.turns).consumed ++ (course [] store outside.turns).left =
      store := consumed_append_left [] store outside.turns
  rw [hleft, hdelivered] at hle
  rw [hretained] at hwritten
  obtain ⟨hlength, hrows, -⟩ := hwritten.length_add
  generalize course [] store outside.turns = c at *
  -- what was offered is what is in hand, and the last window behind it
  have hsplit : c.windows.flatten = c.inHand ++ c.last := by
    rw [c.flatten_windows, Course.inHand, hcancelled]
  have hsettled : c.settled = c.inHand ++ c.last := by
    rw [← hsplit, Course.settled, hcancelled]
  have hoffered : c.offered = c.inHand ++ c.last := by
    rw [← hsplit, Course.offered, hcancelled]
  rw [hsettled] at hdecoded
  rw [hoffered, offers_append, List.filterMap_append, ← hall, envelopeRows_append,
    envelopeRows_append, List.length_append, List.length_append, List.length_append, hrows,
    hdecoded.length_eq, List.length_append] at hle
  have hfront := length_kept_add_delivered (offers ipc filter ctx (sinks, []) c.inHand).2
  rw [length_offers] at hfront
  have hback := length_kept_add_delivered
    (offers ipc filter ctx (offers ipc filter ctx (sinks, []) c.inHand).1 c.last).2
  rw [length_offers] at hback
  have hone : 0 < ((offers ipc filter ctx (offers ipc filter ctx (sinks, []) c.inHand).1
      c.last).2.filterMap Offer.kept?).length :=
    List.length_pos_of_mem (List.mem_filterMap.mpr ⟨_, hkept, rfl⟩)
  omega

/-- A letter kept is among those a replay has in hand unless it forgets them. -/
theorem kept_settled {sinks : σ} {store : List RecordBatch} {outside : ReplayOutside}
    (hsource : outside.sourceError = none) (htrigger : trigger ≠ .purge)
    (h : ¬ Forgets ipc trigger filter ctx sinks store outside) :
    (offers ipc filter ctx (sinks, []) (course [] store outside.turns).settled).2.filterMap
        Offer.kept? =
      (offers ipc filter ctx (sinks, []) (course [] store outside.turns).inHand).2.filterMap
        Offer.kept? := by
  by_cases hcancelled : (course [] store outside.turns).stop = .cancelled true
  · have hsettled : (course [] store outside.turns).settled =
        (course [] store outside.turns).inHand ++ (course [] store outside.turns).last := by
      have hall := (course [] store outside.turns).flatten_windows
      rw [Course.settled, Course.inHand, hcancelled]
      exact hall
    rw [hsettled, offers_append, List.filterMap_append]
    refine (congrArg _ (List.filterMap_eq_nil_iff.mpr fun offered hoffered => ?_)).trans
      (List.append_nil _)
    cases offered with
    | delivered index letter => rfl
    | kept letter => exact absurd ⟨hsource, htrigger, hcancelled, letter, hoffered⟩ h
  · rw [Course.settled_eq_inHand hcancelled]

/-- A replay keeps account of every letter exactly when it does not forget. -/
theorem replay_conserved_iff (queue : DeadLetterQueue) (ipc : ArrowIpcTransformer)
    (trigger : DlqTrigger) (filter : ReplayFilter) (ctx : ReplayCtx σ) (sinks : σ)
    (store : List RecordBatch) (outside : ReplayOutside) :
    Conserved queue.workflowId trigger filter ctx store
        (queue.replay ipc trigger filter ctx sinks store outside) ↔
      ¬ Forgets ipc trigger filter ctx sinks store outside := by
  refine ⟨fun h hforgets => hforgets.not_conserved h, fun h => ?_⟩
  obtain ⟨rewritten, hwritten, hstore, hdelivered, hpurged, hlost⟩ :=
    replay_spec queue ipc trigger filter ctx sinks store outside
  cases hsource : outside.sourceError with
  | some e =>
    -- nothing is drained, and nothing is in hand
    rw [DeadLetterQueue.drained, hsource] at hwritten hstore
    cases hwritten
    refine ⟨[], store, [], rfl, .nil, hstore, List.nil_prefix, Nat.zero_le _, ?_⟩
    exact hlost.symm
  | none =>
    rw [drained_of_source hsource] at hwritten hstore hdelivered hpurged
    by_cases htrigger : trigger = .purge
    · subst htrigger
      obtain ⟨consumed, hall, hcount, hretained, hnone⟩ := drain_purge ipc filter ctx
        (Drain.start sinks store) outside.turns rfl
      rw [hretained] at hwritten
      cases hwritten
      refine ⟨consumed, _, List.replicate (envelopeRows consumed).length .purged, hall,
        fits_purged _, ?_, ?_, ?_, ?_⟩
      · rw [hstore, List.filterMap_replicate_of_none rfl]
      · rw [List.filterMap_replicate_of_none rfl]
        exact List.nil_prefix
      · rw [hpurged]
        refine List.countP_le_length.trans ?_
        rw [List.length_replicate]
        exact (Nat.zero_add _).symm.le.trans hcount
      · rw [hlost]
        exact List.countP_eq_zero.mpr fun fate hfate =>
          List.eq_of_mem_replicate hfate ▸ Bool.false_ne_true
    · obtain ⟨hleft, hoffered, hretained⟩ := drain_start ipc filter ctx htrigger sinks
        store outside.turns
      have hdecoded : Decoded (course [] store outside.turns).consumed
          (course [] store outside.turns).settled :=
        settledFrom_nil _ ▸ consumed_decoded store outside.turns .nil
      rw [hretained, ← kept_settled hsource htrigger h] at hwritten
      obtain ⟨fates, hfits, hmessages, hdeliveries, hnone, hcount⟩ :=
        exists_fates trigger hdecoded (sinks, []) hwritten
      refine ⟨(course [] store outside.turns).consumed, (course [] store outside.turns).left, fates,
        (consumed_append_left [] store outside.turns).symm, hfits, ?_, ?_, ?_, ?_⟩
      · rw [hstore, hleft, hmessages]
      · obtain ⟨more, hmore⟩ := (course [] store outside.turns).settled_append_offered
        rw [hdeliveries, hdelivered, hoffered, hmore, offers_append, List.filterMap_append]
        exact List.prefix_append _ _
      · rw [hnone]
        exact Nat.zero_le _
      · rw [hcount, hlost]

end Saci

namespace Saci.DlqSample

/-- A payload decodes to the empty batch. -/
def ipc : ArrowIpcTransformer := ⟨fun _ => .ok [[]], fun schema _ => .ok (some (.newEmpty schema))⟩

/-- One node, whose sink refuses every batch. -/
def ctx : ReplayCtx Unit :=
  ⟨["orders"], [some ⟨[]⟩], fun _ _ _ => ((), .error (.generic "refused")), fun _ => 7⟩

def nats : DlqStoreKind := ⟨"nats", false, true⟩

def queue : DeadLetterQueue :=
  ⟨"shop", nats, .afterSources, true, 0, none, true, 1, 0, none, false⟩

def letter : Letter := ⟨"orders", "writer", "refused", 5, 0, 3, [1, 2]⟩

def envelope : RecordBatch :=
  ⟨envelopeSchema,
    [[.text "shop", .text "orders", .text "writer", .text "refused", .int 5, .int 0, .int 3,
      .bytes [1, 2]]]⟩

/-- The letter's window, a message without a row, and then shutdown. -/
def cutShort : ReplayOutside :=
  ⟨⟨100, fun _ => 1⟩, none, [.window 1, .window 1, .cancelled], none, []⟩

/-- The letter is consumed by the second fetch and then dropped: it is not in the store, it was not
delivered, and it is not counted. -/
theorem cut_behind_empty_window :
    letter.toEnvelope "shop" = .ok envelope ∧
      ¬ Conserved "shop" .heal ⟨none, none⟩ ctx [envelope, .newEmpty envelopeSchema]
        (queue.replay ipc .heal ⟨none, none⟩ ctx () [envelope, .newEmpty envelopeSchema]
          cutShort) := by
  refine ⟨rfl, fun h => ?_⟩
  have hle := h.length_le (by decide)
  exact absurd hle (by decide +kernel)

end Saci.DlqSample
