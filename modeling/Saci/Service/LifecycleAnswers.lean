import Saci.Service.Supervisor

/-!
# Answers of the lifecycle

When a settled answer says what the verb asked for. A reply that is sent because the verb's target is
reached does; the supervisor also replies without looking at the target, to a request whose reply
channel another command takes over and to a command that it does not act on.
-/

namespace Saci

/-- Every settled answer satisfies its verb. -/
def Honest (effects : List LifecycleEffect) : Prop :=
  ∀ envelope status, .answered envelope (.settled status) ∈ effects →
    Satisfies envelope.command status.state

theorem Honest.append {front back : List LifecycleEffect} :
    Honest (front ++ back) ↔ Honest front ∧ Honest back := by
  constructor
  · intro h
    exact ⟨fun e s hmem => h e s (List.mem_append_left _ hmem),
      fun e s hmem => h e s (List.mem_append_right _ hmem)⟩
  · rintro ⟨hfront, hback⟩ e s hmem
    rcases List.mem_append.mp hmem with hmem | hmem
    · exact hfront e s hmem
    · exact hback e s hmem

theorem Honest.nil : Honest [] := fun _ _ h => nomatch h

/-- A publication in front does not matter. -/
theorem Honest.published {state : WorkflowRunState} {gate : Option PauseGate}
    {effects : List LifecycleEffect} :
    Honest (.published state gate :: effects) ↔ Honest effects := by
  constructor
  · exact fun h e s hmem => h e s (List.mem_cons_of_mem _ hmem)
  · intro h e s hmem
    rcases List.mem_cons.mp hmem with heq | hmem
    · exact nomatch heq
    · exact h e s hmem

theorem Honest.singleton {envelope : Envelope} {status : WorkflowStatus} :
    Honest [.answered envelope (.settled status)] ↔ Satisfies envelope.command status.state := by
  constructor
  · exact fun h => h _ _ List.mem_cons_self
  · intro h e s hmem
    obtain ⟨rfl, hanswer⟩ := LifecycleEffect.answered.inj (List.mem_singleton.mp hmem)
    obtain rfl := Answer.settled.inj hanswer
    exact h

namespace LifecycleWorld

/-! ## Replies -/

theorem reply_honest (w : LifecycleWorld) (envelope : Envelope) :
    Honest (w.reply envelope).2 ↔
      (envelope ∈ w.waiting → Satisfies envelope.command w.current.state) := by
  unfold reply
  split
  · next hwaiting =>
    rw [Honest.singleton]
    exact ⟨fun h _ => h, fun h => h hwaiting⟩
  · next hwaiting => exact iff_of_true Honest.nil fun h => absurd h hwaiting

/-- A reply that settles a request says that its target is reached. -/
theorem settle_honest (w : LifecycleWorld) : Honest w.settle.2 := by
  unfold settle
  split
  · split
    · next hreached => exact (reply_honest _ _).mpr fun _ => .inl hreached
    · exact Honest.nil
  · exact Honest.nil

theorem publish_honest (w : LifecycleWorld) (state : WorkflowRunState) (error : Option String) :
    Honest (w.publish state error).2 :=
  Honest.published.mpr (settle_honest _)

/-- The request that waits is answered by a publication that reaches its target, or goes on
waiting. -/
theorem publish_pending (w : LifecycleWorld) (state : WorkflowRunState) (error : Option String) :
    (w.publish state error).1.current.state = state ∧
      ((w.publish state error).1.pending = w.pending ∧
          (w.publish state error).1.waiting = w.waiting ∨
        (w.publish state error).1.pending = none ∧
          ∃ old, w.pending = some old ∧ targetReached old.command state = true) := by
  unfold publish settle
  dsimp only
  split
  · next old hold =>
    split
    · next hreached =>
      unfold reply
      split
      · exact ⟨rfl, .inr ⟨rfl, old, hold, hreached⟩⟩
      · exact ⟨rfl, .inr ⟨rfl, old, hold, hreached⟩⟩
    · exact ⟨rfl, .inl ⟨rfl, rfl⟩⟩
  · exact ⟨rfl, .inl ⟨rfl, rfl⟩⟩

/-- Taking over the reply channel answers the request that waited with the status as it is. -/
theorem accept_honest (w : LifecycleWorld) (envelope : Envelope) :
    Honest (w.accept envelope).2 ↔
      ∀ old ∈ w.pending, old ∈ w.waiting → Satisfies old.command w.current.state := by
  unfold accept
  dsimp only
  rw [Honest.append, and_iff_left (settle_honest _)]
  cases w.pending with
  | none => exact iff_of_true Honest.nil nofun
  | some old =>
    dsimp only
    rw [reply_honest]
    exact ⟨fun h old hold => by cases hold; exact h, fun h => h old rfl⟩

theorem publishAccept_honest (w : LifecycleWorld) (state : WorkflowRunState) (envelope : Envelope) :
    Honest (w.publishAccept state envelope).2 ↔
      ∀ old ∈ w.pending, old ∈ w.waiting → Satisfies old.command state := by
  obtain ⟨hstate, hpending⟩ := w.publish_pending state none
  unfold publishAccept
  dsimp only
  rw [Honest.append, and_iff_right (publish_honest _ _ _), accept_honest, hstate]
  rcases hpending with ⟨hpending, hwaiting⟩ | ⟨hpending, old, hold, hreached⟩
  · rw [hpending, hwaiting]
  · rw [hpending, hold]
    refine iff_of_true nofun ?_
    rintro _ ⟨⟩ -
    exact .inl hreached

theorem finishWith_honest (w : LifecycleWorld) (result : Except SaciError Unit) :
    Honest (w.finishWith result).2 := by
  intro e s hmem
  obtain ⟨envelope, -, heq⟩ := List.mem_map.mp hmem
  exact nomatch (LifecycleEffect.answered.inj heq).2

theorem thenFinish_honest {s : LifecycleWorld × List LifecycleEffect} (h : Honest s.2)
    (result : Except SaciError Unit) : Honest (thenFinish s result).2 :=
  Honest.append.mpr ⟨h, finishWith_honest _ result⟩

/-! ## Replies that do not look at the target -/

/-- The requests that the next command makes the supervisor answer whatever their target, and the
state that they are answered with. -/
def unjudged (w : LifecycleWorld) : List Envelope × WorkflowRunState :=
  match w.phase, w.queue with
  | .running r, envelope :: _ =>
    if r.commandsOpen then
      match envelope.command with
      | .start => ([envelope], w.current.state)
      | .pause =>
        (w.pending.toList,
          if w.current.state ≠ .pausing ∧ w.current.state ≠ .paused then .pausing
          else w.current.state)
      | .resume =>
        (w.pending.toList,
          if ¬ r.isParked ∧ (w.current.state = .pausing ∨ w.current.state = .paused) then .running
          else w.current.state)
      | .stop | .restart => (w.pending.toList, .stopping)
    else ([], w.current.state)
  | .parked, envelope :: _ =>
    match envelope.command with
    | .start | .restart => (w.pending.toList, .starting)
    | _ => ([envelope], w.current.state)
  | _, _ => ([], w.current.state)

/-- A step that misleads a client: the supervisor handles a command that makes it answer a request
whose client still waits, in a state that is not what the request asked for. -/
def Misleads (w : LifecycleWorld) : LifecycleEvent → Prop
  | .handle =>
    ∃ envelope ∈ w.unjudged.1, envelope ∈ w.waiting ∧ ¬ Satisfies envelope.command w.unjudged.2
  | _ => False

theorem forall_pending_iff {w : LifecycleWorld} {state : WorkflowRunState} :
    (∀ old ∈ w.pending, old ∈ w.waiting → Satisfies old.command state) ↔
      ¬ ∃ old ∈ w.pending.toList, old ∈ w.waiting ∧ ¬ Satisfies old.command state := by
  constructor
  · rintro h ⟨old, hold, hwaiting, hnot⟩
    exact hnot (h old (Option.mem_toList.mp hold) hwaiting)
  · intro h old hold hwaiting
    by_contra hnot
    exact h ⟨old, Option.mem_toList.mpr hold, hwaiting, hnot⟩

theorem waiting_iff {w : LifecycleWorld} {envelope : Envelope} {state : WorkflowRunState} :
    (envelope ∈ w.waiting → Satisfies envelope.command state) ↔
      ¬ ∃ e ∈ [envelope], e ∈ w.waiting ∧ ¬ Satisfies e.command state := by
  constructor
  · rintro h ⟨e, he, hwaiting, hnot⟩
    obtain rfl := List.mem_singleton.mp he
    exact hnot (h hwaiting)
  · intro h hwaiting
    by_contra hnot
    exact h ⟨envelope, List.mem_singleton_self _, hwaiting, hnot⟩

theorem handle_honest (w : LifecycleWorld) : Honest w.handle.2 ↔ ¬ w.Misleads .handle := by
  have hnone : ∀ state : WorkflowRunState, ¬ ∃ envelope ∈ ([] : List Envelope),
      envelope ∈ w.waiting ∧ ¬ Satisfies envelope.command state :=
    fun _ ⟨_, he, _⟩ => nomatch he
  unfold Misleads unjudged handle
  cases hphase : w.phase with
  | building initial => exact iff_of_true Honest.nil (hnone _)
  | abandoned => exact iff_of_true Honest.nil (hnone _)
  | returned result => exact iff_of_true Honest.nil (hnone _)
  | running r =>
    cases hqueue : w.queue with
    | nil =>
      dsimp only
      split
      · exact iff_of_true Honest.nil (hnone _)
      · exact iff_of_true Honest.nil (hnone _)
    | cons envelope queue =>
      dsimp only
      split
      · obtain ⟨command, id⟩ := envelope
        cases command with
        | start => exact (reply_honest _ _).trans waiting_iff
        | stop => exact (publishAccept_honest _ _ _).trans forall_pending_iff
        | restart => exact (publishAccept_honest _ _ _).trans forall_pending_iff
        | pause =>
          unfold handleRunning
          dsimp only
          split
          · exact (publishAccept_honest _ _ _).trans forall_pending_iff
          · exact (accept_honest _ _).trans forall_pending_iff
        | resume =>
          unfold handleRunning
          dsimp only [withRun]
          split
          · exact (publishAccept_honest _ _ _).trans forall_pending_iff
          · exact (accept_honest _ _).trans forall_pending_iff
      · exact iff_of_true Honest.nil (hnone _)
  | parked =>
    cases hqueue : w.queue with
    | nil =>
      dsimp only
      split
      · exact iff_of_true Honest.nil (hnone _)
      · exact iff_of_true Honest.nil (hnone _)
    | cons envelope queue =>
      obtain ⟨command, id⟩ := envelope
      cases command with
      | start => exact (publishAccept_honest _ _ _).trans forall_pending_iff
      | restart => exact (publishAccept_honest _ _ _).trans forall_pending_iff
      | stop => exact (reply_honest _ _).trans waiting_iff
      | pause => exact (reply_honest _ _).trans waiting_iff
      | resume => exact (reply_honest _ _).trans waiting_iff

/-! ## The other steps -/

theorem seeShutdown_honest (w : LifecycleWorld) : Honest w.seeShutdown.2 := by
  unfold seeShutdown
  split
  · split
    · split
      · exact Honest.nil
      · exact publish_honest _ _ _
    · exact finishWith_honest _ _
    · exact finishWith_honest _ _
    · exact Honest.nil
  · exact Honest.nil

theorem seeParked_honest (w : LifecycleWorld) : Honest w.seeParked.2 := by
  unfold seeParked
  split
  · split
    · exact Honest.nil
    split
    · dsimp only
      split
      · split
        · exact publish_honest _ _ _
        · exact Honest.nil
      · split
        · exact publish_honest _ _ _
        · exact Honest.nil
    · split
      · exact Honest.nil
      · exact Honest.nil
  · exact Honest.nil

theorem finish_honest (w : LifecycleWorld) (result : Except SaciError Unit) :
    Honest (w.finish result).2 := by
  unfold finish
  split
  · dsimp only
    split
    · split
      · exact thenFinish_honest (publish_honest _ _ _) _
      · split
        · exact Honest.nil
        · exact publish_honest _ _ _
        · exact thenFinish_honest (publish_honest _ _ _) _
    · split
      · exact thenFinish_honest (publish_honest _ _ _) _
      · exact publish_honest _ _ _
  · exact Honest.nil

theorem build_honest (w : LifecycleWorld) (error : Option SaciError) :
    Honest (w.build error).2 := by
  unfold build
  dsimp only
  split
  · exact publish_honest _ _ _
  · split
    · exact Honest.append.mpr ⟨publish_honest _ _ _, publish_honest _ _ _⟩
    · next e =>
      have hfailed := Honest.append.mpr ⟨publish_honest w .starting none, publish_honest
        { (w.publish .starting none).1 with phase := .parked } .failed (some e.display)⟩
      split
      · exact hfailed
      · exact thenFinish_honest hfailed _
  · exact Honest.nil

theorem request_honest (w : LifecycleWorld) (id : String) (command : WorkflowCommand) :
    Honest (w.request id command).2 := by
  have hrefused : ∀ envelope error, Honest [.answered envelope (.refused error)] := by
    intro envelope error e s hmem
    exact nomatch (LifecycleEffect.answered.inj (List.mem_singleton.mp hmem)).2
  unfold request
  dsimp only
  split
  · exact hrefused _ _
  · split
    · next hjudge => exact Honest.singleton.mpr (judge_satisfied hjudge)
    · exact hrefused _ _
    · exact Honest.nil

theorem send_honest (w : LifecycleWorld) (id : Nat) : Honest (w.send id).2 := by
  unfold send
  split
  · exact Honest.nil
  · dsimp only
    split
    · intro e s hmem
      exact nomatch (LifecycleEffect.answered.inj (List.mem_singleton.mp hmem)).2
    · exact Honest.nil

theorem timeout_honest (w : LifecycleWorld) (envelope : Envelope) :
    Honest (w.timeout envelope).2 := by
  unfold timeout
  split
  · intro e s hmem
    exact nomatch (LifecycleEffect.answered.inj (List.mem_singleton.mp hmem)).2
  · exact Honest.nil

theorem apply_honest (w : LifecycleWorld) (event : LifecycleEvent) :
    Honest (w.apply event).2 ↔ ¬ w.Misleads event := by
  cases event with
  | handle => exact handle_honest w
  | request id command => exact iff_of_true (request_honest w id command) not_false
  | send id => exact iff_of_true (send_honest w id) not_false
  | timeout envelope => exact iff_of_true (timeout_honest w envelope) not_false
  | shutdown => exact iff_of_true Honest.nil not_false
  | registryGone => exact iff_of_true Honest.nil not_false
  | park => exact iff_of_true Honest.nil not_false
  | unpark => exact iff_of_true Honest.nil not_false
  | dropGate => exact iff_of_true Honest.nil not_false
  | finish result => exact iff_of_true (finish_honest w result) not_false
  | seeShutdown => exact iff_of_true (seeShutdown_honest w) not_false
  | seeParked => exact iff_of_true (seeParked_honest w) not_false
  | build error => exact iff_of_true (build_honest w error) not_false

end LifecycleWorld

/-- **Honest answers**: along every run, from the registration of a workflow on, every settled answer
satisfies its verb exactly when no step misleads a client. -/
theorem answers_honest_iff (id : String) (name blocker : Option String)
    (events : List LifecycleEvent) :
    (∀ w effects, run LifecycleWorld.step (.start id name blocker) events = .ok (w, effects) →
      ∀ answers ∈ effects, Honest answers) ↔
      EachStep LifecycleWorld.step (fun w event => ¬ w.Misleads event) (.start id name blocker)
        events :=
  eachStep_iff_outputs (I := fun _ => True)
    (fun w event _ => ⟨_, _, rfl, trivial, w.apply_honest event⟩) trivial

end Saci

namespace Saci.LifecycleSample

/-- Two clients, one after the other: a pause that the runner has not come to, and a resume. -/
def overtaken : List LifecycleEvent :=
  [.build none, .request "orders" .pause, .send 0, .handle, .request "orders" .resume, .send 1,
    .handle]

def status (state : WorkflowRunState) : WorkflowStatus :=
  ⟨"orders", none, state, 1, true, none, none⟩

def after (events : List LifecycleEvent) : LifecycleWorld × List (List LifecycleEffect) :=
  match run LifecycleWorld.step (.start "orders" none none) events with
  | .ok s => s
  | .error e => nomatch e

/-- The pause is answered, as settled, with a workflow that runs. -/
theorem pause_answered_running :
    run LifecycleWorld.step (.start "orders" none none) overtaken = .ok (after overtaken) ∧
      [.published .running (some .new), .answered ⟨.pause, 0⟩ (.settled (status .running)),
        .answered ⟨.resume, 1⟩ (.settled (status .running))] ∈ (after overtaken).2 ∧
      ¬ ∀ answers ∈ (after overtaken).2, Honest answers := by
  have hmem : [.published .running (some .new), .answered ⟨.pause, 0⟩ (.settled (status .running)),
      .answered ⟨.resume, 1⟩ (.settled (status .running))] ∈ (after overtaken).2 := by decide +kernel
  refine ⟨rfl, hmem, fun h => ?_⟩
  exact absurd (h _ hmem ⟨.pause, 0⟩ (status .running) (by decide)) (by decide)

end Saci.LifecycleSample
