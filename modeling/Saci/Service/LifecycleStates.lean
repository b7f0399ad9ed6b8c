import Saci.Service.Supervisor

/-!
# States of the lifecycle

The sequence of states that a supervisor publishes, against the lifecycle diagram. The supervisor
follows it along every run without a misstep: a command or shutdown handled while the runner drains,
or a change of the gate seen after the request it answers was taken back.
-/

namespace Saci

/-- A published state, with the runner's gate at the time if there is a runner. -/
abbrev Publication := WorkflowRunState × Option PauseGate

def publications (effects : List LifecycleEffect) : List Publication :=
  effects.filterMap fun
    | .published state gate => some (state, gate)
    | .answered _ _ => none

/-- The last of some published states, behind one. -/
def lastState (state : WorkflowRunState) (published : List Publication) : WorkflowRunState :=
  (published.getLast?.map Prod.fst).getD state

/-- What may be published behind a state. -/
structure InDiagram (previous : WorkflowRunState) (p : Publication) : Prop where
  stopping : previous = .stopping →
    p.1 = .stopped ∨ p.1 = .starting ∨ p.1 = .completed ∨ p.1 = .failed
  paused : p.1 = .paused → ∃ gate ∈ p.2, gate.parked = true ∧ gate.requested = true
  running : p.1 = .running → ∃ gate ∈ p.2, gate.requested = false

/-- A sequence of publications follows the diagram from a state on. -/
def FollowsDiagram : WorkflowRunState → List Publication → Prop
  | _, [] => True
  | previous, p :: published => InDiagram previous p ∧ FollowsDiagram p.1 published

theorem FollowsDiagram.singleton {previous : WorkflowRunState} {p : Publication} :
    FollowsDiagram previous [p] ↔ InDiagram previous p := and_iff_left trivial

theorem lastState_cons (state : WorkflowRunState) (p : Publication) (published : List Publication) :
    lastState state (p :: published) = lastState p.1 published := by
  cases published with
  | nil => rfl
  | cons q published =>
    unfold lastState
    rw [List.getLast?_cons_cons]
    cases hlast : (q :: published).getLast? with
    | none => exact absurd (List.getLast?_eq_none_iff.mp hlast) (List.cons_ne_nil _ _)
    | some last => rfl

theorem FollowsDiagram.append {previous : WorkflowRunState} {front back : List Publication} :
    FollowsDiagram previous (front ++ back) ↔
      FollowsDiagram previous front ∧ FollowsDiagram (lastState previous front) back := by
  induction front generalizing previous with
  | nil => exact (and_iff_right trivial).symm
  | cons p front ih =>
    rw [lastState_cons, List.cons_append, FollowsDiagram, FollowsDiagram, ih, and_assoc]

theorem lastState_append (state : WorkflowRunState) (front back : List Publication) :
    lastState state (front ++ back) = lastState (lastState state front) back := by
  induction front generalizing state with
  | nil => rfl
  | cons p front ih => rw [List.cons_append, lastState_cons, lastState_cons, ih]

theorem publications_append (front back : List LifecycleEffect) :
    publications (front ++ back) = publications front ++ publications back :=
  List.filterMap_append

/-! ## What is published -/

/-- A step of the supervisor publishes these states, and the last of them is its status. -/
structure Publishes (w : LifecycleWorld) (s : LifecycleWorld × List LifecycleEffect)
    (published : List Publication) : Prop where
  effects : publications s.2 = published
  current : s.1.current.state = lastState w.current.state published

theorem Publishes.append {w : LifecycleWorld} {s t : LifecycleWorld × List LifecycleEffect}
    {front back : List Publication} (h : Publishes w s front) (h' : Publishes s.1 t back) :
    Publishes w (t.1, s.2 ++ t.2) (front ++ back) := by
  refine ⟨?_, ?_⟩
  · rw [publications_append, h.effects, h'.effects]
  · rw [lastState_append, ← h.current]
    exact h'.current

namespace LifecycleWorld

theorem reply_publishes (w : LifecycleWorld) (envelope : Envelope) :
    Publishes w (w.reply envelope) [] := by
  unfold reply
  split
  · exact ⟨rfl, rfl⟩
  · exact ⟨rfl, rfl⟩

theorem settle_publishes (w : LifecycleWorld) : Publishes w w.settle [] := by
  unfold settle
  split
  · split
    · exact ⟨(reply_publishes _ _).effects, (reply_publishes { w with pending := none } _).current⟩
    · exact ⟨rfl, rfl⟩
  · exact ⟨rfl, rfl⟩

theorem publish_publishes (w : LifecycleWorld) (state : WorkflowRunState) (error : Option String) :
    Publishes w (w.publish state error) [(state, w.gate?)] := by
  have hsettle := settle_publishes
    { w with current := { w.current with state := state, error := error } }
  refine ⟨?_, hsettle.current⟩
  exact congrArg (List.cons _) hsettle.effects

theorem accept_publishes (w : LifecycleWorld) (envelope : Envelope) :
    Publishes w (w.accept envelope) [] := by
  unfold accept
  cases w.pending with
  | none =>
    have hsettled := settle_publishes { w with pending := some envelope }
    exact ⟨hsettled.effects, hsettled.current⟩
  | some old =>
    have hreplied := reply_publishes { w with pending := none } old
    have hsettled := settle_publishes
      { ({ w with pending := none }.reply old).1 with pending := some envelope }
    exact Publishes.append (w := w) ⟨hreplied.effects, hreplied.current⟩
      ⟨hsettled.effects, hsettled.current⟩

theorem publishAccept_publishes (w : LifecycleWorld) (state : WorkflowRunState)
    (envelope : Envelope) : Publishes w (w.publishAccept state envelope) [(state, w.gate?)] :=
  (publish_publishes w state none).append (accept_publishes _ envelope)

theorem finishWith_publishes (w : LifecycleWorld) (result : Except SaciError Unit) :
    Publishes w (w.finishWith result) [] := by
  refine ⟨List.filterMap_eq_nil_iff.mpr fun effect heffect => ?_, rfl⟩
  obtain ⟨envelope, -, rfl⟩ := List.mem_map.mp heffect
  rfl

theorem thenFinish_publishes {w : LifecycleWorld} {s : LifecycleWorld × List LifecycleEffect}
    {published : List Publication} (h : Publishes w s published) (result : Except SaciError Unit) :
    Publishes w (thenFinish s result) published := by
  have hfinished := h.append (finishWith_publishes s.1 result)
  rwa [List.append_nil] at hfinished

/-! ## Missteps -/

/-- A step off the diagram: a pause, a stop, a restart or shutdown is handled while the runner
drains; the runner is seen parked when the pause has been lifted; or it is seen going on, because of a
shutdown that the supervisor has not seen, while the pause still stands. -/
def Missteps (w : LifecycleWorld) : LifecycleEvent → Prop
  | .handle => ∃ r envelope queue, w.phase = .running r ∧ w.queue = envelope :: queue ∧
      r.commandsOpen = true ∧ w.current.state = .stopping ∧
      (envelope.command = .pause ∨ envelope.command = .stop ∨ envelope.command = .restart)
  | .seeShutdown => ∃ r, w.phase = .running r ∧ w.shutdown = true ∧ w.cancelled = false ∧
      w.current.state = .stopping
  | .seeParked => ∃ r, w.phase = .running r ∧ r.parkedOpen = true ∧ r.gate.unseen = true ∧
      (w.current.state = .pausing ∧ r.gate.parked = true ∧ r.gate.requested = false ∨
        w.current.state = .paused ∧ r.gate.parked = false ∧ r.gate.requested = true)
  | _ => False

/-- A state other than those of a runner that goes on may always be published. -/
theorem inDiagram_of_ended {previous : WorkflowRunState} {p : Publication}
    (h : p.1 = .stopped ∨ p.1 = .starting ∨ p.1 = .completed ∨ p.1 = .failed) :
    InDiagram previous p := by
  refine ⟨fun _ => h, fun hpaused => ?_, fun hrunning => ?_⟩
  · rw [hpaused] at h
    simp at h
  · rw [hrunning] at h
    simp at h

theorem inDiagram_pausing_iff {previous : WorkflowRunState} {gate : Option PauseGate} :
    InDiagram previous (.pausing, gate) ↔ previous ≠ .stopping := by
  constructor
  · intro h hprevious
    have hnext := h.stopping hprevious
    simp at hnext
  · exact fun h => ⟨fun hprevious => absurd hprevious h, nofun, nofun⟩

theorem inDiagram_stopping_iff {previous : WorkflowRunState} {gate : Option PauseGate} :
    InDiagram previous (.stopping, gate) ↔ previous ≠ .stopping := by
  constructor
  · intro h hprevious
    have hnext := h.stopping hprevious
    simp at hnext
  · exact fun h => ⟨fun hprevious => absurd hprevious h, nofun, nofun⟩

theorem inDiagram_paused_iff (gate : PauseGate) (hparked : gate.parked = true) :
    InDiagram .pausing (.paused, some gate) ↔ gate.requested = true := by
  constructor
  · intro h
    obtain ⟨_, ⟨⟩, -, hrequested⟩ := h.paused rfl
    exact hrequested
  · exact fun h => ⟨nofun, fun _ => ⟨gate, rfl, hparked, h⟩, nofun⟩

theorem inDiagram_running_iff {previous : WorkflowRunState} (gate : PauseGate)
    (hprevious : previous ≠ .stopping) :
    InDiagram previous (.running, some gate) ↔ gate.requested = false := by
  constructor
  · intro h
    obtain ⟨_, ⟨⟩, hrequested⟩ := h.running rfl
    exact hrequested
  · exact fun h => ⟨fun h => absurd h hprevious, nofun, fun _ => ⟨gate, rfl, h⟩⟩

/-- What a step does: its publications, which follow the diagram unless the step is a misstep. -/
def StepsInDiagram (w : LifecycleWorld) (s : LifecycleWorld × List LifecycleEffect)
    (event : LifecycleEvent) : Prop :=
  ∃ published, Publishes w s published ∧
    (FollowsDiagram w.current.state published ↔ ¬ w.Missteps event)

theorem stepsInDiagram_nil {w : LifecycleWorld} {s : LifecycleWorld × List LifecycleEffect}
    {event : LifecycleEvent} (h : Publishes w s []) (hmissteps : ¬ w.Missteps event) :
    StepsInDiagram w s event :=
  ⟨[], h, iff_of_true trivial hmissteps⟩

theorem seeShutdown_inDiagram (w : LifecycleWorld) :
    StepsInDiagram w w.seeShutdown .seeShutdown := by
  unfold seeShutdown
  split
  · next hshutdown =>
    split
    · next r hphase =>
      split
      · next hcancelled =>
        refine stepsInDiagram_nil ⟨rfl, rfl⟩ ?_
        rintro ⟨_, -, -, hnot, -⟩
        exact Bool.false_ne_true (hnot.symm.trans hcancelled)
      · next hcancelled =>
        have hpublishes := publish_publishes { w with cancelled := true } .stopping none
        refine ⟨_, ⟨hpublishes.effects, hpublishes.current⟩, ?_⟩
        rw [FollowsDiagram.singleton, inDiagram_stopping_iff]
        constructor
        · rintro h ⟨_, -, -, -, hstopping⟩
          exact h hstopping
        · exact fun h hstopping =>
            h ⟨r, hphase, hshutdown, Bool.eq_false_iff.mpr hcancelled, hstopping⟩
    · next hphase =>
      refine stepsInDiagram_nil (finishWith_publishes _ _) ?_
      rintro ⟨r, hrunning, -⟩
      exact nomatch hphase.symm.trans hrunning
    · next hphase =>
      refine stepsInDiagram_nil (finishWith_publishes _ _) ?_
      rintro ⟨r, hrunning, -⟩
      exact nomatch hphase.symm.trans hrunning
    · next hrunning hparked habandoned =>
      refine stepsInDiagram_nil ⟨rfl, rfl⟩ ?_
      rintro ⟨r, hphase, -⟩
      exact hrunning r hphase
  · next hshutdown =>
    refine stepsInDiagram_nil ⟨rfl, rfl⟩ ?_
    rintro ⟨_, -, hyes, -⟩
    exact hshutdown hyes

theorem seeParked_inDiagram (w : LifecycleWorld) : StepsInDiagram w w.seeParked .seeParked := by
  unfold seeParked
  split
  · next r hphase =>
    split
    · next hclosed =>
      refine stepsInDiagram_nil ⟨rfl, rfl⟩ ?_
      rintro ⟨r', hphase', hopen, -⟩
      cases hphase.symm.trans hphase'
      exact hclosed hopen
    next hopen =>
    have hopen : r.parkedOpen = true := eq_true_of_ne_false fun h => hopen (by simp [h])
    split
    · next hunseen =>
      dsimp only
      have hpublishes := publish_publishes
        (w.withRun { r with gate := { r.gate with unseen := false }, isParked := r.gate.parked })
      split
      · next hparked =>
        split
        · next hpausing =>
          refine ⟨_, ⟨(hpublishes .paused none).effects, (hpublishes .paused none).current⟩, ?_⟩
          rw [FollowsDiagram.singleton, show w.current.state = .pausing from hpausing]
          refine (inDiagram_paused_iff { r.gate with unseen := false } hparked).trans ?_
          constructor
          · rintro hrequested ⟨r', hphase', -, -, h⟩
            cases hphase.symm.trans hphase'
            rcases h with ⟨-, -, hnot⟩ | ⟨hpaused, -⟩
            · exact Bool.false_ne_true (hnot.symm.trans hrequested)
            · exact nomatch hpausing.symm.trans hpaused
          · intro h
            refine eq_true_of_ne_false fun hnot => ?_
            exact h ⟨r, hphase, hopen, hunseen, .inl ⟨hpausing, hparked, hnot⟩⟩
        · next hpausing =>
          refine stepsInDiagram_nil ⟨rfl, rfl⟩ ?_
          rintro ⟨r', hphase', -, -, h⟩
          cases hphase.symm.trans hphase'
          rcases h with ⟨h, -⟩ | ⟨-, hnot, -⟩
          · exact hpausing h
          · exact Bool.false_ne_true (hnot.symm.trans hparked)
      · next hparked =>
        split
        · next hpaused =>
          refine ⟨_, ⟨(hpublishes .running none).effects, (hpublishes .running none).current⟩, ?_⟩
          rw [FollowsDiagram.singleton, show w.current.state = .paused from hpaused]
          refine (inDiagram_running_iff { r.gate with unseen := false } (by decide)).trans ?_
          constructor
          · rintro hrequested ⟨r', hphase', -, -, h⟩
            cases hphase.symm.trans hphase'
            rcases h with ⟨hpausing, -⟩ | ⟨-, -, hyes⟩
            · exact nomatch hpaused.symm.trans hpausing
            · exact Bool.false_ne_true (hrequested.symm.trans hyes)
          · intro h
            refine Bool.eq_false_iff.mpr fun hyes => ?_
            exact h ⟨r, hphase, hopen, hunseen,
              .inr ⟨hpaused, Bool.eq_false_iff.mpr hparked, hyes⟩⟩
        · next hpaused =>
          refine stepsInDiagram_nil ⟨rfl, rfl⟩ ?_
          rintro ⟨r', hphase', -, -, h⟩
          cases hphase.symm.trans hphase'
          rcases h with ⟨-, hyes, -⟩ | ⟨h, -⟩
          · exact hparked hyes
          · exact hpaused h
    · next hunseen =>
      have hnone : ¬ w.Missteps .seeParked := by
        rintro ⟨r', hphase', -, hyes, -⟩
        cases hphase.symm.trans hphase'
        exact hunseen hyes
      split
      · exact stepsInDiagram_nil ⟨rfl, rfl⟩ hnone
      · exact stepsInDiagram_nil ⟨rfl, rfl⟩ hnone
  · next hphase =>
    refine stepsInDiagram_nil ⟨rfl, rfl⟩ ?_
    rintro ⟨r, hrunning, -⟩
    exact hphase r hrunning

/-- The command arm of a runner, on the world without the command it took. -/
theorem handleRunning_inDiagram (w : LifecycleWorld) (r : SupervisedRun) (envelope : Envelope) :
    ∃ published, Publishes w (w.handleRunning r envelope) published ∧
      (FollowsDiagram w.current.state published ↔
        ¬ (w.current.state = .stopping ∧ (envelope.command = .pause ∨ envelope.command = .stop ∨
          envelope.command = .restart))) := by
  obtain ⟨command, id⟩ := envelope
  unfold handleRunning
  cases command with
  | start =>
    exact ⟨[], reply_publishes _ _, iff_of_true trivial (by rintro ⟨-, h⟩; simp at h)⟩
  | pause =>
    dsimp only
    split
    · have hpublishes := publishAccept_publishes
        (w.withRun { r with gate := r.gate.requestPause }) .pausing ⟨.pause, id⟩
      refine ⟨_, ⟨hpublishes.effects, hpublishes.current⟩, ?_⟩
      rw [FollowsDiagram.singleton, inDiagram_pausing_iff]
      exact not_congr (and_iff_left (.inl rfl)).symm
    · next hpaused =>
      refine ⟨[], accept_publishes _ _, iff_of_true trivial ?_⟩
      rintro ⟨hstopping, -⟩
      exact hpaused ⟨by rw [hstopping]; decide, by rw [hstopping]; decide⟩
  | resume =>
    dsimp only
    have hnot : ¬ (w.current.state = .stopping ∧ (WorkflowCommand.resume = .pause ∨
        WorkflowCommand.resume = .stop ∨ WorkflowCommand.resume = .restart)) := by
      rintro ⟨-, h⟩
      simp at h
    split
    · next hresumed =>
      have hpublishes := publishAccept_publishes
        (w.withRun { r with gate := r.gate.requestResume }) .running ⟨.resume, id⟩
      refine ⟨_, ⟨hpublishes.effects, hpublishes.current⟩, iff_of_true ?_ hnot⟩
      rw [FollowsDiagram.singleton]
      refine (inDiagram_running_iff _ fun hstopping => ?_).mpr rfl
      rcases hresumed.2 with hstate | hstate
      · exact nomatch hstopping.symm.trans hstate
      · exact nomatch hstopping.symm.trans hstate
    · have hpublishes := accept_publishes
        (w.withRun { r with gate := r.gate.requestResume }) ⟨.resume, id⟩
      exact ⟨[], ⟨hpublishes.effects, hpublishes.current⟩, iff_of_true trivial hnot⟩
  | stop =>
    have hpublishes := publishAccept_publishes (w.withRun { r with after := some .stop }) .stopping
      ⟨.stop, id⟩
    refine ⟨_, ⟨hpublishes.effects, hpublishes.current⟩, ?_⟩
    rw [FollowsDiagram.singleton, inDiagram_stopping_iff]
    exact not_congr (and_iff_left (.inr (.inl rfl))).symm
  | restart =>
    have hpublishes := publishAccept_publishes (w.withRun { r with after := some .restart })
      .stopping ⟨.restart, id⟩
    refine ⟨_, ⟨hpublishes.effects, hpublishes.current⟩, ?_⟩
    rw [FollowsDiagram.singleton, inDiagram_stopping_iff]
    exact not_congr (and_iff_left (.inr (.inr rfl))).symm

/-- Without a runner, only a start is published. -/
theorem handleParked_inDiagram (w : LifecycleWorld) (envelope : Envelope) :
    ∃ published, Publishes w (w.handleParked envelope) published ∧
      FollowsDiagram w.current.state published := by
  have hstarting : ∀ gate, FollowsDiagram w.current.state [(.starting, gate)] :=
    fun gate => FollowsDiagram.singleton.mpr (inDiagram_of_ended (.inr (.inl rfl)))
  have hpublishes := publishAccept_publishes w .starting envelope
  unfold handleParked
  split
  · exact ⟨_, ⟨hpublishes.effects, hpublishes.current⟩, hstarting _⟩
  · exact ⟨_, ⟨hpublishes.effects, hpublishes.current⟩, hstarting _⟩
  · exact ⟨[], reply_publishes _ _, trivial⟩

theorem handle_inDiagram (w : LifecycleWorld) : StepsInDiagram w w.handle .handle := by
  have hnone : (∀ r envelope queue, w.phase = .running r → w.queue = envelope :: queue →
      r.commandsOpen = true → False) → ¬ w.Missteps .handle := by
    rintro h ⟨r, envelope, queue, hphase, hqueue, hopen, -⟩
    exact h r envelope queue hphase hqueue hopen
  unfold handle
  cases hphase : w.phase with
  | building initial =>
    exact stepsInDiagram_nil ⟨rfl, rfl⟩ (hnone fun _ _ _ h => nomatch hphase.symm.trans h)
  | abandoned =>
    exact stepsInDiagram_nil ⟨rfl, rfl⟩ (hnone fun _ _ _ h => nomatch hphase.symm.trans h)
  | returned result =>
    exact stepsInDiagram_nil ⟨rfl, rfl⟩ (hnone fun _ _ _ h => nomatch hphase.symm.trans h)
  | parked =>
    have hnot := hnone fun _ _ _ h => nomatch hphase.symm.trans h
    cases hqueue : w.queue with
    | nil =>
      dsimp only
      split
      · exact stepsInDiagram_nil ⟨rfl, rfl⟩ hnot
      · exact stepsInDiagram_nil ⟨rfl, rfl⟩ hnot
    | cons envelope queue =>
      obtain ⟨published, hpublishes, hfollows⟩ :=
        handleParked_inDiagram { w with queue := queue, phase := .parked } envelope
      exact ⟨published, ⟨hpublishes.effects, hpublishes.current⟩, iff_of_true hfollows hnot⟩
  | running r =>
    cases hqueue : w.queue with
    | nil =>
      have hnot := hnone fun _ _ _ _ h => nomatch hqueue.symm.trans h
      dsimp only
      split
      · exact stepsInDiagram_nil ⟨rfl, rfl⟩ hnot
      · exact stepsInDiagram_nil ⟨rfl, rfl⟩ hnot
    | cons envelope queue =>
      dsimp only
      split
      · next hopen =>
        obtain ⟨published, hpublishes, hfollows⟩ :=
          handleRunning_inDiagram { w with queue := queue, phase := .running r } r envelope
        refine ⟨published, ⟨hpublishes.effects, hpublishes.current⟩, hfollows.trans ?_⟩
        refine not_congr ⟨fun h => ⟨r, envelope, queue, hphase, hqueue, hopen, h⟩, ?_⟩
        rintro ⟨r', envelope', queue', hphase', hqueue', -, h⟩
        obtain ⟨rfl, -⟩ := List.cons.inj (hqueue.symm.trans hqueue')
        exact h
      · next hclosed =>
        refine stepsInDiagram_nil ⟨rfl, rfl⟩ (hnone fun r' _ _ hphase' _ hopen => ?_)
        cases hphase.symm.trans hphase'
        exact hclosed hopen

theorem finish_inDiagram (w : LifecycleWorld) (result : Except SaciError Unit) :
    StepsInDiagram w (w.finish result) (.finish result) := by
  have hended : ∀ (w' : LifecycleWorld) (s : LifecycleWorld × List LifecycleEffect)
      (p : Publication), w'.current = w.current → Publishes w' s [p] →
      (p.1 = .stopped ∨ p.1 = .starting ∨ p.1 = .completed ∨ p.1 = .failed) →
      StepsInDiagram w s (.finish result) := by
    intro w' s p hcurrent hpublishes hp
    refine ⟨[p], ⟨hpublishes.effects, ?_⟩, iff_of_true ?_ not_false⟩
    · rw [← hcurrent]
      exact hpublishes.current
    · exact FollowsDiagram.singleton.mpr (inDiagram_of_ended hp)
  unfold finish
  split
  · dsimp only
    split
    · split
      · exact hended { w with phase := .parked, cancelled := w.cancelled || w.shutdown } _ _ rfl
          (thenFinish_publishes (publish_publishes _ _ _) _) (.inl rfl)
      · split
        · exact stepsInDiagram_nil ⟨rfl, rfl⟩ not_false
        · exact hended { w with phase := .parked, cancelled := w.cancelled || w.shutdown } _ _ rfl
            (publish_publishes _ _ _) (.inl rfl)
        · exact hended { w with phase := .parked, cancelled := w.cancelled || w.shutdown } _ _ rfl
            (thenFinish_publishes (publish_publishes _ _ _) _) (.inr (.inr (.inl rfl)))
    · split
      · exact hended { w with phase := .parked, cancelled := w.cancelled || w.shutdown } _ _ rfl
          (thenFinish_publishes (publish_publishes _ _ _) _) (.inr (.inr (.inr rfl)))
      · exact hended { w with phase := .parked, cancelled := w.cancelled || w.shutdown } _ _ rfl
          (publish_publishes _ _ _) (.inr (.inr (.inr rfl)))
  · exact stepsInDiagram_nil ⟨rfl, rfl⟩ not_false

/-- A run is published as running once there is one. -/
theorem run_publishes (w : LifecycleWorld) :
    Publishes w ({ w.withRun .new with
        current := { w.current with runs := w.current.runs + 1 } }.publish .running none)
      [(.running, some .new)] := by
  have hpublishes := publish_publishes { w.withRun .new with
    current := { w.current with runs := w.current.runs + 1 } } .running none
  exact ⟨hpublishes.effects, hpublishes.current⟩

theorem build_inDiagram {w : LifecycleWorld} (error : Option SaciError)
    (h : w.phase = .building true → w.current.state = .starting) :
    StepsInDiagram w (w.build error) (.build error) := by
  have hstarting : InDiagram w.current.state (.starting, w.gate?) :=
    inDiagram_of_ended (.inr (.inl rfl))
  unfold build
  dsimp only
  split
  · next hphase =>
    refine ⟨_, run_publishes w, iff_of_true ?_ not_false⟩
    rw [FollowsDiagram.singleton, h hphase]
    exact (inDiagram_running_iff _ (by decide)).mpr rfl
  · have hpublishes := publish_publishes w .starting none
    split
    · refine ⟨_, hpublishes.append (run_publishes _), iff_of_true ?_ not_false⟩
      have hnext : WorkflowRunState.starting ≠ .stopping := by decide
      exact ⟨hstarting, (inDiagram_running_iff _ hnext).mpr rfl, trivial⟩
    · next e =>
      have hfailed := publish_publishes
        { (w.publish .starting none).1 with phase := .parked } .failed (some e.display)
      have hboth := hpublishes.append ⟨hfailed.effects, hfailed.current⟩
      have hfollows : FollowsDiagram w.current.state [(.starting, w.gate?), (.failed, none)] :=
        ⟨hstarting, inDiagram_of_ended (.inr (.inr (.inr rfl))), trivial⟩
      split
      · exact ⟨_, hboth, iff_of_true hfollows not_false⟩
      · exact ⟨_, thenFinish_publishes hboth _, iff_of_true hfollows not_false⟩
  · exact stepsInDiagram_nil ⟨rfl, rfl⟩ not_false

/-- The clients' steps publish nothing. -/
theorem request_publishes (w : LifecycleWorld) (id : String) (command : WorkflowCommand) :
    Publishes w (w.request id command) [] := by
  unfold request
  dsimp only
  split
  · exact ⟨rfl, rfl⟩
  · split
    · exact ⟨rfl, rfl⟩
    · exact ⟨rfl, rfl⟩
    · exact ⟨rfl, rfl⟩

theorem send_publishes (w : LifecycleWorld) (id : Nat) : Publishes w (w.send id) [] := by
  unfold send
  split
  · exact ⟨rfl, rfl⟩
  · dsimp only
    split
    · exact ⟨rfl, rfl⟩
    · exact ⟨rfl, rfl⟩

theorem timeout_publishes (w : LifecycleWorld) (envelope : Envelope) :
    Publishes w (w.timeout envelope) [] := by
  unfold timeout
  split
  · exact ⟨rfl, rfl⟩
  · exact ⟨rfl, rfl⟩

theorem onGate_publishes (w : LifecycleWorld) (f : SupervisedRun → PauseGate) :
    Publishes w (w.onGate f, []) [] := by
  unfold onGate
  split
  · exact ⟨rfl, rfl⟩
  · exact ⟨rfl, rfl⟩

theorem apply_inDiagram {w : LifecycleWorld} (event : LifecycleEvent)
    (h : w.phase = .building true → w.current.state = .starting) :
    StepsInDiagram w (w.apply event) event := by
  cases event with
  | handle => exact handle_inDiagram w
  | seeShutdown => exact seeShutdown_inDiagram w
  | seeParked => exact seeParked_inDiagram w
  | finish result => exact finish_inDiagram w result
  | build error => exact build_inDiagram error h
  | request id command => exact stepsInDiagram_nil (request_publishes w id command) not_false
  | send id => exact stepsInDiagram_nil (send_publishes w id) not_false
  | timeout envelope => exact stepsInDiagram_nil (timeout_publishes w envelope) not_false
  | shutdown => exact stepsInDiagram_nil ⟨rfl, rfl⟩ not_false
  | registryGone => exact stepsInDiagram_nil ⟨rfl, rfl⟩ not_false
  | park => exact stepsInDiagram_nil (onGate_publishes w _) not_false
  | unpark => exact stepsInDiagram_nil (onGate_publishes w _) not_false
  | dropGate => exact stepsInDiagram_nil (onGate_publishes w _) not_false

/-! ## The first build -/

theorem reply_phase (w : LifecycleWorld) (envelope : Envelope) :
    (w.reply envelope).1.phase = w.phase := by
  unfold reply
  split
  · rfl
  · rfl

theorem settle_phase (w : LifecycleWorld) : w.settle.1.phase = w.phase := by
  unfold settle
  split
  · split
    · exact reply_phase _ _
    · rfl
  · rfl

theorem publish_phase (w : LifecycleWorld) (state : WorkflowRunState) (error : Option String) :
    (w.publish state error).1.phase = w.phase := settle_phase _

theorem accept_phase (w : LifecycleWorld) (envelope : Envelope) :
    (w.accept envelope).1.phase = w.phase := by
  unfold accept
  cases w.pending with
  | none => exact settle_phase _
  | some old => exact (settle_phase _).trans (reply_phase { w with pending := none } old)

theorem publishAccept_phase (w : LifecycleWorld) (state : WorkflowRunState) (envelope : Envelope) :
    (w.publishAccept state envelope).1.phase = w.phase :=
  (accept_phase _ _).trans (publish_phase _ _ _)

theorem handleRunning_phase {w : LifecycleWorld} {r : SupervisedRun} (h : w.phase = .running r)
    (envelope : Envelope) : ∃ r', (w.handleRunning r envelope).1.phase = .running r' := by
  unfold handleRunning
  split
  · split
    · exact ⟨_, publishAccept_phase (w.withRun _) _ _⟩
    · exact ⟨r, (accept_phase _ _).trans h⟩
  · dsimp only
    split
    · exact ⟨_, publishAccept_phase (w.withRun _) _ _⟩
    · exact ⟨_, accept_phase (w.withRun _) _⟩
  · exact ⟨_, rfl⟩
  · exact ⟨_, rfl⟩
  · exact ⟨r, (reply_phase _ _).trans h⟩

theorem handleParked_phase {w : LifecycleWorld} (h : w.phase = .parked) (envelope : Envelope) :
    (w.handleParked envelope).1.phase = .building false ∨
      (w.handleParked envelope).1.phase = .parked := by
  unfold handleParked
  split
  · exact .inl rfl
  · exact .inl rfl
  · exact .inr ((reply_phase _ _).trans h)

theorem request_phase (w : LifecycleWorld) (id : String) (command : WorkflowCommand) :
    (w.request id command).1.phase = w.phase := by
  unfold request
  dsimp only
  split
  · rfl
  · split
    · rfl
    · rfl
    · rfl

theorem send_phase (w : LifecycleWorld) (id : Nat) : (w.send id).1.phase = w.phase := by
  unfold send
  split
  · rfl
  · dsimp only
    split
    · rfl
    · rfl

theorem timeout_phase (w : LifecycleWorld) (envelope : Envelope) :
    (w.timeout envelope).1.phase = w.phase := by
  unfold timeout
  split
  · rfl
  · rfl

theorem handle_building {w : LifecycleWorld} (h : w.handle.1.phase = .building true) :
    w.handle.1 = w := by
  unfold handle at h ⊢
  cases hphase : w.phase with
  | building initial => rfl
  | abandoned => rfl
  | returned result => rfl
  | running r =>
    rw [hphase] at h
    cases hqueue : w.queue with
    | nil =>
      rw [hqueue] at h
      dsimp only at h ⊢
      split at h
      · exact nomatch h
      · exact nomatch hphase.symm.trans h
    | cons envelope queue =>
      rw [hqueue] at h
      dsimp only at h ⊢
      split at h
      · obtain ⟨r', hr'⟩ := handleRunning_phase (w := { w with queue := queue, phase := .running r }) rfl
          envelope
        exact nomatch hr'.symm.trans h
      · exact nomatch hphase.symm.trans h
  | parked =>
    rw [hphase] at h
    cases hqueue : w.queue with
    | nil =>
      rw [hqueue] at h
      dsimp only at h ⊢
      split at h
      · exact nomatch h
      · exact nomatch hphase.symm.trans h
    | cons envelope queue =>
      rw [hqueue] at h
      rcases handleParked_phase (w := { w with queue := queue, phase := .parked }) rfl envelope with
        hparked | hparked
      · exact nomatch hparked.symm.trans h
      · exact nomatch hparked.symm.trans h

theorem seeShutdown_building {w : LifecycleWorld} (h : w.seeShutdown.1.phase = .building true) :
    w.seeShutdown.1 = w := by
  unfold seeShutdown at h ⊢
  split at h
  · next hshutdown =>
    rw [if_pos hshutdown]
    split at h
    · split at h
      · next hcancelled => rw [if_pos hcancelled]
      · exact nomatch h
    · exact nomatch h
    · exact nomatch h
    · rfl
  · next hshutdown => rw [if_neg hshutdown]

theorem seeParked_phase {w : LifecycleWorld} {r : SupervisedRun} (h : w.phase = .running r) :
    ∃ r', w.seeParked.1.phase = .running r' := by
  unfold seeParked
  rw [h]
  dsimp only
  split
  · exact ⟨r, h⟩
  split
  · split
    · split
      · exact ⟨_, publish_phase (w.withRun _) _ _⟩
      · exact ⟨_, rfl⟩
    · split
      · exact ⟨_, publish_phase (w.withRun _) _ _⟩
      · exact ⟨_, rfl⟩
  · split
    · exact ⟨_, rfl⟩
    · exact ⟨r, h⟩

theorem seeParked_building {w : LifecycleWorld} (h : w.seeParked.1.phase = .building true) :
    w.seeParked.1 = w := by
  cases hphase : w.phase with
  | running r =>
    obtain ⟨r', hr'⟩ := seeParked_phase hphase
    exact nomatch hr'.symm.trans h
  | building initial => rw [seeParked, hphase]
  | parked => rw [seeParked, hphase]
  | abandoned => rw [seeParked, hphase]
  | returned result => rw [seeParked, hphase]

theorem finish_building {w : LifecycleWorld} {result : Except SaciError Unit}
    (h : (w.finish result).1.phase = .building true) : (w.finish result).1 = w := by
  have hparked : ∀ state error,
      ({ w with phase := .parked, cancelled := w.cancelled || w.shutdown }.publish state
        error).1.phase ≠ .building true := by
    intro state error hbuilding
    exact nomatch (publish_phase _ state error).symm.trans hbuilding
  unfold finish at h ⊢
  split at h
  · dsimp only at h
    split at h
    · split at h
      · exact nomatch h
      · split at h
        · exact nomatch h
        · exact absurd h (hparked _ _)
        · exact nomatch h
    · split at h
      · exact nomatch h
      · exact absurd h (hparked _ _)
  · rfl

theorem build_building {w : LifecycleWorld} {error : Option SaciError}
    (h : (w.build error).1.phase = .building true) : (w.build error).1 = w := by
  unfold build at h ⊢
  dsimp only at h ⊢
  split at h
  · exact nomatch (publish_phase _ _ _).symm.trans h
  · split at h
    · exact nomatch (publish_phase _ _ _).symm.trans h
    · split at h
      · exact nomatch (publish_phase _ _ _).symm.trans h
      · exact nomatch h
  · rfl

theorem onGate_building {w : LifecycleWorld} {f : SupervisedRun → PauseGate}
    (h : (w.onGate f).phase = .building true) : w.onGate f = w := by
  unfold onGate at h ⊢
  split at h
  · exact nomatch h
  · rfl

/-- Only a workflow whose supervisor has just started has its first build in hand, and nothing is
published before it. -/
theorem apply_building {w : LifecycleWorld} {event : LifecycleEvent}
    (h : (w.apply event).1.phase = .building true) :
    w.phase = .building true ∧ (w.apply event).1.current.state = w.current.state := by
  have hsame : (w.apply event).1 = w →
      w.phase = .building true ∧ (w.apply event).1.current.state = w.current.state :=
    fun heq => ⟨heq ▸ h, congrArg (fun w => w.current.state) heq⟩
  cases event with
  | handle => exact hsame (handle_building h)
  | seeShutdown => exact hsame (seeShutdown_building h)
  | seeParked => exact hsame (seeParked_building h)
  | finish result => exact hsame (finish_building h)
  | build error => exact hsame (build_building h)
  | request id command => exact ⟨request_phase w id command ▸ h, (request_publishes w id command).current⟩
  | send id => exact ⟨send_phase w id ▸ h, (send_publishes w id).current⟩
  | timeout envelope => exact ⟨timeout_phase w envelope ▸ h, (timeout_publishes w envelope).current⟩
  | shutdown => exact ⟨h, rfl⟩
  | registryGone => exact ⟨h, rfl⟩
  | park => exact hsame (onGate_building h)
  | unpark => exact hsame (onGate_building h)
  | dropGate => exact hsame (onGate_building h)

/-- Along a run, from any state of the supervisor. -/
theorem follows_iff {w : LifecycleWorld} {events : List LifecycleEvent}
    (h : w.phase = .building true → w.current.state = .starting) :
    (∀ w' effects, run step w events = .ok (w', effects) →
      FollowsDiagram w.current.state (publications effects.flatten)) ↔
      EachStep step (fun w event => ¬ w.Missteps event) w events := by
  induction events generalizing w with
  | nil =>
    refine iff_of_true (fun w' effects hrun => ?_) trivial
    obtain ⟨-, rfl⟩ := run_nil_eq_ok_iff.mp hrun
    exact trivial
  | cons event events ih =>
    obtain ⟨published, hpublishes, hfollows⟩ := apply_inDiagram event h
    have hnext : (w.apply event).1.phase = .building true →
        (w.apply event).1.current.state = .starting := by
      intro hbuilding
      obtain ⟨hfirst, hsame⟩ := apply_building hbuilding
      exact hsame.trans (h hfirst)
    have hsplit : ∀ effects : List (List LifecycleEffect),
        FollowsDiagram w.current.state (publications ((w.apply event).2 :: effects).flatten) ↔
          ¬ w.Missteps event ∧
            FollowsDiagram (w.apply event).1.current.state (publications effects.flatten) := by
      intro effects
      rw [List.flatten_cons, publications_append, hpublishes.effects, FollowsDiagram.append,
        ← hpublishes.current, hfollows]
    constructor
    · intro hall
      have hrest : ∀ w' effects, run step (w.apply event).1 events = .ok (w', effects) →
          ¬ w.Missteps event ∧
            FollowsDiagram (w.apply event).1.current.state (publications effects.flatten) := by
        intro w' effects hrun
        exact (hsplit effects).mp (hall w' _
          (run_cons_eq_ok_iff.mpr ⟨_, _, effects, rfl, hrun, rfl⟩))
      obtain ⟨w', effects, hrun, -⟩ := run_total (f := step) (I := fun _ => True)
        (fun w event _ => ⟨_, _, rfl, trivial⟩) trivial (s := (w.apply event).1) events
      refine ⟨(hrest w' effects hrun).1, fun w'' effects' hstep => ?_⟩
      obtain ⟨rfl, -⟩ := Prod.mk.inj (Except.ok.inj hstep)
      exact (ih hnext).mp fun w' effects hrun => (hrest w' effects hrun).2
    · rintro ⟨hstep, hrest⟩ w' effects hrun
      obtain ⟨w'', effects', effects'', hfirst, hbehind, rfl⟩ := run_cons_eq_ok_iff.mp hrun
      have happly : w.apply event = (w'', effects') := Except.ok.inj hfirst
      obtain rfl : (w.apply event).1 = w'' := congrArg Prod.fst happly
      obtain rfl : (w.apply event).2 = effects' := congrArg Prod.snd happly
      exact (hsplit effects'').mpr ⟨hstep, (ih hnext).mpr (hrest _ _ rfl) w' effects'' hbehind⟩

end LifecycleWorld

/-- **The lifecycle diagram**: from the registration of a workflow on, the states that its supervisor
publishes follow the diagram exactly when no step is a misstep. -/
theorem states_follow_iff (id : String) (name blocker : Option String)
    (events : List LifecycleEvent) :
    (∀ w effects, run LifecycleWorld.step (.start id name blocker) events = .ok (w, effects) →
      FollowsDiagram .starting (publications effects.flatten)) ↔
      EachStep LifecycleWorld.step (fun w event => ¬ w.Missteps event) (.start id name blocker)
        events :=
  LifecycleWorld.follows_iff fun _ => rfl

end Saci

namespace Saci.LifecycleSample

/-- Two clients see the workflow running; the supervisor handles the stop of one and then the pause
of the other. -/
def stoppedThenPaused : List LifecycleEvent :=
  [.build none, .request "orders" .stop, .request "orders" .pause, .send 0, .send 1, .handle,
    .handle]

/-- Behind `stopping` the supervisor publishes `pausing`. -/
theorem pausing_behind_stopping :
    ∃ w effects, run LifecycleWorld.step (.start "orders" none none) stoppedThenPaused =
        .ok (w, effects) ∧
      (publications effects.flatten).map Prod.fst = [.running, .stopping, .pausing] ∧
      ¬ FollowsDiagram .starting (publications effects.flatten) := by
  refine ⟨_, _, rfl, by decide, fun h => ?_⟩
  exact absurd (h.2.2.1.stopping rfl) (by decide)

end Saci.LifecycleSample
