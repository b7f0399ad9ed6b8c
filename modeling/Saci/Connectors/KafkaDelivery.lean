import Saci.Connectors.Kafka

/-!
# At-least-once delivery

A commit covers whatever the consumer has been given. It covers only what the caller has been handed
exactly as long as no window that failed to decode held a payload: such a window has left the buffer,
and the next commit passes it.
-/

namespace Saci.Kafka

/-! ## What a run shows -/

/-- The messages the broker delivered. -/
def delivered (outputs : List Output) : List ReceivedMessage :=
  outputs.filterMap fun
    | .delivered message => some message
    | _ => none

/-- The messages of the batches that calls returned. -/
def returned (outputs : List Output) : List ReceivedMessage :=
  outputs.flatMap fun
    | .returned window _ => window
    | _ => []

/-- The messages of all windows, also of those that did not decode. -/
def taken (outputs : List Output) : List ReceivedMessage :=
  outputs.flatMap fun
    | .returned window _ => window
    | .undecoded window _ => window
    | _ => []

/-- The messages that carry a row. -/
def carrying (messages : List ReceivedMessage) : List ReceivedMessage :=
  messages.filter fun message => message.payload.isSome

/-- Every commit covers only what a call has returned by then, tombstones apart, and the messages are
returned in delivery order, each once. -/
structure AtLeastOnce (outputs : List Output) : Prop where
  covered : ∀ before after, outputs = before ++ .committed :: after →
    carrying (delivered before) = carrying (returned before)
  ordered : (returned outputs).Sublist (delivered outputs)

section
variable (cfg : KafkaSourceConfig) (transformer : MessageTransformer)

/-- The window that a step takes out of the buffer. -/
def windowOf (s : State) (input : Input) : Option (List ReceivedMessage) :=
  match turnOf cfg s input with
  | some (_, .ended s (.ok ())) => if s.buffer.isEmpty then none else some s.buffer
  | _ => none

/-- The window that the step takes decodes, if a message of it carries a row. -/
def Decodes (s : State) (input : Input) : Prop :=
  ∀ window, windowOf cfg s input = some window →
    carrying window = [] ∨ ∃ batch, decodeWindow transformer window = .ok batch

/-- The step commits. -/
def Commits (s : State) (input : Input) : Prop :=
  s.phase = .idle ∧ s.pendingCommit = true ∧ cfg.commitOnDrain = true ∧
    ∃ start assignment, input = .call start (.ok ()) assignment ∧
      (s.started = true ∨ start = .ready)

end

section
variable {outputs more : List Output}

theorem delivered_append : delivered (outputs ++ more) = delivered outputs ++ delivered more :=
  List.filterMap_append

theorem returned_append : returned (outputs ++ more) = returned outputs ++ returned more :=
  List.flatMap_append

theorem taken_append : taken (outputs ++ more) = taken outputs ++ taken more := List.flatMap_append

theorem carrying_append (first second : List ReceivedMessage) :
    carrying (first ++ second) = carrying first ++ carrying second := List.filter_append ..

/-- What is returned is what is taken, without the windows that did not decode. -/
theorem returned_sublist_taken (outputs : List Output) :
    (returned outputs).Sublist (taken outputs) := by
  induction outputs with
  | nil => exact .refl []
  | cons output outputs ih =>
    rw [← List.singleton_append, returned_append, taken_append]
    refine List.Sublist.append ?_ ih
    cases output with
    | undecoded window e => exact List.nil_sublist _
    | delivered | committed | returned | refused | drained => exact .refl _

/-- Nothing that carries a row is missing from what is returned exactly when no window lost one. -/
theorem carrying_taken_eq_iff (outputs : List Output) :
    carrying (taken outputs) = carrying (returned outputs) ↔
      ∀ window e, .undecoded window e ∈ outputs → carrying window = [] := by
  induction outputs with
  | nil => exact iff_of_true rfl nofun
  | cons output outputs ih =>
    rw [← List.singleton_append, returned_append, taken_append, carrying_append, carrying_append]
    cases output with
    | undecoded window e =>
      have hnow : taken [.undecoded window e] = window := List.append_nil window
      have hle : (carrying (returned outputs)).length ≤ (carrying (taken outputs)).length :=
        ((returned_sublist_taken outputs).filter _).length_le
      rw [hnow]
      constructor
      · intro heq
        have hlength := congrArg List.length heq
        have hnone : carrying (returned [.undecoded window e]) = [] := rfl
        rw [hnone, List.nil_append, List.length_append] at hlength
        have hempty : carrying window = [] := List.length_eq_zero_iff.mp (by omega)
        rw [hnone, hempty, List.nil_append, List.nil_append] at heq
        intro other e' hmem
        rcases List.mem_cons.mp hmem with heq' | hmem
        · cases heq'
          exact hempty
        · exact ih.mp heq other e' hmem
      · intro hall
        have hempty := hall window e List.mem_cons_self
        have hrest := ih.mpr fun other e' hmem => hall other e' (List.mem_cons_of_mem _ hmem)
        rw [hempty, hrest]
        rfl
    | delivered | committed | returned | refused | drained =>
      refine (List.append_right_inj _).trans
        (ih.trans (forall_congr' fun window => forall_congr' fun e => imp_congr_left ?_))
      exact ⟨List.mem_cons_of_mem _, fun hmem => (List.mem_cons.mp hmem).resolve_left nofun⟩

end

/-! ## What a step does before a window is taken -/

/-- The state a collection is left in. -/
def Turn.state : Turn → State
  | .waits s => s
  | .ended s _ => s

section
variable {cfg : KafkaSourceConfig} {s : State} {saw : Bool} {input : Input} {turn : Turn}

theorem windowTurn_state :
    (windowTurn cfg s saw).state.buffer = s.buffer ∧
      (windowTurn cfg s saw).state.pendingCommit = s.pendingCommit := by
  rw [windowTurn]
  split_ifs <;> exact ⟨rfl, rfl⟩

theorem beginCollect_state (cfg : KafkaSourceConfig) (s : State)
    (assignment : Except String (List Int)) :
    (beginCollect cfg s assignment).state.buffer = s.buffer ∧
      (beginCollect cfg s assignment).state.pendingCommit = s.pendingCommit := by
  rw [beginCollect]
  split_ifs
  · exact windowTurn_state
  · split
    · exact ⟨rfl, rfl⟩
    · exact ⟨rfl, rfl⟩
    · exact windowTurn_state
  · exact ⟨rfl, rfl⟩
  · exact windowTurn_state

/-- What an answer of the broker adds to the buffer. -/
def arriving : Input → List ReceivedMessage
  | .received message => [message]
  | _ => []

theorem arriving_eq_nil (h : ∀ message, input = .received message → False) : arriving input = [] := by
  cases input with
  | received message => exact (h message rfl).elim
  | _ => rfl

/-- A collection only adds what arrives. -/
theorem collect_state (h : collect cfg s input = some turn) :
    turn.state.buffer = s.buffer ++ arriving input ∧
      turn.state.pendingCommit = s.pendingCommit := by
  unfold collect at h
  split at h
  case h_1 => cases h; exact windowTurn_state
  case h_2 => cases h; exact ⟨(List.append_nil _).symm, rfl⟩
  case h_3 =>
    cases h
    split_ifs <;> exact ⟨(List.append_nil _).symm, rfl⟩
  case h_4 => cases h; exact ⟨(List.append_nil _).symm, rfl⟩
  case h_5 => cases h; exact windowTurn_state
  case h_6 =>
    dsimp only [arriving]
    rw [List.append_nil]
    split_ifs at h
    · dsimp only at h
      split at h
      · cases h; exact ⟨rfl, rfl⟩
      · cases h; exact ⟨rfl, rfl⟩
      · cases h; exact windowTurn_state
    · cases h; exact windowTurn_state
  case h_7 =>
    cases h
    dsimp only [arriving]
    rw [List.append_nil]
    exact windowTurn_state
  case h_8 => cases h; exact ⟨(List.append_nil _).symm, rfl⟩
  case h_9 => cases h; exact ⟨(List.append_nil _).symm, rfl⟩
  case h_10 => cases h

/-- A pending commit is one of an empty buffer, and waits for the next call. -/
structure Settled (s : State) : Prop where
  empty : s.pendingCommit = true → s.buffer = []
  idle : s.pendingCommit = true → s.phase = .idle

/-- What a step does before a window is taken. -/
structure Prepares (cfg : KafkaSourceConfig) (s : State) (input : Input) (outputs : List Output)
    (turn : Turn) : Prop where
  buffer : turn.state.buffer = s.buffer ++ delivered outputs
  /-- It takes no window, and commits at most once, as the first thing. -/
  short : outputs = [] ∨ outputs = [.committed] ∨ ∃ message, outputs = [.delivered message]
  committed : .committed ∈ outputs ↔ Commits cfg s input
  empty : turn.state.pendingCommit = true → turn.state.buffer = []
  idle : ∀ s', turn = .waits s' → s'.pendingCommit = true → s'.phase = .idle

/-- An answer of the broker commits nothing. -/
theorem prepares_collect (hphase : s.phase ≠ .idle) (h : Settled s)
    (hcollect : collect cfg s input = some turn) :
    Prepares cfg s input ((arriving input).map .delivered) turn := by
  obtain ⟨hbuffer, hpending⟩ := collect_state hcollect
  have hnone : turn.state.pendingCommit ≠ true := fun hsome =>
    hphase (h.idle (hpending.symm.trans hsome))
  refine ⟨?_, ?_, ?_, fun hsome => absurd hsome hnone, fun s' hwaits hsome => ?_⟩
  · rw [hbuffer]
    cases input <;> rfl
  · cases input with
    | received message => exact .inr (.inr ⟨message, rfl⟩)
    | _ => exact .inl rfl
  · refine iff_of_false (fun hmem => ?_) fun hcommits => hphase hcommits.1
    obtain ⟨message, -, hmem⟩ := List.mem_map.mp hmem
    cases hmem
  · subst hwaits
    exact absurd hsome hnone

/-- The commit and the collection of a call. -/
theorem prepares_commitAndCollect (cfg : KafkaSourceConfig) {s₁ : State} {start : Start}
    {commit : Except String Unit} {assignment : Except String (List Int)} (hphase : s.phase = .idle)
    (h : Settled s) (hready : s.started = true ∨ start = .ready) (hbuffer : s₁.buffer = s.buffer)
    (hpending : s₁.pendingCommit = s.pendingCommit) :
    Prepares cfg s (.call start commit assignment) (commitAndCollect cfg s₁ commit assignment).1
      (commitAndCollect cfg s₁ commit assignment).2 := by
  unfold commitAndCollect commitPending
  rw [hpending]
  split_ifs with hcommits
  · obtain ⟨hsome, hdrain⟩ := Bool.and_eq_true_iff.mp hcommits
    cases commit with
    | error e =>
      refine ⟨hbuffer.trans (List.append_nil _).symm, .inl rfl, iff_of_false nofun ?_, fun _ => ?_, nofun⟩
      · rintro ⟨-, -, -, _, _, hcall, -⟩
        cases hcall
      · exact hbuffer.trans (h.empty hsome)
    | ok =>
      obtain ⟨hsame, hcleared⟩ :=
        beginCollect_state cfg { s₁ with pendingCommit := false } assignment
      have hnone : (beginCollect cfg { s₁ with pendingCommit := false }
          assignment).state.pendingCommit ≠ true := by
        rw [hcleared]
        exact nofun
      refine ⟨?_, .inr (.inl rfl), iff_of_true (List.mem_singleton_self _)
        ⟨hphase, hsome, hdrain, start, assignment, rfl, hready⟩, fun hsome => absurd hsome hnone,
        fun s' hwaits hsome => ?_⟩
      · exact hsame.trans (hbuffer.trans (List.append_nil _).symm)
      · exact absurd ((congrArg (·.state.pendingCommit) hwaits).trans hsome) hnone
  · obtain ⟨hsame, hcleared⟩ :=
      beginCollect_state cfg { s₁ with pendingCommit := false } assignment
    have hnone : (beginCollect cfg { s₁ with pendingCommit := false }
        assignment).state.pendingCommit ≠ true := by
      rw [hcleared]
      exact nofun
    refine ⟨?_, .inl rfl, iff_of_false nofun fun ⟨_, hsome, hdrain, _⟩ => ?_,
      fun hsome => absurd hsome hnone, fun s' hwaits hsome => ?_⟩
    · exact hsame.trans (hbuffer.trans (List.append_nil _).symm)
    · exact hcommits (Bool.and_eq_true_iff.mpr ⟨hsome, hdrain⟩)
    · exact absurd ((congrArg (·.state.pendingCommit) hwaits).trans hsome) hnone

/-- `next_batch` up to its first wait. -/
theorem prepares_call (cfg : KafkaSourceConfig) (hphase : s.phase = .idle) (h : Settled s) (start : Start)
    (commit : Except String Unit) (assignment : Except String (List Int)) :
    Prepares cfg s (.call start commit assignment) (beginCall cfg s start commit assignment).1
      (beginCall cfg s start commit assignment).2 := by
  unfold beginCall
  split_ifs with hstarted
  · exact prepares_commitAndCollect cfg hphase h (.inl hstarted) rfl rfl
  · cases start with
    | ready => exact prepares_commitAndCollect cfg hphase h (.inr rfl) rfl rfl
    | failed e =>
      refine ⟨(List.append_nil _).symm, .inl rfl, iff_of_false nofun ?_, h.empty, nofun⟩
      rintro ⟨-, -, -, _, _, hcall, hready⟩
      cases hcall
      rcases hready with hready | hready
      · exact hstarted hready
      · cases hready
    | dropped =>
      refine ⟨(List.append_nil _).symm, .inl rfl, iff_of_false nofun ?_, h.empty, fun s' hwaits _ => ?_⟩
      · rintro ⟨-, -, -, _, _, hcall, hready⟩
        cases hcall
        rcases hready with hready | hready
        · exact hstarted hready
        · cases hready
      · cases hwaits
        exact hphase

theorem prepares_turnOf (h : Settled s) {outputs : List Output}
    (hturn : turnOf cfg s input = some (outputs, turn)) : Prepares cfg s input outputs turn := by
  unfold turnOf at hturn
  split at hturn
  case h_1 rows hphase =>
    cases hturn
    exact ⟨(List.append_nil _).symm, .inl rfl,
      iff_of_false nofun fun ⟨_, _, _, _, _, hcall, _⟩ => (nomatch hcall), h.empty, fun s' hwaits _ => by
        cases hwaits
        exact hphase⟩
  case h_2 start commit assignment hphase =>
    have hpair : beginCall cfg s start commit assignment = (outputs, turn) := Option.some.inj hturn
    have hprepares := prepares_call cfg hphase h start commit assignment
    rwa [hpair] at hprepares
  case h_3 => cases hturn
  case h_4 hphase =>
    cases hturn
    exact ⟨(List.append_nil _).symm, .inl rfl,
      iff_of_false nofun fun ⟨_, _, _, _, _, hcall, _⟩ => (nomatch hcall), h.empty, fun s' hwaits _ => by
        cases hwaits
        rfl⟩
  case h_5 message hphase =>
    obtain ⟨collected, hcollect, hpair⟩ := Option.map_eq_some_iff.mp hturn
    cases hpair
    exact prepares_collect hphase h hcollect
  case h_6 hreceived hidle _ _ =>
    obtain ⟨collected, hcollect, hpair⟩ := Option.map_eq_some_iff.mp hturn
    cases hpair
    have hprepares := prepares_collect hidle h hcollect
    rwa [arriving_eq_nil hreceived] at hprepares

end

/-! ## A step -/

section
variable {cfg : KafkaSourceConfig} {transformer : MessageTransformer} {s s' : State} {input : Input}
  {outputs more : List Output}

/-- The end of a call: what was in the buffer has been taken or is still there. -/
theorem settle_taken (transformer : MessageTransformer) (turn : Turn) :
    taken (settle transformer turn).2 ++ (settle transformer turn).1.buffer = turn.state.buffer ∧
      delivered (settle transformer turn).2 = [] ∧ .committed ∉ (settle transformer turn).2 := by
  unfold settle
  split
  · exact ⟨rfl, rfl, nofun⟩
  · exact ⟨rfl, rfl, by simp⟩
  · split_ifs
    · exact ⟨rfl, rfl, by simp⟩
    · split
      · exact ⟨by simp [taken, Turn.state], rfl, by simp⟩
      · exact ⟨by simp [taken, Turn.state], rfl, by simp⟩

/-- A window is lost exactly when one that carries a row does not decode. -/
theorem settle_lossless {turn : Turn} (hturn : turnOf cfg s input = some (outputs, turn)) :
    (∀ window e, .undecoded window e ∈ (settle transformer turn).2 → carrying window = []) ↔
      Decodes cfg transformer s input := by
  rw [Decodes, windowOf, hturn]
  unfold settle
  cases turn with
  | waits s => exact iff_of_true nofun nofun
  | ended s result =>
    cases result with
    | error e => exact iff_of_true (by simp) nofun
    | ok =>
      dsimp only
      split_ifs
      · exact iff_of_true (by simp) nofun
      · cases hdecode : decodeWindow transformer s.buffer with
        | ok batch =>
          refine iff_of_true (by simp) fun window hwindow => .inr ⟨batch, ?_⟩
          cases hwindow
          exact hdecode
        | error e =>
          constructor
          · intro hall window hwindow
            cases hwindow
            exact .inl (hall s.buffer e (List.mem_singleton_self _))
          · intro hdecodes window e' hmem
            cases List.mem_singleton.mp hmem
            refine (hdecodes s.buffer rfl).resolve_right ?_
            rintro ⟨batch, hok⟩
            cases hdecode.symm.trans hok

theorem settle_settled {turn : Turn} (h : Prepares cfg s input outputs turn) :
    Settled (settle transformer turn).1 := by
  unfold settle
  cases turn with
  | waits s' => exact ⟨h.empty, h.idle s' rfl⟩
  | ended s' result =>
    cases result with
    | error e => exact ⟨h.empty, fun _ => rfl⟩
    | ok =>
      dsimp only
      split_ifs
      · exact ⟨h.empty, fun _ => rfl⟩
      · cases decodeWindow transformer s'.buffer <;> exact ⟨fun _ => rfl, fun _ => rfl⟩

/-- Every delivered message has been taken out in a window or is in the buffer, in delivery order. -/
structure Accounts (s : State) (outputs : List Output) : Prop where
  settled : Settled s
  conserved : taken outputs ++ s.buffer = delivered outputs

/-- The step lemma, with what the step says of commits and losses. -/
theorem Accounts.step (h : Accounts s outputs) (hstep : step cfg transformer s input = .ok (s', more)) :
    Accounts s' (outputs ++ more) ∧
      ((∀ window e, .undecoded window e ∈ more → carrying window = []) ↔
        Decodes cfg transformer s input) ∧
      ((∀ before after, outputs ++ more = before ++ .committed :: after →
          carrying (delivered before) = carrying (returned before)) ↔
        (∀ before after, outputs = before ++ .committed :: after →
          carrying (delivered before) = carrying (returned before)) ∧
        (Commits cfg s input → carrying (delivered outputs) = carrying (returned outputs))) := by
  rw [Kafka.step] at hstep
  split at hstep
  next pre turn hturn =>
    cases hstep
    have hprepares := prepares_turnOf h.settled hturn
    obtain ⟨htaken, hdelivered, hnone⟩ := settle_taken transformer turn
    have hpre : taken pre = [] ∧ ∀ window e, .undecoded window e ∉ pre := by
      rcases hprepares.short with rfl | rfl | ⟨message, rfl⟩
      · exact ⟨rfl, nofun⟩
      · exact ⟨rfl, by simp⟩
      · exact ⟨rfl, by simp⟩
    refine ⟨⟨settle_settled hprepares, ?_⟩, ?_, ?_⟩
    · rw [taken_append, taken_append, hpre.1, List.nil_append, List.append_assoc, htaken,
        hprepares.buffer, ← List.append_assoc, h.conserved, delivered_append, delivered_append,
        hdelivered, List.append_nil]
    · rw [← settle_lossless hturn]
      refine forall_congr' fun window => forall_congr' fun e => imp_congr_left ?_
      rw [List.mem_append]
      exact or_iff_right (hpre.2 window e)
    · rw [before_append_iff]
      refine and_congr_right fun _ => ?_
      rw [← hprepares.committed]
      constructor
      · intro hall hmem
        obtain rfl : pre = [.committed] := by
          rcases hprepares.short with rfl | rfl | ⟨message, rfl⟩
          · cases hmem
          · rfl
          · cases List.mem_singleton.mp hmem
        have hfirst := hall [] _ rfl
        rwa [List.append_nil] at hfirst
      · intro hcommit before after heq
        have hmem : .committed ∈ pre := by
          have hany : Output.committed ∈ pre ++ (settle transformer turn).2 :=
            heq ▸ List.mem_append_right _ List.mem_cons_self
          exact (List.mem_append.mp hany).resolve_right hnone
        obtain rfl : pre = [.committed] := by
          rcases hprepares.short with rfl | rfl | ⟨message, rfl⟩
          · cases hmem
          · rfl
          · cases List.mem_singleton.mp hmem
        cases before with
        | nil =>
          rw [List.append_nil]
          exact hcommit hmem
        | cons first rest =>
          obtain ⟨-, hrest⟩ := List.cons_eq_cons.mp heq
          have hrest : (settle transformer turn).2 = rest ++ .committed :: after := hrest
          have hlater : Output.committed ∈ (settle transformer turn).2 :=
            hrest ▸ List.mem_append_right _ List.mem_cons_self
          exact absurd hlater hnone
  next => cases hstep

/-- **Exactly when delivery is at-least-once.** Every commit of a run covers only returned messages, in
delivery order and each once, exactly when no call before a commit took a window out of the buffer
that carries a row and does not decode. -/
theorem at_least_once_iff {inputs : List Input} {outs : List (List Output)}
    (h : run (step cfg transformer) (start cfg) inputs = .ok (s, outs)) :
    AtLeastOnce outs.flatten ↔
      ∀ done input rest s' outs', inputs = done ++ input :: rest →
        run (step cfg transformer) (start cfg) done = .ok (s', outs') → Commits cfg s' input →
          EachStep (step cfg transformer) (Decodes cfg transformer) (start cfg) done := by
  let Right := EachStep (step cfg transformer) (Decodes cfg transformer) (start cfg)
  obtain ⟨haccounts, -, hcovered⟩ : Accounts s outs.flatten ∧
      ((∀ window e, .undecoded window e ∈ outs.flatten → carrying window = []) ↔ Right inputs) ∧
      ((∀ before after, outs.flatten = before ++ .committed :: after →
          carrying (delivered before) = carrying (returned before)) ↔
        ∀ done input rest s' outs', inputs = done ++ input :: rest →
          run (step cfg transformer) (start cfg) done = .ok (s', outs') → Commits cfg s' input →
            Right done) := by
    refine run_history_induction (P := fun inputs s outs => Accounts s outs.flatten ∧
      ((∀ window e, .undecoded window e ∈ outs.flatten → carrying window = []) ↔ Right inputs) ∧
      ((∀ before after, outs.flatten = before ++ .committed :: after →
          carrying (delivered before) = carrying (returned before)) ↔
        ∀ done input rest s' outs', inputs = done ++ input :: rest →
          run (step cfg transformer) (start cfg) done = .ok (s', outs') → Commits cfg s' input →
            Right done)) ?_ (fun done s outs input s' more hdone hP hstep => ?_) h
    · refine ⟨⟨⟨nofun, nofun⟩, rfl⟩, iff_of_true nofun trivial, iff_of_true (by simp) ?_⟩
      intro done input rest _ _ heq
      cases done <;> cases heq
    · obtain ⟨haccounts, hlossless, hcovered⟩ := hP
      obtain ⟨hnext, hdecodes, hcommits⟩ := haccounts.step hstep
      have hconcat : Right (done ++ [input]) ↔ Right done ∧ Decodes cfg transformer s input :=
        eachStep_concat_iff hdone
      -- what a commit covers is all that has been taken, since the buffer is empty then
      have hlast : (Commits cfg s input →
          carrying (delivered outs.flatten) = carrying (returned outs.flatten)) ↔
            (Commits cfg s input → Right done) := by
        refine imp_congr_right fun ⟨_, hpending, _⟩ => ?_
        have htaken := haccounts.conserved
        rw [haccounts.settled.empty hpending, List.append_nil] at htaken
        rw [← htaken, carrying_taken_eq_iff]
        exact hlossless
      rw [List.flatten_append, List.flatten_singleton, hconcat]
      refine ⟨hnext, ?_, ?_⟩
      · rw [← hlossless, ← hdecodes]
        simp only [List.mem_append, or_imp, forall_and]
      · rw [hcommits, hcovered, hlast]
        exact (history_concat_iff
          (C := fun done s input => Commits cfg s input → Right done) hdone).symm
  refine ⟨fun hsafe => hcovered.mp hsafe.covered, fun hall => ⟨hcovered.mpr hall, ?_⟩⟩
  rw [← haccounts.conserved]
  exact (returned_sublist_taken _).trans (List.sublist_append_left _ _)

end

namespace Sample

/-- A format whose payloads are single bytes, and which refuses an empty payload. -/
def bytewise : MessageTransformer where
  Decoder := List (List Cell)
  openMessageDecoder := .ok []
  push rows payload :=
    match payload with
    | [] => .error (.generic "empty payload")
    | byte :: _ => .ok (rows ++ [[.int byte.toNat]])
  flush rows := .ok (if rows.isEmpty then none else some ⟨⟨[⟨"byte", .int64, false⟩]⟩, rows⟩)

/-- A live source that takes its messages one by one. -/
def one : KafkaSourceConfig := ⟨["bytes"], 1, false, true⟩

def message (offset : Int) (payload : Bytes) : ReceivedMessage := ⟨"bytes", 0, offset, some payload⟩

def next : Input := .call .ready (.ok ()) (.ok [0])

/-- An empty payload between two that decode. -/
def poisoned : List Input :=
  [next, .received (message 0 []), next, .received (message 1 [1]), next]

/-- The refused payload is committed with the one after it, although no call returned it. -/
theorem poisoned_commits :
    ∃ s outs, run (step one bytewise) (start one) poisoned = .ok (s, outs) ∧
      ¬AtLeastOnce outs.flatten := by
  refine ⟨_, _, rfl, fun h => ?_⟩
  have hcovered := h.covered [.delivered (message 0 []), .undecoded [message 0 []] _,
    .delivered (message 1 [1]), .returned [message 1 [1]] _] [] rfl
  exact absurd (congrArg List.length hcovered) (by decide)

/-- Two payloads that decode, and the commits after them. -/
def decoded : List Input :=
  [next, .received (message 0 [1]), next, .received (message 1 [2]), next]

theorem decoded_atLeastOnce :
    ∃ s outs, run (step one bytewise) (start one) decoded = .ok (s, outs) ∧
      AtLeastOnce outs.flatten := by
  obtain ⟨s, outs, h⟩ : ∃ s outs, run (step one bytewise) (start one) decoded = .ok (s, outs) :=
    ⟨_, _, rfl⟩
  refine ⟨s, outs, h, (at_least_once_iff h).mpr fun done input rest _ _ heq _ _ => ?_⟩
  have hall : EachStep (step one bytewise) (Decodes one bytewise) (start one) decoded := by
    refine EachStep.cons nofun rfl ?_
    refine EachStep.cons (fun window hwindow => .inr ⟨_, by cases hwindow; rfl⟩) rfl ?_
    refine EachStep.cons nofun rfl ?_
    refine EachStep.cons (fun window hwindow => .inr ⟨_, by cases hwindow; rfl⟩) rfl ?_
    exact EachStep.cons nofun rfl trivial
  rw [heq] at hall
  exact hall.of_append

end Sample
end Saci.Kafka
