import Saci.Connectors.BinlogCycle

/-!
# The definitions a stream decodes with

A stream pops the recorded definitions off its timeline as its commits reach their tags. Over every run
of a stream, after every commit, the plan in use is that of the definition which the history finds in
force at the position reached.
-/

namespace Saci.Mariadb

/-! ## The events of a stream -/

/-- What a stream hands its cycle. -/
inductive StreamInput (I : Type)
  | formatDescription
  | rotate (name : String) (position : Nat)
  | gtid (uuid : Uuid) (tag : Option String) (gno : Nat)
  | payload (logPos : Nat)
  | begin
  | row (op : Op) (image : I)
  | commit (timestamp logPos : Nat) (ddl : Bool)

namespace Cycle
variable {I P S : Type}

/-- The cycle after an event, and the rows it queues. -/
def step (cy : Cycle I P S) : StreamInput I → SaciResult (Cycle I P S × List (Change I P))
  | .formatDescription => .ok (cy.onFormatDescription, [])
  | .rotate name position => .ok (cy.onRotate name position, [])
  | .gtid uuid tag gno => .ok (cy.onGtid uuid tag gno, [])
  | .payload logPos => .ok (cy.onPayload logPos, [])
  | .begin => .ok (cy.onBegin, [])
  | .row op image => .ok (cy.onRow op image, [])
  | .commit timestamp logPos ddl => do
    let (cy, queue, _) ← cy.onCommit [] timestamp logPos ddl
    return (cy, queue)

/-- The stream moves on in its files: every position it reaches is in a file of these names, and at or
after the one before. -/
def Forward (names : String → Prop) (cy : Cycle I P S) (input : StreamInput I) : Prop :=
  ∀ cy' rows, cy.step input = .ok (cy', rows) → ∀ name pos,
    cy'.tailPosition = some (.file name pos) →
      names name ∧ ∀ p, cy.tailPosition = some p → reached p (.file name pos) = true

/-- A position in the stream's mode. -/
def InMode (cy : Cycle I P S) : Position → Prop
  | .file _ _ => cy.fileMode = true
  | .gtid set => cy.fileMode = false ∧ set = cy.readSet

/-- The cycle has read up to a position. -/
structure At (cy : Cycle I P S) (p : Position) : Prop where
  tail : cy.tailPosition = some p
  mode : cy.InMode p

theorem At.reaches {cy : Cycle I P S} {p : Position} (h : cy.At p) (tag : Position) :
    cy.reaches tag = reached tag p := by
  obtain ⟨htail, hmode⟩ := h
  cases tag with
  | file name pos =>
    rw [Cycle.reaches, htail, Option.any_some]
    cases p with
    | file name' pos' => rw [show cy.fileMode = true from hmode, Bool.true_and]
    | gtid set => exact Bool.and_false _
  | gtid set =>
    rw [Cycle.reaches]
    cases p with
    | file name' pos' =>
      rw [show cy.fileMode = true from hmode]
      rfl
    | gtid set' =>
      obtain ⟨hmode, rfl⟩ := hmode
      rw [hmode]
      rfl

theorem at_withTimeline (start : Position) (limit : Nat) (timeline : Timeline P) :
    (withTimeline start limit timeline : Cycle I P S).At start := by
  cases start with
  | file name pos => exact ⟨rfl, rfl⟩
  | gtid set => exact ⟨rfl, rfl, rfl⟩

/-! ## What an event changes -/

section
variable {cy cy' : Cycle I P S} {p : Position} {last : Nat} {ddl : Bool}

/-- Two cycles at one place in the stream. -/
structure SamePlace (cy cy' : Cycle I P S) : Prop where
  fileMode : cy'.fileMode = cy.fileMode
  file : cy'.file = cy.file
  readSet : cy'.readSet = cy.readSet
  fileTail : cy'.fileTail = cy.fileTail
  start : cy'.start = cy.start

theorem At.same (hat : cy.At p) (h : SamePlace cy cy') : cy'.At p := by
  refine ⟨?_, ?_⟩
  · rw [tailPosition, h.fileMode, h.fileTail, h.start, h.readSet]
    exact hat.tail
  · have hmode := hat.mode
    cases p with
    | file name pos => exact h.fileMode.trans hmode
    | gtid set => exact ⟨h.fileMode.trans hmode.1, hmode.2.trans h.readSet.symm⟩

/-- Where the stream is after an event that does not leave its mode. -/
theorem At.forward {names : String → Prop} (h : cy.At p) (hmode : cy'.fileMode = cy.fileMode)
    (hset : cy.readSet.isSubsetOf cy'.readSet = true)
    (hfile : cy.fileMode = true → ∃ name pos, cy'.tailPosition = some (.file name pos))
    (hforward : ∀ name pos, cy'.tailPosition = some (.file name pos) →
      names name ∧ ∀ p, cy.tailPosition = some p → reached p (.file name pos) = true) :
    ∃ p', cy'.At p' ∧ p'.InFiles names ∧ reached p p' = true := by
  cases hm : cy.fileMode with
  | true =>
    obtain ⟨name, pos, htail⟩ := hfile hm
    obtain ⟨hname, hle⟩ := hforward name pos htail
    exact ⟨.file name pos, ⟨htail, hmode.trans hm⟩, hname, hle p h.tail⟩
  | false =>
    refine ⟨.gtid cy'.readSet, ⟨?_, hmode.trans hm, rfl⟩, trivial, ?_⟩
    · rw [tailPosition, hmode, hm]
      rfl
    · have hmode := h.mode
      cases p with
      | file name pos => cases hm.symm.trans hmode
      | gtid set => exact hmode.2 ▸ hset

theorem settle_fileMode : (cy.settle last ddl).fileMode = cy.fileMode := by
  unfold settle
  cases ddl <;> rfl

theorem settle_file : (cy.settle last ddl).file = cy.file := by
  unfold settle
  cases ddl <;> rfl

theorem settle_readSet : (cy.settle last ddl).readSet = cy.readSet := by
  unfold settle
  cases ddl <;> rfl

theorem settle_timeline : (cy.settle last ddl).timeline = cy.timeline := by
  unfold settle
  cases ddl <;> rfl

theorem settle_tail (hmode : cy.fileMode = true) {name : String} (hfile : cy.file = some name) :
    (cy.settle last ddl).tailPosition = some (.file name last) := by
  unfold settle
  cases ddl <;> simp [tailPosition, hmode, hfile]

/-- The set of the transactions read only grows. -/
theorem grow_eq_ok {gtid : Option GtidKey} (h : cy.grow gtid = .ok cy') :
    cy'.fileMode = cy.fileMode ∧ cy'.file = cy.file ∧ cy'.timeline = cy.timeline ∧ cy'.tx = cy.tx ∧
      cy.readSet.isSubsetOf cy'.readSet = true := by
  unfold grow at h
  split at h
  · cases h
    exact ⟨rfl, rfl, rfl, rfl, GtidSet.isSubsetOf_refl⟩
  · split_ifs at h
    · cases h
      exact ⟨rfl, rfl, rfl, rfl, GtidSet.isSubsetOf_refl⟩
    · split at h
      · cases h
      · rename_i readSet hinsert
        cases h
        obtain ⟨group, rfl⟩ := GtidSet.insert_eq_ok hinsert
        exact ⟨rfl, rfl, rfl, rfl, GtidSet.isSubsetOf_add _⟩

/-- What a commit goes through. -/
theorem onCommit_eq_ok {queue queue' : List (Change I P)} {timestamp logPos : Nat} {handled : Handled}
    (h : cy.onCommit queue timestamp logPos ddl = .ok (cy', queue', handled)) :
    ∃ grown, grow { cy with payloadEnd := none, inTx := false, gtid := none } cy.gtid = .ok grown ∧
      (grown.settle (cy.payloadEnd.getD logPos) ddl).advanceTimeline = .ok cy' ∧
      queue' = queue ++ stamp grown.file (cy.gtid.map GtidKey.text) (cy.payloadEnd.getD logPos)
        (timestamp * 1000000) (grown.ackOf cy.gtid (cy.payloadEnd.getD logPos)) grown.tx ∧
      handled = if 0 < cy'.limit ∧ cy'.limit ≤ cy'.rowsRead then .stop else .continue := by
  unfold onCommit at h
  dsimp only at h
  split_ifs at h
  · cases h
  · obtain ⟨grown, hgrow, h⟩ := bind_eq_ok_iff.mp h
    obtain ⟨advanced, hadvance, h⟩ := bind_eq_ok_iff.mp h
    cases h
    exact ⟨grown, hgrow, hadvance, rfl, rfl⟩

/-- Switching definitions leaves the place alone. -/
theorem go_samePlace {ahead : List (Mariadb.Step P)} (h : advanceTimeline.go cy ahead = .ok cy') :
    SamePlace cy cy' := by
  induction ahead generalizing cy with
  | nil =>
    cases h
    exact ⟨rfl, rfl, rfl, rfl, rfl⟩
  | cons step ahead ih =>
    rw [advanceTimeline.go] at h
    split_ifs at h
    · split at h
      · cases h
      · have hsame := ih h
        exact ⟨hsame.fileMode, hsame.file, hsame.readSet, hsame.fileTail, hsame.start⟩
    · cases h
      exact ⟨rfl, rfl, rfl, rfl, rfl⟩

end

/-! ## The definition in force -/

section
variable {D : Type} {buildPlan : D → Except String P} {history : History D} {cy cy' : Cycle I P S}
  {p : Position} {front back : List (Entry D)} {e : Entry D}

/-- The definition in use is one of the history's, with those after it ahead. -/
structure InStep (buildPlan : D → Except String P) (history : History D) (cy : Cycle I P S)
    (front : List (Entry D)) (e : Entry D) (back : List (Entry D)) : Prop where
  entries : history.entries = front ++ e :: back
  ahead : cy.timeline.ahead = back.map fun entry => ⟨entry.tag, buildPlan entry.definition⟩
  active : buildPlan e.definition = .ok cy.timeline.active

theorem InStep.congr (h : InStep buildPlan history cy front e back)
    (htimeline : cy'.timeline = cy.timeline) : InStep buildPlan history cy' front e back :=
  ⟨h.entries, htimeline ▸ h.ahead, htimeline ▸ h.active⟩

/-- After the switch, the first definition ahead is not reached. -/
theorem InStep.advance (h : InStep buildPlan history cy front e back) (hat : cy.At p)
    (he : reached e.tag p = true) (hadvance : cy.advanceTimeline = .ok cy') :
    ∃ front e back, InStep buildPlan history cy' front e back ∧ reached e.tag p = true ∧
      ∀ next ∈ back.head?, reached next.tag p = false := by
  rw [advanceTimeline, h.ahead] at hadvance
  induction back generalizing cy front e with
  | nil =>
    cases hadvance
    exact ⟨front, e, [], h, he, nofun⟩
  | cons next back ih =>
    rw [List.map_cons, advanceTimeline.go, hat.reaches] at hadvance
    split_ifs at hadvance with hreached
    · split at hadvance
      · cases hadvance
      · rename_i active hactive
        have hentries : history.entries = (front ++ [e]) ++ next :: back := by
          rw [h.entries, List.append_assoc, List.singleton_append]
        have hnext : InStep buildPlan history
            { cy with
              timeline := ⟨active, back.map fun entry => ⟨entry.tag, buildPlan entry.definition⟩⟩
              ddlSeen := false
              ddlAt := none }
            (front ++ [e]) next back := ⟨hentries, rfl, hactive⟩
        exact ih hnext (hat.same ⟨rfl, rfl, rfl, rfl, rfl⟩) hreached hadvance
    · cases hadvance
      refine ⟨front, e, next :: back, h, he, fun entry hentry => ?_⟩
      cases hentry
      exact Bool.eq_false_iff.mpr hreached

theorem timelineAt_inStep {table : String} {display : Position → String} {timeline : Timeline P}
    (h : timelineAt table display buildPlan history p = .ok timeline) (limit : Nat) :
    ∃ front e back, InStep buildPlan history (withTimeline p limit timeline : Cycle I P S) front e back ∧
      reached e.tag p = true := by
  unfold timelineAt at h
  split at h
  · cases h
  · rename_i entry hentry
    split at h
    · cases h
    · rename_i active hactive
      cases h
      obtain ⟨front, back, hat⟩ := History.exists_of_inForce hentry
      have htimeline : (withTimeline p limit ⟨active, (history.after p).map fun entry =>
          ⟨entry.tag, buildPlan entry.definition⟩⟩ : Cycle I P S).timeline =
          ⟨active, back.map fun entry => ⟨entry.tag, buildPlan entry.definition⟩⟩ := by
        rw [hat.after]
        cases p <;> rfl
      exact ⟨front, entry, back, ⟨hat.entries, by rw [htimeline], by rw [htimeline]; exact hactive⟩,
        hat.reached⟩

/-! ## One event -/

/-- The stream is at a position where the definition in use holds. -/
structure Placed (names : String → Prop) (buildPlan : D → Except String P) (history : History D)
    (cy : Cycle I P S) : Prop where
  file : cy.fileMode = true → ∃ name, cy.file = some name
  place : ∃ p, cy.At p ∧ p.InFiles names ∧ ∃ front e back,
    InStep buildPlan history cy front e back ∧ reached e.tag p = true

/-- The definition in use is the one that the history finds. -/
def Agrees (buildPlan : D → Except String P) (history : History D) (cy : Cycle I P S) : Prop :=
  ∃ p entry, cy.tailPosition = some p ∧ history.inForce p = some entry ∧
    buildPlan entry.definition = .ok cy.timeline.active

variable {names : String → Prop}

theorem Placed.same (h : Placed names buildPlan history cy) (hplace : SamePlace cy cy')
    (htimeline : cy'.timeline = cy.timeline) : Placed names buildPlan history cy' := by
  obtain ⟨p, hat, hp, front, e, back, hin, he⟩ := h.place
  refine ⟨fun hmode => ?_, p, hat.same hplace, hp, front, e, back, hin.congr htimeline, he⟩
  exact hplace.file ▸ h.file (hplace.fileMode ▸ hmode)

/-- The definition in use still holds further on. -/
theorem Placed.forward (h : Placed names buildPlan history cy) (hnames : Ordered names)
    (htags : ∀ e ∈ history.entries, e.tag.InFiles names) (hmode : cy'.fileMode = cy.fileMode)
    (hset : cy.readSet.isSubsetOf cy'.readSet = true)
    (hfile : cy.fileMode = true → ∃ name pos, cy'.tailPosition = some (.file name pos))
    (hforward : ∀ name pos, cy'.tailPosition = some (.file name pos) →
      names name ∧ ∀ p, cy.tailPosition = some p → reached p (.file name pos) = true)
    (htimeline : cy'.timeline = cy.timeline) :
    ∃ p, cy'.At p ∧ p.InFiles names ∧ ∃ front e back,
      InStep buildPlan history cy' front e back ∧ reached e.tag p = true := by
  obtain ⟨p, hat, hp, front, e, back, hin, he⟩ := h.place
  obtain ⟨p', hat', hp', hle⟩ := hat.forward hmode hset hfile hforward
  have hmem : e ∈ history.entries := hin.entries ▸ List.mem_append_right _ List.mem_cons_self
  exact ⟨p', hat', hp', front, e, back, hin.congr htimeline,
    hnames.trans (htags e hmem) hp hp' he hle⟩

/-- Of the definitions of a chain, none is reached past one that is not. -/
theorem InStep.ahead_of_head (h : InStep buildPlan history cy front e back) (hnames : Ordered names)
    (hsorted : history.Sorted) (htags : ∀ e ∈ history.entries, e.tag.InFiles names)
    (hp : p.InFiles names) (hhead : ∀ next ∈ back.head?, reached next.tag p = false) :
    ∀ b ∈ back, reached b.tag p = false := by
  cases back with
  | nil => nofun
  | cons next back =>
    have hnext := hhead next rfl
    have hmem : ∀ b ∈ next :: back, b ∈ history.entries := fun b hb =>
      h.entries ▸ List.mem_append_right _ (List.mem_cons_of_mem _ hb)
    rw [History.Sorted, h.entries, List.pairwise_append] at hsorted
    have hback := (List.pairwise_cons.mp (List.pairwise_cons.mp hsorted.2.1).2).1
    intro b hb
    rcases List.mem_cons.mp hb with rfl | hb'
    · exact hnext
    · refine Bool.eq_false_iff.mpr fun hreached => Bool.eq_false_iff.mp hnext ?_
      exact hnames.trans (htags next (hmem next List.mem_cons_self)) (htags b (hmem b hb)) hp
        (hback b hb') hreached

theorem step_placed (hnames : Ordered names) (hsorted : history.Sorted)
    (htags : ∀ e ∈ history.entries, e.tag.InFiles names) (h : Placed names buildPlan history cy)
    {input : StreamInput I} {rows : List (Change I P)} (hforward : Forward names cy input)
    (hstep : cy.step input = .ok (cy', rows)) :
    Placed names buildPlan history cy' ∧
      (∀ timestamp logPos ddl, input = .commit timestamp logPos ddl → Agrees buildPlan history cy') := by
  have hnext := hforward cy' rows hstep
  cases input with
  | formatDescription =>
    cases hstep
    exact ⟨h.same ⟨rfl, rfl, rfl, rfl, rfl⟩ rfl, nofun⟩
  | gtid uuid tag gno =>
    cases hstep
    exact ⟨h.same ⟨rfl, rfl, rfl, rfl, rfl⟩ rfl, nofun⟩
  | payload logPos =>
    cases hstep
    exact ⟨h.same ⟨rfl, rfl, rfl, rfl, rfl⟩ rfl, nofun⟩
  | begin =>
    cases hstep
    exact ⟨h.same ⟨rfl, rfl, rfl, rfl, rfl⟩ rfl, nofun⟩
  | row op image =>
    cases hstep
    exact ⟨h.same ⟨rfl, rfl, rfl, rfl, rfl⟩ rfl, nofun⟩
  | rotate name position =>
    cases hstep
    refine ⟨⟨fun _ => ⟨_, rfl⟩, h.forward hnames htags rfl GtidSet.isSubsetOf_refl (fun hmode => ?_)
      hnext rfl⟩, nofun⟩
    simp only [onRotate, tailPosition, hmode, if_true]
    exact ⟨_, _, rfl⟩
  | commit timestamp logPos ddl =>
    obtain ⟨⟨advanced, queue, handled⟩, hcommit, hrest⟩ := bind_eq_ok_iff.mp hstep
    cases hrest
    obtain ⟨grown, hgrow, hadvance, -, -⟩ := onCommit_eq_ok hcommit
    obtain ⟨hmode, hfile, htimeline, -, hset⟩ := grow_eq_ok hgrow
    have hsame := go_samePlace hadvance
    have htail : cy'.tailPosition = (grown.settle (cy.payloadEnd.getD logPos) ddl).tailPosition := by
      rw [tailPosition, tailPosition, hsame.fileMode, hsame.fileTail, hsame.start, hsame.readSet]
    rw [htail] at hnext
    have hend : cy.fileMode = true → ∃ name pos,
        (grown.settle (cy.payloadEnd.getD logPos) ddl).tailPosition = some (.file name pos) := by
      intro hm
      obtain ⟨name, hname⟩ := h.file hm
      exact ⟨name, _, settle_tail (hmode.trans hm) (hfile.trans hname)⟩
    obtain ⟨p, hat, hp, front, e, back, hin, he⟩ := h.forward hnames htags
      (settle_fileMode.trans hmode) (by rw [settle_readSet]; exact hset) hend hnext
      (settle_timeline.trans htimeline)
    obtain ⟨front, e, back, hin, he, hhead⟩ := hin.advance hat he hadvance
    have hat' := hat.same hsame
    refine ⟨⟨fun hm => ?_, p, hat', hp, front, e, back, hin, he⟩, fun _ _ _ _ => ?_⟩
    · obtain ⟨name, hname⟩ := h.file (hmode.symm.trans (settle_fileMode.symm.trans
        (hsame.fileMode.symm.trans hm)))
      exact ⟨name, hsame.file.trans (settle_file.trans (hfile.trans hname))⟩
    · have hforce : history.InForceAt p front e back :=
        ⟨hin.entries, he, hin.ahead_of_head hnames hsorted htags hp hhead⟩
      exact ⟨p, e, hat'.tail, hforce.inForce, hin.active⟩

end

/-! ## Whole streams -/

section
variable {D : Type} {buildPlan : D → Except String P} {names : String → Prop}

theorem placed_withTimeline {history : History D} {table : String} {display : Position → String}
    {start : Position} {timeline : Timeline P} (hstart : start.InFiles names)
    (h : timelineAt table display buildPlan history start = .ok timeline) (limit : Nat) :
    Placed names buildPlan history (withTimeline start limit timeline : Cycle I P S) := by
  obtain ⟨front, e, back, hin, he⟩ := timelineAt_inStep (I := I) (S := S) h limit
  refine ⟨fun _ => ?_, start, at_withTimeline start limit timeline, hstart, front, e, back, hin, he⟩
  cases start with
  | file name pos => exact ⟨name, rfl⟩
  | gtid set =>
    rename_i hmode
    cases hmode

/-- **The stream agrees with the history.** Of definitions inserted in any order whose tags form a chain,
the plan in use after each commit is that of the definition in force at the position reached, whatever
the start and the events before; and pruning at a position changes neither the definition in force nor
those after it, at that position or later. -/
theorem timeline_agrees (hnames : Ordered names) {entries : List (Entry D)}
    (hchain : History.Chain entries) (htags : ∀ e ∈ entries, e.tag.InFiles names) (table : String)
    (display : Position → String) :
    (∀ (start : Position) (limit : Nat) (timeline : Timeline P) (inputs : List (StreamInput I))
        (timestamp logPos : Nat) (ddl : Bool) (cy : Cycle I P S) (outs : List (List (Change I P))),
      start.InFiles names →
      timelineAt table display buildPlan (History.new entries) start = .ok timeline →
      run step (withTimeline start limit timeline) (inputs ++ [.commit timestamp logPos ddl]) =
        .ok (cy, outs) →
      EachStep step (Forward names) (withTimeline start limit timeline : Cycle I P S)
        (inputs ++ [.commit timestamp logPos ddl]) →
      Agrees buildPlan (History.new entries) cy) ∧
    ∀ position later : Position, position.InFiles names → later.InFiles names →
      reached position later = true →
      ((History.new entries).prune position).2.inForce later = (History.new entries).inForce later ∧
        ((History.new entries).prune position).2.after later = (History.new entries).after later := by
  have hsorted := History.sorted_new hnames htags hchain
  have htags' : ∀ e ∈ (History.new entries).entries, e.tag.InFiles names := fun e he =>
    htags e (History.mem_new.mp he)
  refine ⟨fun start limit timeline inputs timestamp logPos ddl cy outs hstart hat hrun hforward => ?_,
    fun position later hposition hlater hle => History.prune_later hnames htags' hposition hlater hle⟩
  obtain ⟨mid, outs', out, hfront, hlast, -⟩ := run_append_eq_ok_iff.mp hrun
  have hplaced : Placed names buildPlan (History.new entries) mid :=
    run_invariant_of_eachStep (fun s i s' o hs hC hf => (step_placed hnames hsorted htags' hs hC hf).1)
      hfront (EachStep.of_append hforward) (placed_withTimeline hstart hat limit)
  obtain ⟨rows, hcommit, -⟩ := run_singleton_eq_ok_iff.mp hlast
  have hC := ((eachStep_concat_iff hfront).mp hforward).2
  exact (step_placed hnames hsorted htags' hplaced hC hcommit).2 timestamp logPos ddl rfl

end

namespace Sample

/-- Two definitions, recorded in the order opposite to that of their tags. -/
def recorded : List (Entry Nat) := [⟨some 1, .file "log.000002" 4, 2⟩, ⟨some 2, .file "log.000001" 4, 1⟩]

/-- A file is read to its end, and a transaction of the next one commits. -/
def nextFile : List (StreamInput Unit) :=
  [.formatDescription, .commit 0 100 false, .rotate "log.000002" 4]

def numbered (name : String) : Prop := (logIndex name).isSome = true

theorem numbered_files : numbered "log.000001" ∧ numbered "log.000002" := ⟨by rfl, by rfl⟩

def opened : Cycle Unit Nat Unit := withTimeline (.file "log.000001" 4) 0 ⟨1, [⟨.file "log.000002" 4, .ok 2⟩]⟩

theorem forward_nextFile :
    EachStep step (Forward numbered) opened (nextFile ++ [.commit 0 50 false]) := by
  refine EachStep.cons (fun cy rows hstep name pos htail => ?_) rfl ?_
  · cases hstep
    cases htail
    exact ⟨numbered_files.1, fun p hp => by cases hp; decide⟩
  refine EachStep.cons (fun cy rows hstep name pos htail => ?_) rfl ?_
  · cases hstep
    cases htail
    exact ⟨numbered_files.1, fun p hp => by cases hp; decide⟩
  refine EachStep.cons (fun cy rows hstep name pos htail => ?_) rfl ?_
  · cases hstep
    cases htail
    exact ⟨numbered_files.2, fun p hp => by cases hp; decide⟩
  refine EachStep.cons (fun cy rows hstep name pos htail => ?_) rfl trivial
  cases hstep
  cases htail
  exact ⟨numbered_files.2, fun p hp => by cases hp; decide⟩

theorem chain_recorded : History.Chain recorded := by
  intro a ha b hb
  rcases List.mem_pair.mp ha with rfl | rfl
  · exact .inr (by rcases List.mem_pair.mp hb with rfl | rfl <;> decide)
  · exact .inl (by rcases List.mem_pair.mp hb with rfl | rfl <;> decide)

/-- The stream has switched to the second definition. -/
theorem nextFile_agrees : ∃ (cy : Cycle Unit Nat Unit) (outs : List (List (Change Unit Nat))),
    run step opened (nextFile ++ [.commit 0 50 false]) = .ok (cy, outs) ∧ cy.timeline.active = 2 ∧
      Agrees (fun n => .ok n) (History.new recorded) cy := by
  refine ⟨_, _, rfl, rfl, (timeline_agrees ordered_numbered chain_recorded (fun e he => ?_) "t"
    fun _ => "").1 (.file "log.000001" 4) 0 _ nextFile 0 50 false _ _ numbered_files.1 rfl rfl
    forward_nextFile⟩
  rcases List.mem_pair.mp he with rfl | rfl
  · exact numbered_files.2
  · exact numbered_files.1

end Sample
end Cycle
end Saci.Mariadb
