import Saci.Connectors.PostgresSink

/-!
# What the sink does with the batches it accepts

Over every run, with failures and drops at every statement: an accepted batch is in exactly one flush
whose `COMMIT` was acknowledged or still in the buffer, a batch that was not accepted is in no flush
but that of its own call, and the `TRUNCATE` runs up to the first acknowledged flush and never again.
-/

namespace Saci.Postgres

/-! ## What a run shows -/

/-- The batches with rows whose `write_batch` returned `Ok`. -/
def accepted (events : List Event) : List RecordBatch :=
  events.filterMap fun
    | .returned (.write batch) (.ok ()) => if batch.numRows = 0 then none else some batch
    | _ => none

/-- The batches of the flushes whose `COMMIT` was acknowledged. -/
def acknowledged (events : List Event) : List RecordBatch :=
  events.flatMap fun
    | .flushed batches _ .acknowledged => batches
    | _ => []

/-- The batch of the `write_batch` that is under way, or was dropped last. -/
def held (events : List Event) : List RecordBatch :=
  match events.getLast? with
  | some (.called (.write batch)) => [batch]
  | some (.dropped (.write batch)) => [batch]
  | _ => []

/-- A flush writes the accepted batches that no acknowledged flush has written, and the batch of its
own call; it truncates when it should and no flush has been acknowledged, and then it writes every
accepted batch. -/
structure FlushFits (cfg : SinkConfig) (before : List Event) (batches : List RecordBatch)
    (truncate : Bool) : Prop where
  written : ∃ kept, batches = kept ++ held before ∧ acknowledged before ++ kept = accepted before
  truncates : truncate = true ↔ cfg.truncateBeforeFirstWrite = true ∧
    ∀ earlier truncated, .flushed earlier truncated .acknowledged ∉ before
  keeps : truncate = true → batches = accepted before ++ held before

/-- The accepted batches are accounted for. -/
structure SinkAccounts (cfg : SinkConfig) (s : State) (events : List Event) : Prop where
  counted : s.bufferedRows = (s.buffer.map RecordBatch.numRows).sum
  placed : ∃ kept, s.buffer = kept ++ held events ∧ acknowledged events ++ kept = accepted events
  flushes : ∀ batches truncate ending before after,
    events = before ++ .flushed batches truncate ending :: after →
      FlushFits cfg before batches truncate

/-- The call that a phase belongs to. -/
def Phase.call : Phase → Option Call
  | .idle => none
  | .connecting call => some call
  | .resolving call => some call
  | .writing call _ _ _ => some call

/-- The batch a call brings. -/
def Call.batches : Call → List RecordBatch
  | .write batch => [batch]
  | .finish => []

/-- The invariant that carries it. -/
structure Accounts (cfg : SinkConfig) (s : State) (events : List Event) : Prop
    extends SinkAccounts cfg s events where
  own : s.ownRows = ((held events).map RecordBatch.numRows).sum
  rows : ∀ batch ∈ held events, batch.numRows ≠ 0
  done : s.firstWriteDone = true ↔ ∃ batches truncate, .flushed batches truncate .acknowledged ∈ events
  called : ∀ call, s.phase.call = some call → events.getLast? = some (.called call)
  writing : ∀ call batches truncate rest, s.phase = .writing call batches truncate rest →
    batches = s.buffer ∧ truncate = (cfg.truncateBeforeFirstWrite && !s.firstWriteDone)

section
variable {events more : List Event}

theorem accepted_append : accepted (events ++ more) = accepted events ++ accepted more :=
  List.filterMap_append

theorem acknowledged_append :
    acknowledged (events ++ more) = acknowledged events ++ acknowledged more := List.flatMap_append

/-- Where no flush was acknowledged nothing was written. -/
theorem acknowledged_eq_nil
    (h : ∀ batches truncate, .flushed batches truncate .acknowledged ∉ events) :
    acknowledged events = [] := by
  rw [acknowledged, List.flatMap_eq_nil_iff]
  intro event hevent
  split
  next batches truncate => exact absurd hevent (h batches truncate)
  next => rfl

theorem held_concat (event : Event) : held (events ++ [event]) = held [event] := by
  rw [held, List.getLast?_concat, held]
  rfl

theorem held_of_called {call : Call} (h : events.getLast? = some (.called call)) :
    held events = call.batches := by
  rw [held, h]
  cases call <;> rfl

end

section
variable {cfg : SinkConfig} {s s' : State} {events more : List Event} {call : Call}

/-- `recover` takes back what a dropped `write_batch` left. -/
theorem Accounts.recover (h : Accounts cfg s events) :
    acknowledged events ++ (recover s).buffer = accepted events ∧
      (recover s).bufferedRows = ((recover s).buffer.map RecordBatch.numRows).sum ∧
      (recover s).ownRows = 0 ∧ (recover s).firstWriteDone = s.firstWriteDone ∧
      (recover s).phase = s.phase := by
  obtain ⟨kept, hbuffer, hkept⟩ := h.placed
  have hown := h.own
  have hcounted := h.counted
  rw [Postgres.recover]
  split_ifs with hpos
  · -- what is held is one batch, the last of the buffer
    obtain ⟨batch, hheld⟩ : ∃ batch, held events = [batch] := by
      rw [held] at hown ⊢
      split at hown
      next batch _ => exact ⟨batch, rfl⟩
      next batch _ => exact ⟨batch, rfl⟩
      next =>
        rw [hown] at hpos
        cases hpos
    rw [hheld] at hbuffer hown
    rw [hbuffer, List.map_append, List.sum_append] at hcounted
    refine ⟨?_, ?_, rfl, rfl, rfl⟩
    · dsimp only
      rw [hbuffer, List.dropLast_concat, hkept]
    · dsimp only
      rw [hbuffer, List.dropLast_concat, hcounted, hown, Nat.add_sub_cancel]
  · have hnone : held events = [] := by
      cases hheld : held events with
      | nil => rfl
      | cons batch batches =>
        have hrows := h.rows batch (hheld ▸ List.mem_cons_self)
        rw [hheld, List.map_cons, List.sum_cons] at hown
        omega
    rw [hnone, List.append_nil] at hbuffer
    refine ⟨hbuffer ▸ hkept, hcounted, Nat.eq_zero_of_not_pos hpos, rfl, rfl⟩

/-- The flushes of a longer run. -/
theorem flushes_append
    (h : ∀ batches truncate ending before after,
      events = before ++ .flushed batches truncate ending :: after →
        FlushFits cfg before batches truncate)
    (hmore : ∀ batches truncate ending before after,
      more = before ++ .flushed batches truncate ending :: after →
        FlushFits cfg (events ++ before) batches truncate) :
    ∀ batches truncate ending before after,
      events ++ more = before ++ .flushed batches truncate ending :: after →
        FlushFits cfg before batches truncate := fun batches truncate ending =>
  before_append_iff.mpr ⟨h batches truncate ending, hmore batches truncate ending⟩

/-- An event that is no flush. -/
theorem flushes_singleton {event : Event}
    (h : ∀ batches truncate ending, event ≠ .flushed batches truncate ending) :
    ∀ batches truncate ending before after,
      [event] = before ++ .flushed batches truncate ending :: after →
        FlushFits cfg (events ++ before) batches truncate := fun batches truncate ending =>
  before_cons_iff.mpr ⟨fun heq => absurd heq (h batches truncate ending), fun before _ heq => by
    cases before <;> cases heq⟩

/-- A flush, and the event after it. -/
theorem flushes_pair {batches : List RecordBatch} {truncate : Bool}
    (hfits : FlushFits cfg events batches truncate) (ending : Ending) {event : Event}
    (h : ∀ batches truncate ending, event ≠ .flushed batches truncate ending) :
    ∀ batches' truncate' ending' before after,
      [.flushed batches truncate ending, event] =
          before ++ .flushed batches' truncate' ending' :: after →
        FlushFits cfg (events ++ before) batches' truncate' := by
  intro batches' truncate' ending'
  refine before_cons_iff.mpr ⟨fun heq => ?_, ?_⟩
  · cases heq
    rwa [List.append_nil]
  · refine before_cons_iff.mpr ⟨fun heq => absurd heq (h batches' truncate' ending'), ?_⟩
    intro before _ heq
    cases before <;> cases heq

/-- The flush that a call has under way fits. -/
theorem Accounts.fits (h : Accounts cfg s events) {batches : List RecordBatch} {truncate : Bool}
    {rest : List Statement} (hphase : s.phase = .writing call batches truncate rest) :
    FlushFits cfg events batches truncate := by
  obtain ⟨rfl, rfl⟩ := h.writing call batches truncate rest hphase
  have htruncate : (cfg.truncateBeforeFirstWrite && !s.firstWriteDone) = true ↔
      cfg.truncateBeforeFirstWrite = true ∧
        ∀ earlier truncated, .flushed earlier truncated .acknowledged ∉ events := by
    rw [Bool.and_eq_true, Bool.not_eq_true', ← Bool.not_eq_true, h.done]
    refine and_congr_right fun _ => ?_
    simp only [not_exists]
  refine ⟨h.placed, htruncate, fun htrue => ?_⟩
  obtain ⟨kept, hbuffer, hkept⟩ := h.placed
  rw [acknowledged_eq_nil (htruncate.mp htrue).2, List.nil_append] at hkept
  rw [hbuffer, hkept]

/-! ## Calls -/

/-- A step that says nothing, and leaves the buffer alone. -/
theorem Accounts.wait (h : Accounts cfg s events) (hbuffer : s'.buffer = s.buffer)
    (hrows : s'.bufferedRows = s.bufferedRows) (hown : s'.ownRows = s.ownRows)
    (hdone : s'.firstWriteDone = s.firstWriteDone) (hlast : events.getLast? = some (.called call))
    (hcall : s'.phase.call = some call)
    (hwriting : ∀ call batches truncate rest, s'.phase = .writing call batches truncate rest →
      batches = s.buffer ∧ truncate = (cfg.truncateBeforeFirstWrite && !s.firstWriteDone)) :
    Accounts cfg s' events where
  counted := by rw [hrows, hbuffer, h.counted]
  placed := hbuffer ▸ h.placed
  flushes := h.flushes
  own := hown.trans h.own
  rows := h.rows
  done := hdone ▸ h.done
  called other hother := by
    cases hcall.symm.trans hother
    exact hlast
  writing other batches truncate rest hphase := by
    rw [hbuffer, hdone]
    exact hwriting other batches truncate rest hphase

/-- A call is dropped where it waits: its batch stays in the buffer for `recover`. -/
theorem Accounts.drop (h : Accounts cfg s events) (hlast : events.getLast? = some (.called call))
    (flushes : List Event) (hnone : acknowledged flushes = [] ∧ accepted flushes = [])
    (hdone : ∀ batches truncate, .flushed batches truncate .acknowledged ∉ flushes)
    (hfits : ∀ batches truncate ending before after,
      flushes ++ [.dropped call] = before ++ .flushed batches truncate ending :: after →
        FlushFits cfg (events ++ before) batches truncate) :
    Accounts cfg { s with phase := .idle } (events ++ (flushes ++ [.dropped call])) := by
  have hheld : held (events ++ (flushes ++ [.dropped call])) = held events := by
    rw [← List.append_assoc, held_concat, held_of_called hlast]
    cases call <;> rfl
  have hacknowledged : acknowledged (events ++ (flushes ++ [.dropped call])) = acknowledged events := by
    rw [acknowledged_append, acknowledged_append, hnone.1]
    exact List.append_nil _
  have haccepted : accepted (events ++ (flushes ++ [.dropped call])) = accepted events := by
    rw [accepted_append, accepted_append, hnone.2]
    exact List.append_nil _
  refine ⟨⟨h.counted, ?_, flushes_append h.flushes hfits⟩, ?_, ?_, ?_, nofun, nofun⟩
  · rw [hheld, hacknowledged, haccepted]
    exact h.placed
  · rw [hheld]
    exact h.own
  · rw [hheld]
    exact h.rows
  · refine h.done.trans (exists_congr fun batches => exists_congr fun truncate => ?_)
    rw [List.mem_append, List.mem_append]
    refine (or_iff_left ?_).symm
    rintro (hmem | hmem)
    · exact hdone batches truncate hmem
    · cases List.mem_singleton.mp hmem

/-- A call returned, and holds nothing back. -/
theorem accounts_returned
    (h : ∀ batches truncate ending before after,
      events = before ++ .flushed batches truncate ending :: after →
        FlushFits cfg before batches truncate)
    (hfits : ∀ batches truncate ending before after,
      more = before ++ .flushed batches truncate ending :: after →
        FlushFits cfg (events ++ before) batches truncate)
    (hcounted : s'.bufferedRows = (s'.buffer.map RecordBatch.numRows).sum)
    (hplaced : acknowledged (events ++ more) ++ s'.buffer = accepted (events ++ more))
    (hown : s'.ownRows = 0) (hphase : s'.phase = .idle) (hheld : held (events ++ more) = [])
    (hdone : s'.firstWriteDone = true ↔
      ∃ batches truncate, .flushed batches truncate .acknowledged ∈ events ++ more) :
    Accounts cfg s' (events ++ more) where
  counted := hcounted
  placed := ⟨s'.buffer, by rw [hheld, List.append_nil], hplaced⟩
  flushes := flushes_append h hfits
  own := by rw [hown, hheld]; rfl
  rows batch hbatch := by rw [hheld] at hbatch; cases hbatch
  done := hdone
  called call hcall := by rw [hphase] at hcall; cases hcall
  writing call batches truncate rest hwriting := by rw [hphase] at hwriting; cases hwriting

/-- No flush was acknowledged in what is told. -/
theorem acknowledged_mem_append
    (h : ∀ batches truncate, .flushed batches truncate .acknowledged ∉ more) :
    (∃ batches truncate, .flushed batches truncate .acknowledged ∈ events ++ more) ↔
      ∃ batches truncate, Event.flushed batches truncate .acknowledged ∈ events := by
  refine exists_congr fun batches => exists_congr fun truncate => ?_
  rw [List.mem_append]
  exact or_iff_left (h batches truncate)

/-- A call whose flush failed: a `write_batch` takes its own batch back out. -/
theorem Accounts.fail (h : Accounts cfg s events) (hlast : events.getLast? = some (.called call))
    (e : SaciError) (flushes : List Event)
    (hnone : acknowledged flushes = [] ∧ accepted flushes = [])
    (hdone : ∀ batches truncate, .flushed batches truncate .acknowledged ∉ flushes)
    (hfits : ∀ batches truncate ending before after,
      flushes ++ [.returned call (.error e)] = before ++ .flushed batches truncate ending :: after →
        FlushFits cfg (events ++ before) batches truncate) :
    Accounts cfg (endCall s call (.error e)).1
      (events ++ (flushes ++ (endCall s call (.error e)).2)) := by
  obtain ⟨kept, hbuffer, hkept⟩ := h.placed
  have hcounted := h.counted
  have hown := h.own
  have hsay : (endCall s call (.error e)).2 = [.returned call (.error e)] := by cases call <;> rfl
  have hheld : held (events ++ (flushes ++ [.returned call (.error e)])) = [] := by
    rw [← List.append_assoc, held_concat]
    rfl
  have hacknowledged :
      acknowledged (events ++ (flushes ++ [.returned call (.error e)])) = acknowledged events := by
    rw [acknowledged_append, acknowledged_append, hnone.1]
    exact List.append_nil _
  have haccepted :
      accepted (events ++ (flushes ++ [.returned call (.error e)])) = accepted events := by
    rw [accepted_append, accepted_append, hnone.2]
    cases call <;> exact List.append_nil _
  have hnever : ∀ batches truncate,
      Event.flushed batches truncate .acknowledged ∉ flushes ++ [.returned call (.error e)] := by
    intro batches truncate hmem
    rcases List.mem_append.mp hmem with hmem | hmem
    · exact hdone batches truncate hmem
    · cases List.mem_singleton.mp hmem
  rw [hsay]
  rw [held_of_called hlast] at hbuffer hown
  cases call with
  | write batch =>
    have hbuffer : s.buffer = kept ++ [batch] := hbuffer
    rw [hbuffer, List.map_append, List.sum_append] at hcounted
    refine accounts_returned h.flushes hfits ?_ ?_ rfl rfl hheld
      (h.done.trans (acknowledged_mem_append hnever).symm)
    · have hleft : (endCall s (.write batch) (.error e)).1.bufferedRows =
          s.bufferedRows - batch.numRows := rfl
      have hrest : (endCall s (.write batch) (.error e)).1.buffer = s.buffer.dropLast := rfl
      rw [hleft, hrest, hbuffer, List.dropLast_concat, hcounted]
      simp
    · have hrest : (endCall s (.write batch) (.error e)).1.buffer = s.buffer.dropLast := rfl
      rw [hrest, hbuffer, List.dropLast_concat, hacknowledged, haccepted, hkept]
  | finish =>
    have hbuffer : s.buffer = kept := hbuffer.trans (List.append_nil _)
    refine accounts_returned h.flushes hfits hcounted ?_ hown rfl hheld
      (h.done.trans (acknowledged_mem_append hnever).symm)
    have hrest : (endCall s .finish (.error e)).1.buffer = s.buffer := rfl
    rw [hrest, hbuffer, hacknowledged, haccepted, hkept]

/-- A call whose flush was acknowledged. -/
theorem Accounts.acknowledge (h : Accounts cfg s events)
    (hlast : events.getLast? = some (.called call)) {truncate : Bool}
    (hfits : FlushFits cfg events s.buffer truncate) :
    Accounts cfg
      (endCall { s with buffer := [], bufferedRows := 0, firstWriteDone := true } call (.ok ())).1
      (events ++ .flushed s.buffer truncate .acknowledged :: (endCall
        { s with buffer := [], bufferedRows := 0, firstWriteDone := true } call (.ok ())).2) := by
  obtain ⟨kept, hbuffer, hkept⟩ := h.placed
  have hown := h.own
  have hrows := h.rows
  rw [held_of_called hlast] at hbuffer hown hrows
  have hfirst : ∃ batches truncated, Event.flushed batches truncated .acknowledged ∈
      events ++ [.flushed s.buffer truncate .acknowledged, .returned call (.ok ())] :=
    ⟨s.buffer, truncate, List.mem_append_right _ List.mem_cons_self⟩
  have hheld :
      held (events ++ [.flushed s.buffer truncate .acknowledged, .returned call (.ok ())]) = [] := by
    rw [← List.singleton_append, ← List.append_assoc, held_concat]
    rfl
  have hreturned : ∀ batches truncate ending,
      Event.returned call (.ok ()) ≠ .flushed batches truncate ending := nofun
  have hpair := flushes_pair hfits .acknowledged hreturned
  have hnow : acknowledged [.flushed s.buffer truncate .acknowledged, .returned call (.ok ())] =
      s.buffer := List.append_nil _
  have hsay : (endCall { s with buffer := [], bufferedRows := 0, firstWriteDone := true } call
      (.ok ())).2 = [.returned call (.ok ())] := by cases call <;> rfl
  have hcleared : (endCall { s with buffer := [], bufferedRows := 0, firstWriteDone := true } call
      (.ok ())).1.buffer = [] := by cases call <;> rfl
  rw [hsay]
  cases call with
  | write batch =>
    refine accounts_returned h.flushes hpair rfl ?_ rfl rfl hheld (iff_of_true rfl hfirst)
    have hone : accepted [.flushed s.buffer truncate .acknowledged, .returned (.write batch) (.ok ())] =
        [batch] := by
      have hne := hrows batch (List.mem_singleton_self _)
      simp [accepted, hne]
    rw [acknowledged_append, accepted_append, hnow, hone, hcleared, ← hkept, hbuffer,
      List.append_nil, List.append_assoc]
    rfl
  | finish =>
    refine accounts_returned h.flushes hpair rfl ?_ hown rfl hheld (iff_of_true rfl hfirst)
    have hone : accepted [.flushed s.buffer truncate .acknowledged, .returned .finish (.ok ())] = [] :=
      rfl
    rw [acknowledged_append, accepted_append, hnow, hone, hcleared, ← hkept, hbuffer,
      List.append_nil, List.append_nil]
    exact congrArg _ (List.append_nil _)

/-- A call begins: what a dropped call left is taken back, and a batch to be flushed goes on top. -/
theorem Accounts.begin (h : Accounts cfg s events) (hphase : s.phase = .idle) (call : Call)
    (hrows : ∀ batch ∈ call.batches, batch.numRows ≠ 0)
    (hbuffer : s'.buffer = (Postgres.recover s).buffer ++ call.batches)
    (hcounted : s'.bufferedRows =
      (Postgres.recover s).bufferedRows + (call.batches.map RecordBatch.numRows).sum)
    (hown : s'.ownRows = (call.batches.map RecordBatch.numRows).sum)
    (hdone : s'.firstWriteDone = (Postgres.recover s).firstWriteDone)
    (hphase' : s'.phase = (Postgres.recover s).phase) :
    Accounts cfg s' (events ++ [.called call]) := by
  obtain ⟨hplaced, hrecovered, -, hsame, hidle⟩ := h.recover
  have hheld : held (events ++ [.called call]) = call.batches := by
    rw [held_concat]
    cases call <;> rfl
  have hidle : s'.phase = .idle := hphase'.trans (hidle.trans hphase)
  refine ⟨⟨?_, ?_, flushes_append h.flushes (flushes_singleton nofun)⟩, ?_, ?_, ?_, ?_, ?_⟩
  · rw [hcounted, hrecovered, hbuffer, List.map_append, List.sum_append]
  · refine ⟨(Postgres.recover s).buffer, by rw [hheld, hbuffer], ?_⟩
    have hacknowledged : acknowledged (events ++ [.called call]) = acknowledged events := by
      rw [acknowledged_append]
      exact List.append_nil _
    have haccepted : accepted (events ++ [.called call]) = accepted events := by
      rw [accepted_append]
      exact List.append_nil _
    rw [hacknowledged, haccepted, hplaced]
  · rw [hheld, hown]
  · rw [hheld]
    exact hrows
  · rw [hdone, hsame, h.done]
    refine (acknowledged_mem_append fun batches truncate hmem => ?_).symm
    cases List.mem_singleton.mp hmem
  · intro other hother
    rw [hidle] at hother
    cases hother
  · intro other batches truncate rest hwriting
    cases hidle.symm.trans hwriting

/-- A call that returned at once, having recovered. -/
theorem Accounts.answer (h : Accounts cfg s events) {call : Call}
    {result : SaciResult Unit} (hrest : acknowledged events ++ s'.buffer =
      accepted (events ++ [.called call, .returned call result]))
    (hcounted : s'.bufferedRows = (s'.buffer.map RecordBatch.numRows).sum) (hown : s'.ownRows = 0)
    (hdone : s'.firstWriteDone = s.firstWriteDone) (hidle : s'.phase = .idle) :
    Accounts cfg s' (events ++ [.called call, .returned call result]) := by
  have hheld : held (events ++ [.called call, .returned call result]) = [] := by
    rw [← List.singleton_append, ← List.append_assoc, held_concat]
    rfl
  have hnever : ∀ batches truncate, Event.flushed batches truncate .acknowledged ∉
      [Event.called call, .returned call result] := by
    intro batches truncate hmem
    simp at hmem
  have hacknowledged : acknowledged (events ++ [.called call, .returned call result]) =
      acknowledged events := by
    rw [acknowledged_append]
    exact List.append_nil _
  refine accounts_returned h.flushes (fun batches truncate ending => ?_) hcounted ?_ hown hidle hheld ?_
  · refine before_cons_iff.mpr ⟨nofun, before_cons_iff.mpr ⟨nofun, fun before _ heq => ?_⟩⟩
    cases before <;> cases heq
  · rw [hacknowledged, hrest]
  · rw [hdone, h.done]
    exact (acknowledged_mem_append hnever).symm

/-! ## Steps -/

theorem writing_openTransaction (s : State) (call : Call) :
    ∀ other batches truncate rest, (openTransaction cfg s call).phase = .writing other batches truncate rest →
      batches = s.buffer ∧ truncate = (cfg.truncateBeforeFirstWrite && !s.firstWriteDone) := by
  intro other batches truncate rest h
  cases h
  exact ⟨rfl, rfl⟩

/-- `flush` up to its first wait, where its call is the last thing told. -/
theorem Accounts.flush (h : Accounts cfg s events) (hlast : events.getLast? = some (.called call))
    (hnonempty : call = .finish ∨ s.buffer.isEmpty = false) (alive : Bool) :
    Accounts cfg (flush cfg s call alive).1 (events ++ (flush cfg s call alive).2) := by
  rw [Postgres.flush]
  split_ifs with hempty hopen hplans
  · obtain rfl : call = .finish := hnonempty.resolve_right fun h => nomatch hempty.symm.trans h
    obtain ⟨kept, hbuffer, hkept⟩ := h.placed
    have hnil : s.buffer = [] := List.isEmpty_iff.mp hempty
    obtain rfl : kept = [] := (List.append_eq_nil_iff.mp (hbuffer.symm.trans hnil)).1
    have hown := h.own
    rw [held_of_called hlast] at hown
    refine accounts_returned h.flushes (flushes_singleton nofun) h.counted ?_ hown rfl
      (held_concat _) (h.done.trans (acknowledged_mem_append fun batches truncate hmem => ?_).symm)
    · rw [acknowledged_append, accepted_append]
      change acknowledged events ++ [] ++ s.buffer = accepted events ++ []
      rw [hnil, hkept]
    · cases List.mem_singleton.mp hmem
  · rw [List.append_nil]
    exact h.wait rfl rfl rfl rfl hlast rfl nofun
  · rw [List.append_nil]
    exact h.wait rfl rfl rfl rfl hlast rfl (writing_openTransaction s call)
  all_goals
    rw [List.append_nil]
    exact h.wait rfl rfl rfl rfl hlast rfl nofun

/-- `write_batch` up to its first wait. -/
theorem Accounts.writeBatch (h : Accounts cfg s events) (hphase : s.phase = .idle)
    (batch : RecordBatch) (alive : Bool) :
    Accounts cfg (writeBatch cfg s batch alive).1
      (events ++ .called (.write batch) :: (writeBatch cfg s batch alive).2) := by
  obtain ⟨hplaced, hcounted, hown, hdone, hidle⟩ := h.recover
  have hidle := hidle.trans hphase
  rw [Postgres.writeBatch]
  split
  next e _ =>
    refine h.answer ?_ hcounted hown hdone hidle
    rw [accepted_append, hplaced]
    exact (List.append_nil _).symm
  next =>
    dsimp only
    split_ifs with hzero
    · refine h.answer ?_ hcounted hown hdone hidle
      rw [accepted_append, hplaced]
      simp [accepted, hzero]
    · have hbegun : Accounts cfg
          { Postgres.recover s with
            buffer := (Postgres.recover s).buffer ++ [batch]
            bufferedRows := (Postgres.recover s).bufferedRows + batch.numRows
            ownRows := batch.numRows }
          (events ++ [.called (.write batch)]) := by
        refine h.begin hphase (.write batch) ?_ rfl rfl rfl rfl rfl
        intro other hother
        rwa [List.mem_singleton.mp hother]
      have hflushed := hbegun.flush List.getLast?_concat
        (.inr (by simp)) alive
      rw [List.append_assoc] at hflushed
      exact hflushed
    · refine h.answer ?_ ?_ hown hdone hidle
      · rw [accepted_append, ← hplaced, List.append_assoc]
        simp [accepted, hzero]
      · dsimp only
        rw [hcounted, List.map_append, List.sum_append]
        simp

/-- The answer to a statement. -/
theorem Accounts.answered (h : Accounts cfg s events) {batches : List RecordBatch} {truncate : Bool}
    {statement : Statement} {rest : List Statement} {answer : Answer}
    (hphase : s.phase = .writing call batches truncate (statement :: rest))
    (hanswered : answered cfg s call batches truncate statement rest answer = .ok (s', more)) :
    Accounts cfg s' (events ++ more) := by
  have hlast := h.called call (by rw [hphase]; rfl)
  have hfits := h.fits hphase
  have hnever : ∀ committed batches' truncate',
      Event.flushed batches' truncate' .acknowledged ∉ [.flushed batches truncate (.failed committed)] := by
    intro committed batches' truncate' hmem
    cases List.mem_singleton.mp hmem
  unfold Postgres.answered at hanswered
  cases answer with
  | ok =>
    obtain ⟨rfl, -⟩ := h.writing call batches truncate _ hphase
    dsimp only at hanswered
    split_ifs at hanswered
    · cases hanswered
      exact h.acknowledge hlast hfits
    · cases hanswered
      rw [List.append_nil]
      refine h.wait rfl rfl rfl rfl hlast rfl fun other batches' truncate' rest' hwriting => ?_
      cases hwriting
      exact h.writing call _ truncate _ hphase
  | failed e committed =>
    dsimp only at hanswered
    split_ifs at hanswered
    cases hanswered
    exact h.fail hlast _ [_] ⟨rfl, rfl⟩ (hnever _) (flushes_pair hfits _ nofun)
  | refused e =>
    dsimp only at hanswered
    split_ifs at hanswered
    cases hanswered
    exact h.fail hlast _ [_] ⟨rfl, rfl⟩ (hnever _) (flushes_pair hfits _ nofun)

/-- The step lemma. -/
theorem Accounts.step {input : Input} (h : Accounts cfg s events)
    (hstep : step cfg s input = .ok (s', more)) : Accounts cfg s' (events ++ more) := by
  have hcalled := h.called
  unfold Postgres.step at hstep
  split at hstep
  next batch alive hphase =>
    cases hstep
    exact h.writeBatch hphase batch alive
  next alive hphase =>
    cases hstep
    have hbegun : Accounts cfg (Postgres.recover s) (events ++ [.called .finish]) :=
      h.begin hphase .finish nofun (List.append_nil _).symm rfl h.recover.2.2.1 rfl rfl
    have hflushed := hbegun.flush List.getLast?_concat (.inl rfl) alive
    rwa [List.append_assoc] at hflushed
  next call e hphase =>
    have hfail := h.fail (hcalled call (by rw [hphase]; rfl)) e [] ⟨rfl, rfl⟩ nofun
      (flushes_singleton nofun)
    rwa [Except.ok.inj hstep] at hfail
  next call hphase =>
    have hlast := hcalled call (by rw [hphase]; rfl)
    split_ifs at hstep
    · cases hstep
      rw [List.append_nil]
      exact h.wait rfl rfl rfl rfl hlast rfl nofun
    · cases hstep
      rw [List.append_nil]
      exact h.wait rfl rfl rfl rfl hlast rfl (writing_openTransaction _ call)
  next call e hphase =>
    have hfail := h.fail (hcalled call (by rw [hphase]; rfl)) e [] ⟨rfl, rfl⟩ nofun
      (flushes_singleton nofun)
    rwa [Except.ok.inj hstep] at hfail
  next call plans hphase =>
    cases hstep
    rw [List.append_nil]
    exact h.wait rfl rfl rfl rfl (hcalled call (by rw [hphase]; rfl)) rfl
      (writing_openTransaction _ call)
  next call batches truncate statement rest answer hphase => exact h.answered hphase hstep
  next call _ hphase =>
    cases hstep
    exact h.drop (hcalled call (by rw [hphase]; rfl)) [] ⟨rfl, rfl⟩ nofun
      (flushes_singleton nofun)
  next call _ hphase =>
    cases hstep
    exact h.drop (hcalled call (by rw [hphase]; rfl)) [] ⟨rfl, rfl⟩ nofun
      (flushes_singleton nofun)
  next call batches truncate statement rest committed hphase =>
    split_ifs at hstep
    cases hstep
    refine h.drop (hcalled call (by rw [hphase]; rfl)) [_] ⟨rfl, rfl⟩
      (fun batches' truncate' hmem => ?_) (flushes_pair (h.fits hphase) _ nofun)
    cases List.mem_singleton.mp hmem
  next => cases hstep

theorem accounts_start : Accounts cfg start [] where
  counted := rfl
  placed := ⟨[], rfl, rfl⟩
  flushes batches truncate ending before after h := by cases before <;> cases h
  own := rfl
  rows := nofun
  done := by simp [start]
  called := nofun
  writing := nofun

/-- **The sink accounts for every batch.** Over every run, with failures and drops at every wait. -/
theorem sink_accounts {inputs : List Input} {outs : List (List Event)}
    (h : run (step cfg) start inputs = .ok (s, outs)) : SinkAccounts cfg s outs.flatten := by
  refine (run_outputs_induction (P := fun s outs => Accounts cfg s outs.flatten) accounts_start
    (fun s outs input s' more haccounts hstep => ?_) h).toSinkAccounts
  rw [List.flatten_concat]
  exact haccounts.step hstep

end

/-- Whether the transaction of a flush committed. -/
def Ending.committed : Ending → Bool
  | .acknowledged => true
  | .failed committed => committed
  | .dropped committed => committed

/-- The batches of the flushes that committed. -/
def committed (events : List Event) : List RecordBatch :=
  events.flatMap fun
    | .flushed batches _ ending => if ending.committed then batches else []
    | _ => []

namespace Sample

def bytes : Schema := ⟨[⟨"byte", .int64, false⟩]⟩

def batch (value : Int) : RecordBatch := ⟨bytes, [[.int value]]⟩

/-- An append sink that flushes two rows at a time, and truncates before its first write. -/
def appending : SinkConfig := ⟨"bytes", bytes, .append, 1000, 2, true⟩

/-- So many statements that succeed. -/
def succeeding (statements : Nat) : List Input := List.replicate statements (.answered .ok)

/-- A batch that is accepted, a `finish` whose `COMMIT` fails although it commits, and another. -/
def lostCommit : List Input :=
  [.write (batch 1) true, .finish true, .connected (.ok ()), .resolved (.ok [⟨"int8", "int8", none⟩])] ++
    succeeding 5 ++ [.answered (.failed ⟨false, "connection closed"⟩ true), .finish true] ++
    succeeding 6

/-- The accepted batch is written twice, and no call was dropped. -/
theorem lostCommit_writes_twice :
    ∃ s outs, run (step { appending with truncateBeforeFirstWrite := false }) start lostCommit =
        .ok (s, outs) ∧
      accepted outs.flatten = [batch 1] ∧ committed outs.flatten = [batch 1, batch 1] ∧
      ∀ batches truncate c, .flushed batches truncate (.dropped c) ∉ outs.flatten := by
  refine ⟨_, _, rfl, rfl, rfl, fun batches truncate c hmem => ?_⟩
  simp at hmem

/-- A batch that is kept, and one whose flush is dropped at its `COMMIT`. -/
def droppedWrite : List Input :=
  [.write (batch 1) true, .write (batch 2) true, .connected (.ok ()),
    .resolved (.ok [⟨"int8", "int8", none⟩])] ++ succeeding 8 ++ [.dropped true, .finish true] ++
    succeeding 7

/-- What the dropped call committed is truncated away, and what was accepted is written again. -/
theorem droppedWrite_accounts :
    ∃ s outs, run (step appending) start droppedWrite = .ok (s, outs) ∧
      SinkAccounts appending s outs.flatten ∧
      acknowledged outs.flatten = [batch 1] ∧ committed outs.flatten = [batch 1, batch 2, batch 1] := by
  obtain ⟨s, outs, h, hacknowledged, hcommitted⟩ : ∃ s outs,
      run (step appending) start droppedWrite = .ok (s, outs) ∧
        acknowledged outs.flatten = [batch 1] ∧
        committed outs.flatten = [batch 1, batch 2, batch 1] := ⟨_, _, rfl, rfl, rfl⟩
  exact ⟨s, outs, h, sink_accounts h, hacknowledged, hcommitted⟩

end Sample
end Saci.Postgres
