import Saci.Connectors.PostgresLogicalDecode

/-!
# What the reader acknowledges to its slot

Over every run: the slot is only moved to the end of a transaction, when the rows of that transaction
and of all before it were returned in cycles that have ended; and within a cycle the rows returned are
the table's changes of its one peek, in commit order.
-/

namespace Saci.Postgres.Logical

open Pgoutput

/-! ## Drain cycles -/

/-- The cycles that ended, and the events of the one under way. -/
def splitCycles (cycles : List (List Event) × List Event) : Event → List (List Event) × List Event
  | .ended => (cycles.1 ++ [cycles.2], [])
  | event => (cycles.1, cycles.2 ++ [event])

def cycles (events : List Event) : List (List Event) × List Event := events.foldl splitCycles ([], [])

/-- The rows returned. -/
def returnedRows (events : List Event) : List Row :=
  events.flatMap fun
    | .returned batch => batch.rows
    | _ => []

/-- The batches returned. -/
def batchesIn (events : List Event) : Nat :=
  events.countP fun
    | .returned _ => true
    | _ => false

section
variable (values : Values) (cfg : Config)

/-- The rows of the table's changes of a transaction were all returned in one of the cycles. -/
def Returned (cycles : List (List Event)) (t : Transaction) : Prop :=
  ∃ cycle ∈ cycles, ∃ rows, List.Forall₂ (Reads values cfg) (tableChanges cfg t) rows ∧
    rows <:+: returnedRows cycle

/-- A cycle that left rows of its peek behind: the connection was lost, or it reached the cap. -/
def Cut (cycle : List Event) : Prop :=
  .reconnected ∈ cycle ∨ 0 < cfg.maxBatchesPerCycle ∧ cfg.maxBatchesPerCycle ≤ batchesIn cycle

/-- The rows a cycle returned are the table's changes of its peek in commit order, none lost or
repeated, but for what it has left. -/
structure InOrder (cycle : List Event) (ts : List Transaction) (left : List Row) : Prop where
  peeked : ∃ rows batchRows, .peeked rows batchRows ∈ cycle
  rendered : ∀ rows batchRows, .peeked rows batchRows ∈ cycle → Renders .empty ts rows
  rows : List.Forall₂ (Reads values cfg) (ts.flatMap (tableChanges cfg)) (returnedRows cycle ++ left)

/-- A cycle that peeked nothing that decodes, and returned nothing. -/
structure Empty (cycle : List Event) : Prop where
  rows : returnedRows cycle = []
  peeked : ∀ rows batchRows, .peeked rows batchRows ∉ cycle

/-- A cycle that ended returned its peek in order, and only one that was cut left rows. -/
def Ordered (cycle : List Event) : Prop :=
  Empty cycle ∨ ∃ ts left, InOrder values cfg cycle ts left ∧ (¬Cut cfg cycle → left = [])

/-- The slot may move to a position: the end of a transaction, it and all before it returned in cycles
that have ended. -/
def Acknowledges (log : List Transaction) (before : List Event) (lsn : Nat) : Prop :=
  (∃ t ∈ log, t.endLsn = lsn) ∧
    ∀ t ∈ log, t.endLsn ≤ lsn → Returned values cfg (cycles before).1 t

/-- The slot is safe. -/
structure SlotSafe (log : List Transaction) (events : List Event) : Prop where
  acknowledged : ∀ lsn moved before after, events = before ++ .advanced lsn moved :: after →
    Acknowledges values cfg log before lsn
  ordered : ∀ cycle ∈ (cycles events).1, Ordered values cfg cycle

/-- The server does what is documented: transactions commit in the order of their ends, and a peek
carries whole transactions from the slot's position on. -/
def Documented (s : System) (input : Input) : Prop :=
  match input with
  | .commit t => s.confirmed < t.endLsn ∧ ∀ u ∈ s.log, u.endLsn < t.endLsn
  | .setBatchRows _ => True
  | .call _ =>
    ∀ s' events, step values cfg s input = .ok (s', events) →
      ∀ rows batchRows, .peeked rows batchRows ∈ events →
        ∃ ts, ts <+: s'.log.filter (fun t => s'.confirmed < t.endLsn) ∧ Renders .empty ts rows

/-! ## The invariant -/

/-- The cycle under way has peeked: what it returned and what is queued are the rows of the peek, and
each batch of the queue is tied to the newest transaction it completes. -/
structure Busy (s : System) (current : List Event) (ts : List Transaction) : Prop where
  told : ∃ rows batchRows, .peeked rows batchRows ∈ current
  peeked : s.reader.peekedThisCycle = true
  running : s.reader.cycleStart = false
  next : ts <+: s.log.filter fun t => s.confirmed < t.endLsn
  rendered : ∀ rows batchRows, .peeked rows batchRows ∈ current → Renders .empty ts rows
  rows : ∃ left,
    List.Forall₂ (Reads values cfg) (ts.flatMap (tableChanges cfg))
      (returnedRows current ++ rowsOf s.reader.queue ++ left) ∧
    (.reconnected ∉ current → left = [])
  acks : Acks cfg ts (returnedRows current).length s.reader.queue

/-- The cycle under way has no rows. -/
structure Quiet (s : System) (current : List Event) : Prop where
  queue : s.reader.queue = []
  rows : returnedRows current = []
  batches : batchesIn current = 0
  peeked : ∀ rows batchRows, .peeked rows batchRows ∉ current

/-- The invariant. -/
structure Tracks (s : System) (events : List Event) : Prop
    extends SlotSafe values cfg s.log events where
  sorted : s.log.Pairwise fun t u => t.endLsn < u.endLsn
  confirmed : ∀ t ∈ s.log, t.endLsn ≤ s.confirmed → Returned values cfg (cycles events).1 t
  pending : ∀ lsn, s.reader.pendingLsn = some lsn →
    (∃ t ∈ s.log, t.endLsn = lsn) ∧ ∀ t ∈ s.log, t.endLsn ≤ lsn →
      Returned values cfg
        (if s.reader.cycleStart then (cycles events).1 else (cycles events).1 ++ [(cycles events).2]) t
  cycle : Quiet s (cycles events).2 ∨ ∃ ts, Busy values cfg s (cycles events).2 ts
  counted : s.reader.cycleStart = false → s.reader.batchesThisCycle = batchesIn (cycles events).2
  fresh : s.reader.cycleStart = true → Quiet s (cycles events).2

end

section
variable {values : Values} {cfg : Config} {s : System} {events more : List Event}

theorem cycles_concat (event : Event) : cycles (events ++ [event]) = splitCycles (cycles events) event :=
  List.foldl_concat ..

theorem returnedRows_append : returnedRows (events ++ more) = returnedRows events ++ returnedRows more :=
  List.flatMap_append

theorem batchesIn_append : batchesIn (events ++ more) = batchesIn events + batchesIn more :=
  List.countP_append

theorem Returned.mono {cycles cycles' : List (List Event)} {t : Transaction} (h : cycles ⊆ cycles')
    (hreturned : Returned values cfg cycles t) : Returned values cfg cycles' t := by
  obtain ⟨cycle, hcycle, hrows⟩ := hreturned
  exact ⟨cycle, h hcycle, hrows⟩

/-- More rows in the cycle under way. -/
theorem Returned.concat {finished : List (List Event)} {current : List Event} {t : Transaction}
    (h : Returned values cfg (finished ++ [current]) t) (event : Event) :
    Returned values cfg (finished ++ [current ++ [event]]) t := by
  obtain ⟨cycle, hcycle, rows, hreads, hrows⟩ := h
  rcases List.mem_append.mp hcycle with hcycle | hcycle
  · exact ⟨cycle, List.mem_append_left _ hcycle, rows, hreads, hrows⟩
  · rw [List.mem_singleton.mp hcycle] at hrows
    refine ⟨current ++ [event], List.mem_append_right _ (List.mem_singleton_self _), rows, hreads, ?_⟩
    rw [returnedRows_append]
    exact hrows.trans (List.prefix_append _ _).isInfix

/-! ## Transactions within the rows returned -/

theorem wholeWithin_initial (read : Nat) (ts : List Transaction) : wholeWithin cfg read ts <+: ts := by
  induction ts generalizing read with
  | nil => exact List.prefix_rfl
  | cons t ts ih =>
    rw [wholeWithin]
    split_ifs
    · exact (List.prefix_cons_inj t).mpr (ih _)
    · exact List.nil_prefix

/-- The table's changes of the transactions that are whole within so many rows. -/
theorem length_wholeWithin_le (read : Nat) (ts : List Transaction) :
    ((wholeWithin cfg read ts).flatMap (tableChanges cfg)).length ≤ read := by
  induction ts generalizing read with
  | nil => exact Nat.zero_le _
  | cons t ts ih =>
    rw [wholeWithin]
    split_ifs with hle
    · rw [List.flatMap_cons, List.length_append]
      have hrest := ih (read - (tableChanges cfg t).length)
      omega
    · exact Nat.zero_le _

/-- The changes of a transaction of a run of transactions are found in the rows of the run. -/
theorem infix_of_mem {done ts : List Transaction} {rows rest : List Row} {t : Transaction}
    (hdone : done <+: ts)
    (hreads : List.Forall₂ (Reads values cfg) (ts.flatMap (tableChanges cfg)) (rows ++ rest))
    (hlength : (done.flatMap (tableChanges cfg)).length ≤ rows.length) (ht : t ∈ done) :
    ∃ found, List.Forall₂ (Reads values cfg) (tableChanges cfg t) found ∧ found <:+: rows := by
  obtain ⟨later, rfl⟩ := hdone
  obtain ⟨front, back, rfl⟩ := List.append_of_mem ht
  simp only [List.flatMap_append, List.flatMap_cons, List.append_assoc] at hreads
  simp only [List.flatMap_append, List.flatMap_cons, List.length_append] at hlength
  have hfound := List.forall₂_take (tableChanges cfg t).length
    (List.forall₂_drop (front.flatMap (tableChanges cfg)).length hreads)
  rw [List.drop_left, List.take_left, List.drop_append_of_le_length (by omega),
    List.take_append_of_le_length (by rw [List.length_drop]; omega)] at hfound
  exact ⟨_, hfound, (List.take_prefix _ _).isInfix.trans (List.drop_suffix _ _).isInfix⟩

/-- What ends no later than the last of the next transactions is one of them, or behind the slot. -/
theorem mem_of_endLsn_le {log done : List Transaction} {position : Nat} {t last : Transaction}
    (hsorted : log.Pairwise fun t u => t.endLsn < u.endLsn)
    (hdone : done <+: log.filter fun t => position < t.endLsn) (hlast : done.getLast? = some last)
    (ht : t ∈ log) (hle : t.endLsn ≤ last.endLsn) : t.endLsn ≤ position ∨ t ∈ done := by
  refine or_iff_not_imp_left.mpr fun hlt => ?_
  obtain ⟨later, hlater⟩ := hdone
  have hmem : t ∈ done ++ later := by
    rw [hlater]
    exact List.mem_filter.mpr ⟨ht, decide_eq_true (Nat.lt_of_not_le hlt)⟩
  refine (List.mem_append.mp hmem).resolve_right fun hmem => ?_
  have hpairwise := hsorted.filter fun t => position < t.endLsn
  rw [← hlater] at hpairwise
  have hbefore := (List.pairwise_append.mp hpairwise).2.2 last (List.mem_of_getLast? hlast) t hmem
  omega

/-! ## One event at a time -/

theorem acknowledged_concat {log : List Transaction} {event : Event}
    (h : ∀ lsn moved before after, events = before ++ .advanced lsn moved :: after →
      Acknowledges values cfg log before lsn)
    (hevent : ∀ lsn moved, event = .advanced lsn moved → Acknowledges values cfg log events lsn) :
    ∀ lsn moved before after, events ++ [event] = before ++ .advanced lsn moved :: after →
      Acknowledges values cfg log before lsn := by
  intro lsn moved
  refine before_append_iff.mpr ⟨h lsn moved, before_cons_iff.mpr ⟨fun heq => ?_, fun before _ heq => ?_⟩⟩
  · rw [List.append_nil]
    exact hevent lsn moved heq
  · cases before <;> cases heq

/-- Fields the invariant does not look at. -/
theorem Tracks.same {reader : State} (h : Tracks values cfg s events)
    (hqueue : reader.queue = s.reader.queue) (hpending : reader.pendingLsn = s.reader.pendingLsn)
    (hpeeked : reader.peekedThisCycle = s.reader.peekedThisCycle)
    (hstart : reader.cycleStart = s.reader.cycleStart)
    (hbatches : reader.batchesThisCycle = s.reader.batchesThisCycle) :
    Tracks values cfg { s with reader } events where
  acknowledged := h.acknowledged
  ordered := h.ordered
  sorted := h.sorted
  confirmed := h.confirmed
  pending := hpending ▸ hstart ▸ h.pending
  cycle := h.cycle.imp (fun h => ⟨hqueue.trans h.queue, h.rows, h.batches, h.peeked⟩)
    fun ⟨ts, h⟩ => ⟨ts, h.told, hpeeked.trans h.peeked, hstart.trans h.running, h.next, h.rendered,
      hqueue ▸ h.rows, hqueue ▸ h.acks⟩
  counted := hstart ▸ hbatches ▸ h.counted
  fresh hcycle := by
    obtain ⟨hempty, hrows, hcount, hnone⟩ := h.fresh (hstart ▸ hcycle)
    exact ⟨hqueue.trans hempty, hrows, hcount, hnone⟩

theorem Quiet.concat {current : List Event} (h : Quiet s current) {event : Event}
    (hrows : returnedRows [event] = []) (hcount : batchesIn [event] = 0)
    (hpeeked : ∀ rows batchRows, event ≠ .peeked rows batchRows) : Quiet s (current ++ [event]) where
  queue := h.queue
  rows := by rw [returnedRows_append, h.rows, hrows]; rfl
  batches := by rw [batchesIn_append, h.batches, hcount]
  peeked rows batchRows hmem := by
    rcases List.mem_append.mp hmem with hmem | hmem
    · exact h.peeked rows batchRows hmem
    · exact hpeeked rows batchRows (List.mem_singleton.mp hmem).symm

/-- An event that moves no rows. -/
theorem Tracks.tell (h : Tracks values cfg s events) {event : Event}
    (hsplit : cycles (events ++ [event]) = ((cycles events).1, (cycles events).2 ++ [event]))
    (hrows : returnedRows [event] = []) (hcount : batchesIn [event] = 0)
    (hpeeked : ∀ rows batchRows, event ≠ .peeked rows batchRows)
    (hadvanced : ∀ lsn moved, event = .advanced lsn moved →
      Acknowledges values cfg s.log events lsn) : Tracks values cfg s (events ++ [event]) where
  acknowledged := acknowledged_concat h.acknowledged hadvanced
  ordered := by rw [hsplit]; exact h.ordered
  sorted := h.sorted
  confirmed := by rw [hsplit]; exact h.confirmed
  pending lsn hlsn := by
    obtain ⟨hlast, hreturned⟩ := h.pending lsn hlsn
    refine ⟨hlast, fun t ht hle => ?_⟩
    have hnow := hreturned t ht hle
    rw [hsplit]
    split_ifs at hnow ⊢
    · exact hnow
    · exact hnow.concat event
  cycle := by
    rw [hsplit]
    rcases h.cycle with hquiet | ⟨ts, hbusy⟩
    · exact .inl (hquiet.concat hrows hcount hpeeked)
    · obtain ⟨left, hreads, hleft⟩ := hbusy.rows
      have hsame : returnedRows ((cycles events).2 ++ [event]) = returnedRows (cycles events).2 := by
        rw [returnedRows_append, hrows, List.append_nil]
      obtain ⟨rows, batchRows, htold⟩ := hbusy.told
      refine .inr ⟨ts, ⟨rows, batchRows, List.mem_append_left _ htold⟩, hbusy.peeked, hbusy.running,
        hbusy.next, fun rows batchRows hmem => ?_,
        ⟨left, hsame.symm ▸ hreads, fun hconnected => hleft fun hmem => ?_⟩, hsame.symm ▸ hbusy.acks⟩
      · rcases List.mem_append.mp hmem with hmem | hmem
        · exact hbusy.rendered rows batchRows hmem
        · exact absurd (List.mem_singleton.mp hmem).symm (hpeeked rows batchRows)
      · exact hconnected (List.mem_append_left _ hmem)
  counted hstart := by
    rw [hsplit, batchesIn_append, hcount]
    exact h.counted hstart
  fresh hstart := by
    rw [hsplit]
    exact (h.fresh hstart).concat hrows hcount hpeeked

theorem Tracks.fail (h : Tracks values cfg s events) (e : SaciError) :
    Tracks values cfg s (events ++ [.failed e]) :=
  h.tell (cycles_concat _) rfl rfl nofun nofun

/-- The connection was lost: what is queued is dropped. -/
theorem Tracks.lose {reader : State} (h : Tracks values cfg s events) (hqueue : reader.queue = [])
    (hpending : reader.pendingLsn = s.reader.pendingLsn)
    (hpeeked : reader.peekedThisCycle = s.reader.peekedThisCycle)
    (hstart : reader.cycleStart = s.reader.cycleStart)
    (hbatches : reader.batchesThisCycle = s.reader.batchesThisCycle) :
    Tracks values cfg { s with reader } (events ++ [.reconnected]) := by
  have h := h.tell (cycles_concat .reconnected) rfl rfl nofun nofun
  have hlost : Event.reconnected ∈ (cycles (events ++ [.reconnected])).2 := by
    rw [cycles_concat]
    exact List.mem_append_right _ (List.mem_singleton_self _)
  refine ⟨h.toSlotSafe, h.sorted, h.confirmed, hpending ▸ hstart ▸ h.pending, ?_,
    hstart ▸ hbatches ▸ h.counted, fun hcycle => ?_⟩
  · rcases h.cycle with hquiet | ⟨ts, hbusy⟩
    · exact .inl ⟨hqueue, hquiet.rows, hquiet.batches, hquiet.peeked⟩
    · obtain ⟨left, hreads, -⟩ := hbusy.rows
      rw [List.append_assoc] at hreads
      refine .inr ⟨ts, hbusy.told, hpeeked.trans hbusy.peeked, hstart.trans hbusy.running, hbusy.next, hbusy.rendered,
        ⟨rowsOf s.reader.queue ++ left, ?_, fun hconnected => absurd hlost hconnected⟩, ?_⟩
      · rw [hqueue]
        exact (List.append_nil (returnedRows (cycles (events ++ [.reconnected])).2)).symm ▸ hreads
      · rw [hqueue]
        trivial
  · obtain ⟨-, hrows, hcount, hnone⟩ := h.fresh (hstart ▸ hcycle)
    exact ⟨hqueue, hrows, hcount, hnone⟩

/-- The slot was asked to move to what is pending. -/
theorem Tracks.advanced (h : Tracks values cfg s events) (hstart : s.reader.cycleStart = true)
    {lsn : Nat} (hpending : s.reader.pendingLsn = some lsn) (moved : Bool) :
    Tracks values cfg { s with confirmed := if moved then lsn else s.confirmed }
      (events ++ [.advanced lsn moved]) := by
  have hreturned := h.pending lsn hpending
  rw [if_pos hstart] at hreturned
  have h := h.tell (cycles_concat (.advanced lsn moved)) rfl rfl nofun (by
    rintro _ _ ⟨⟩
    exact hreturned)
  have hquiet := h.fresh hstart
  refine ⟨h.toSlotSafe, h.sorted, fun t ht hle => ?_, h.pending,
    .inl ⟨hquiet.queue, hquiet.rows, hquiet.batches, hquiet.peeked⟩, h.counted,
    fun _ => ⟨hquiet.queue, hquiet.rows, hquiet.batches, hquiet.peeked⟩⟩
  cases moved with
  | true =>
    rw [cycles_concat]
    exact hreturned.2 t ht hle
  | false => exact h.confirmed t ht hle

/-- The next cycle begins, with nothing pending. -/
theorem Tracks.begin (reader : State) (h : Tracks values cfg s events)
    (hstart : s.reader.cycleStart = true) (hqueue : reader.queue = s.reader.queue)
    (hpending : reader.pendingLsn = none) (hnext : reader.cycleStart = false)
    (hbatches : reader.batchesThisCycle = 0) : Tracks values cfg { s with reader } events := by
  have hquiet := h.fresh hstart
  refine ⟨h.toSlotSafe, h.sorted, h.confirmed, fun lsn hlsn => ?_,
    .inl ⟨hqueue.trans hquiet.queue, hquiet.rows, hquiet.batches, hquiet.peeked⟩,
    fun _ => hbatches.trans hquiet.batches.symm, fun hcycle => ?_⟩
  · cases hpending.symm.trans hlsn
  · cases hnext.symm.trans hcycle

/-- The cycle ends, at the cap or with the queue empty. -/
theorem Tracks.finish (reader : State) (h : Tracks values cfg s events)
    (hstart : s.reader.cycleStart = false)
    (hcap : s.reader.queue = [] ∨
      0 < cfg.maxBatchesPerCycle ∧ cfg.maxBatchesPerCycle ≤ s.reader.batchesThisCycle)
    (hqueue : reader.queue = []) (hpending : reader.pendingLsn = s.reader.pendingLsn)
    (hnext : reader.cycleStart = true) :
    Tracks values cfg { s with reader } (events ++ [.ended]) := by
  have hsplit : cycles (events ++ [.ended]) = ((cycles events).1 ++ [(cycles events).2], []) :=
    cycles_concat _
  have hcounted := h.counted hstart
  have hquiet : Quiet { s with reader } [] := ⟨hqueue, rfl, rfl, nofun⟩
  refine ⟨⟨acknowledged_concat h.acknowledged nofun, ?_⟩, h.sorted, ?_, ?_, .inl (hsplit ▸ hquiet), ?_,
    fun _ => hsplit ▸ hquiet⟩
  · rw [hsplit]
    intro cycle hcycle
    rcases List.mem_append.mp hcycle with hcycle | hcycle
    · exact h.ordered cycle hcycle
    · rw [List.mem_singleton.mp hcycle]
      rcases h.cycle with hquiet | ⟨ts, hbusy⟩
      · exact .inl ⟨hquiet.rows, hquiet.peeked⟩
      · obtain ⟨left, hreads, hleft⟩ := hbusy.rows
        rw [List.append_assoc] at hreads
        refine .inr ⟨ts, _, ⟨hbusy.told, hbusy.rendered, hreads⟩, fun hcut => ?_⟩
        rw [Cut, not_or] at hcut
        have hempty := hcap.resolve_right (hcounted ▸ hcut.2)
        rw [hleft hcut.1, hempty]
        rfl
  · rw [hsplit]
    exact fun t ht hle => (h.confirmed t ht hle).mono (List.subset_append_left _ _)
  · intro lsn hlsn
    obtain ⟨hlast, hreturned⟩ := h.pending lsn (hpending ▸ hlsn)
    rw [hstart] at hreturned
    rw [if_pos hnext, hsplit]
    exact ⟨hlast, hreturned⟩
  · intro hcycle
    cases hnext.symm.trans hcycle

/-- A peek that decoded. -/
theorem Tracks.peek (reader : State) (h : Tracks values cfg s events)
    (hstart : s.reader.cycleStart = false) (hfirst : s.reader.peekedThisCycle = false)
    {ts : List Transaction} {rows : List SlotRow} {columns : List ColumnType} {batchRows : Nat}
    {produced : List (RecordBatch × Option Nat)}
    (hdecode : decodeRows values cfg columns batchRows rows = .ok produced)
    (hnext : ts <+: s.log.filter fun t => s.confirmed < t.endLsn) (hrenders : Renders .empty ts rows)
    (hqueue : reader.queue = s.reader.queue ++ produced)
    (hpending : reader.pendingLsn = s.reader.pendingLsn) (hpeeked : reader.peekedThisCycle = true)
    (hstart' : reader.cycleStart = false)
    (hbatches : reader.batchesThisCycle = s.reader.batchesThisCycle) :
    Tracks values cfg { s with reader } (events ++ [.peeked rows batchRows]) := by
  have hsplit : cycles (events ++ [.peeked rows batchRows]) =
      ((cycles events).1, (cycles events).2 ++ [.peeked rows batchRows]) := cycles_concat _
  obtain hquiet | ⟨ts, hbusy⟩ := h.cycle
  · obtain ⟨hreads, hacks⟩ := decodeRows_eq_ok hrenders hdecode
    have hrows : returnedRows ((cycles events).2 ++ [.peeked rows batchRows]) = [] := by
      rw [returnedRows_append, hquiet.rows]
      rfl
    have hproduced : reader.queue = produced := by rw [hqueue, hquiet.queue, List.nil_append]
    refine ⟨⟨acknowledged_concat h.acknowledged nofun, hsplit ▸ h.ordered⟩, h.sorted,
      hsplit ▸ h.confirmed, fun lsn hlsn => ?_, .inr ⟨ts, ⟨rows, batchRows, ?_⟩, hpeeked, hstart', hnext, ?_, ?_, ?_⟩,
      ?_, ?_⟩
    · obtain ⟨hlast, hreturned⟩ := h.pending lsn (hpending ▸ hlsn)
      rw [hstart] at hreturned
      rw [hstart', hsplit]
      exact ⟨hlast, fun t ht hle => (hreturned t ht hle).concat _⟩
    · rw [hsplit]
      exact List.mem_append_right _ (List.mem_singleton_self _)
    · rw [hsplit]
      intro rows' batchRows' hmem
      rcases List.mem_append.mp hmem with hmem | hmem
      · exact absurd hmem (hquiet.peeked rows' batchRows')
      · cases List.mem_singleton.mp hmem
        exact hrenders
    · rw [hsplit, hrows, hproduced]
      exact ⟨[], by rwa [List.nil_append, List.append_nil], fun _ => rfl⟩
    · rw [hsplit, hrows, hproduced]
      exact hacks
    · intro _
      rw [hsplit, batchesIn_append, hbatches]
      exact h.counted hstart
    · intro hcycle
      cases hstart'.symm.trans hcycle
  · cases hfirst.symm.trans hbusy.peeked

/-- What a batch that is handed out makes acknowledgeable has been returned. -/
theorem Busy.returned {current : List Event} {ts : List Transaction} (h : Busy values cfg s current ts)
    (hsorted : s.log.Pairwise fun t u => t.endLsn < u.endLsn) {finished : List (List Event)}
    (hconfirmed : ∀ t ∈ s.log, t.endLsn ≤ s.confirmed → Returned values cfg finished t)
    {batch : RecordBatch} {lsn : Nat} {queue : List (RecordBatch × Option Nat)}
    (hqueue : s.reader.queue = (batch, some lsn) :: queue) :
    (∃ t ∈ s.log, t.endLsn = lsn) ∧ ∀ t ∈ s.log, t.endLsn ≤ lsn →
      Returned values cfg (finished ++ [current ++ [.returned batch]]) t := by
  obtain ⟨left, hreads, -⟩ := h.rows
  have hacks := h.acks
  rw [hqueue] at hacks hreads
  obtain ⟨-, hack, -⟩ := hacks
  obtain ⟨last, hlast, rfl⟩ := Option.map_eq_some_iff.mp hack.symm
  have hwithin : wholeWithin cfg ((returnedRows current).length + batch.rows.length) ts <+: ts :=
    wholeWithin_initial _ ts
  have hmem : last ∈ s.log :=
    List.mem_of_mem_filter (h.next.subset (hwithin.subset (List.mem_of_getLast? hlast)))
  refine ⟨⟨last, hmem, rfl⟩, fun t ht hle => ?_⟩
  rcases mem_of_endLsn_le hsorted (hwithin.trans h.next) hlast ht hle with hbehind | hwhole
  · exact (hconfirmed t ht hbehind).mono (List.subset_append_left _ _)
  · have hnow : returnedRows (current ++ [.returned batch]) = returnedRows current ++ batch.rows := by
      rw [returnedRows_append]
      exact congrArg _ (List.append_nil _)
    have hsplit : returnedRows current ++ rowsOf ((batch, some last.endLsn) :: queue) ++ left =
        returnedRows (current ++ [.returned batch]) ++ (rowsOf queue ++ left) := by
      rw [hnow, rowsOf, List.flatMap_cons]
      simp only [List.append_assoc]
      rfl
    rw [hsplit] at hreads
    have hlength : ((wholeWithin cfg ((returnedRows current).length + batch.rows.length) ts).flatMap
        (tableChanges cfg)).length ≤ (returnedRows (current ++ [.returned batch])).length := by
      rw [hnow, List.length_append]
      exact length_wholeWithin_le _ ts
    obtain ⟨rows, hrows, hinfix⟩ := infix_of_mem hwithin hreads hlength hwhole
    exact ⟨_, List.mem_append_right _ (List.mem_singleton_self _), rows, hrows, hinfix⟩

/-- A batch is handed out. -/
theorem Tracks.take {reader : State} (h : Tracks values cfg s events)
    (hstart : s.reader.cycleStart = false) {batch : RecordBatch}
    (htake : takeQueued s.reader = some (reader, batch)) :
    Tracks values cfg { s with reader } (events ++ [.returned batch]) := by
  have hsplit : cycles (events ++ [.returned batch]) =
      ((cycles events).1, (cycles events).2 ++ [.returned batch]) := cycles_concat _
  rw [takeQueued] at htake
  cases hqueue : s.reader.queue with
  | nil =>
    rw [hqueue] at htake
    cases htake
  | cons entry queue =>
    obtain ⟨batch', ack⟩ := entry
    rw [hqueue] at htake
    cases htake
    obtain hquiet | ⟨ts, hbusy⟩ := h.cycle
    · cases hqueue.symm.trans hquiet.queue
    have hold : ∀ lsn, s.reader.pendingLsn = some lsn → (∃ t ∈ s.log, t.endLsn = lsn) ∧
        ∀ t ∈ s.log, t.endLsn ≤ lsn →
          Returned values cfg ((cycles events).1 ++ [(cycles events).2 ++ [.returned batch]]) t := by
      intro lsn hlsn
      obtain ⟨hlast, hreturned⟩ := h.pending lsn hlsn
      rw [hstart] at hreturned
      exact ⟨hlast, fun t ht hle => (hreturned t ht hle).concat _⟩
    have hnow : returnedRows ((cycles events).2 ++ [.returned batch]) =
        returnedRows (cycles events).2 ++ batch.rows := by
      rw [returnedRows_append]
      exact congrArg _ (List.append_nil _)
    obtain ⟨left, hreads, hleft⟩ := hbusy.rows
    have hacks := hbusy.acks
    obtain ⟨rows, batchRows, htold⟩ := hbusy.told
    rw [hqueue] at hreads hacks
    refine ⟨⟨acknowledged_concat h.acknowledged nofun, hsplit ▸ h.ordered⟩, h.sorted,
      hsplit ▸ h.confirmed, fun lsn hlsn => ?_,
      .inr ⟨ts, ⟨rows, batchRows, ?_⟩, hbusy.peeked, hstart, hbusy.next, ?_,
        ⟨left, ?_, fun hconnected => ?_⟩, ?_⟩, ?_, ?_⟩
    · rw [hsplit]
      dsimp only at hlsn ⊢
      rw [hstart]
      cases ack with
      | none => exact hold lsn hlsn
      | some acked =>
        have hnew := hbusy.returned h.sorted h.confirmed hqueue
        cases hpending : s.reader.pendingLsn with
        | none =>
          rw [hpending] at hlsn
          cases hlsn
          exact hnew
        | some current =>
          rw [hpending] at hlsn
          have hlsn : max acked current = lsn := Option.some.inj hlsn
          rcases max_choice acked current with hmax | hmax
          · rw [← hlsn, hmax]
            exact hnew
          · rw [← hlsn, hmax]
            exact hold current hpending
    · rw [hsplit]
      exact List.mem_append_left _ htold
    · rw [hsplit]
      intro rows batchRows hmem
      rcases List.mem_append.mp hmem with hmem | hmem
      · exact hbusy.rendered rows batchRows hmem
      · cases List.mem_singleton.mp hmem
    · rw [hsplit, hnow]
      rw [rowsOf, List.flatMap_cons] at hreads
      simp only [List.append_assoc] at hreads ⊢
      exact hreads
    · rw [hsplit] at hconnected
      exact hleft fun hmem => hconnected (List.mem_append_left _ hmem)
    · rw [hsplit, hnow, List.length_append]
      exact hacks.2.2
    · intro _
      rw [hsplit, batchesIn_append, ← h.counted hstart]
      rfl
    · intro hcycle
      cases hstart.symm.trans hcycle

/-! ## Calls -/

/-- A new session leaves the cycle alone. -/
theorem newSession_frame (cfg : Config) (reader : State) (a : Answers) :
    (newSession cfg reader a).1.queue = reader.queue ∧
      (newSession cfg reader a).1.pendingLsn = reader.pendingLsn ∧
      (newSession cfg reader a).1.peekedThisCycle = reader.peekedThisCycle ∧
      (newSession cfg reader a).1.cycleStart = reader.cycleStart ∧
      (newSession cfg reader a).1.batchesThisCycle = reader.batchesThisCycle := by
  rw [newSession]
  split
  · exact ⟨rfl, rfl, rfl, rfl, rfl⟩
  rw [prepareSession]
  split
  · exact ⟨rfl, rfl, rfl, rfl, rfl⟩
  dsimp only
  split_ifs
  · split <;> exact ⟨rfl, rfl, rfl, rfl, rfl⟩
  · exact ⟨rfl, rfl, rfl, rfl, rfl⟩

/-- The session of a call. -/
theorem Tracks.ensureSession (h : Tracks values cfg s events) (a : Answers) :
    Tracks values cfg { s with reader := (ensureSession cfg s.reader a).1 }
      (events ++ (ensureSession cfg s.reader a).2.1) := by
  rw [Logical.ensureSession]
  split_ifs
  · exact (List.append_nil events).symm ▸ h
  · obtain ⟨hqueue, hpending, hpeeked, hstart, hbatches⟩ := newSession_frame cfg
      { s.reader with slotReady := false, queue := [], columns := [] } a
    exact h.lose hqueue hpending hpeeked hstart hbatches
  · obtain ⟨hqueue, hpending, hpeeked, hstart, hbatches⟩ := newSession_frame cfg s.reader a
    exact (List.append_nil events).symm ▸ h.same hqueue hpending hpeeked hstart hbatches

theorem takeQueued_eq_none {reader : State} (h : takeQueued reader = none) : reader.queue = [] := by
  rw [takeQueued] at h
  split at h
  next hqueue => exact hqueue
  next => cases h

/-- A call from the start of its cycle to what it returns. -/
theorem Tracks.drain {a : Answers} {reader : State} {told : List Event}
    (h : Tracks values cfg s events) (hstart : s.reader.cycleStart = false)
    (hdrain : drain values cfg s.reader a = (reader, told))
    (hdocumented : ∀ rows batchRows, .peeked rows batchRows ∈ told →
      ∃ ts, ts <+: s.log.filter (fun t => s.confirmed < t.endLsn) ∧ Renders .empty ts rows) :
    Tracks values cfg { s with reader } (events ++ told) := by
  rw [Logical.drain] at hdrain
  split_ifs at hdrain with hcap hpeeked
  · cases hdrain
    exact h.finish _ hstart (.inr hcap) rfl rfl rfl
  · split at hdrain
    next reader' batch htake =>
      cases hdrain
      exact h.take hstart htake
    next htake =>
      cases hdrain
      have hempty := takeQueued_eq_none htake
      exact h.finish _ hstart (.inl hempty) hempty rfl rfl
  · split at hdrain
    next reader' batch htake =>
      cases hdrain
      exact h.take hstart htake
    next =>
      split at hdrain
      · cases hdrain
        exact h.fail _
      next rows _ =>
        dsimp only at hdrain
        split at hdrain
        next e _ =>
          -- a peek that does not decode leaves nothing on the queue
          cases hdrain
          have hquiet : Quiet s (cycles events).2 := by
            refine h.cycle.resolve_right ?_
            rintro ⟨ts, hbusy⟩
            exact hpeeked hbusy.peeked
          have hspoiled : Tracks values cfg
              { s with reader := { s.reader with peekedThisCycle := true } } events :=
            ⟨h.toSlotSafe, h.sorted, h.confirmed, h.pending,
              .inl ⟨hquiet.queue, hquiet.rows, hquiet.batches, hquiet.peeked⟩, h.counted,
              fun _ => ⟨hquiet.queue, hquiet.rows, hquiet.batches, hquiet.peeked⟩⟩
          exact hspoiled.fail e
        next produced hdecode =>
          have hfirst : s.reader.peekedThisCycle = false := Bool.not_eq_true _ ▸ hpeeked
          obtain ⟨ts, hnext, hrenders⟩ := hdocumented rows s.reader.batchRows (by
            split at hdrain <;> cases hdrain <;> exact List.mem_cons_self)
          have hpeek := h.peek
            { s.reader with peekedThisCycle := true, queue := s.reader.queue ++ produced }
            hstart hfirst hdecode hnext hrenders rfl rfl rfl hstart rfl
          split at hdrain
          next reader' batch htake =>
            cases hdrain
            have htaken := hpeek.take hstart htake
            rwa [List.append_assoc] at htaken
          next htake =>
            cases hdrain
            have hempty := takeQueued_eq_none htake
            have hended := hpeek.finish
              { s.reader with
                peekedThisCycle := true
                queue := s.reader.queue ++ produced
                cycleStart := true }
              hstart (.inl hempty) hempty rfl rfl
            rwa [List.append_assoc] at hended

theorem moveSlot_append {position : Nat} :
    moveSlot position (events ++ more) = moveSlot (moveSlot position events) more :=
  List.foldl_append

/-- The slot's position after a call. -/
theorem moveSlot_drain (values : Values) (cfg : Config) (reader : State) (a : Answers) (position : Nat) :
    moveSlot position (Logical.drain values cfg reader a).2 = position := by
  rw [Logical.drain]
  split_ifs
  · rfl
  · split <;> rfl
  · split
    · rfl
    · split
      · rfl
      · dsimp only
        split
        · rfl
        · split <;> rfl

theorem moveSlot_ensureSession (cfg : Config) (reader : State) (a : Answers) (position : Nat) :
    moveSlot position (Logical.ensureSession cfg reader a).2.1 = position := by
  rw [Logical.ensureSession]
  split_ifs <;> rfl

/-- `advance`, at the start of a cycle. -/
theorem Tracks.advance (h : Tracks values cfg s events) (hstart : s.reader.cycleStart = true)
    (a : Answers) :
    Tracks values cfg
      { s with
        reader := (advance cfg s.reader a).1
        confirmed := moveSlot s.confirmed (advance cfg s.reader a).2.1 }
      (events ++ (advance cfg s.reader a).2.1) ∧
    (advance cfg s.reader a).1.cycleStart = true ∧
    ((advance cfg s.reader a).2.2 = .ok () → (advance cfg s.reader a).1.pendingLsn = none) := by
  rw [Logical.advance]
  split
  next hpending => exact ⟨(List.append_nil events).symm ▸ h, hstart, fun _ => hpending⟩
  next lsn hpending =>
    split
    next detail moved _ =>
      have hadvanced := h.advanced hstart hpending moved
      cases moved <;> exact ⟨hadvanced, hstart, nofun⟩
    next confirmed _ =>
      have hadvanced := h.advanced hstart hpending true
      split
      · exact ⟨hadvanced, hstart, nofun⟩
      · have hquiet := hadvanced.fresh hstart
        refine ⟨⟨hadvanced.toSlotSafe, hadvanced.sorted, hadvanced.confirmed, nofun, .inl ?_, ?_, ?_⟩,
          hstart, fun _ => rfl⟩
        · exact ⟨hquiet.queue, hquiet.rows, hquiet.batches, hquiet.peeked⟩
        · exact fun hcycle => nomatch hstart.symm.trans hcycle
        · exact fun _ => ⟨hquiet.queue, hquiet.rows, hquiet.batches, hquiet.peeked⟩

/-- The reader at the start of its next cycle. -/
def State.nextCycle (reader : State) : State :=
  { reader with cycleStart := false, batchesThisCycle := 0, peekedThisCycle := false }

/-- `advance` succeeded, and the next cycle begins. -/
theorem Tracks.newCycle (h : Tracks values cfg s events) (hstart : s.reader.cycleStart = true)
    {a : Answers} {reader : State} {moved : List Event}
    (hadvance : Logical.advance cfg s.reader a = (reader, moved, .ok ())) :
    Tracks values cfg
        { s with reader := reader.nextCycle, confirmed := moveSlot s.confirmed moved }
        (events ++ moved) ∧
      Quiet { s with reader := reader.nextCycle, confirmed := moveSlot s.confirmed moved }
        (cycles (events ++ moved)).2 := by
  obtain ⟨hmoved, hstill, hnone⟩ := h.advance hstart a
  rw [hadvance] at hmoved hstill hnone
  have hquiet := hmoved.fresh hstill
  exact ⟨hmoved.begin reader.nextCycle hstill rfl (hnone rfl) rfl rfl,
    hquiet.queue, hquiet.rows, hquiet.batches, hquiet.peeked⟩

/-- What a call can do. -/
theorem nextBatch_cases (values : Values) (cfg : Config) (reader : State) (a : Answers) :
    ∃ reader' told result, Logical.ensureSession cfg reader a = (reader', told, result) ∧
      ((∃ e, nextBatch values cfg reader a = (reader', told ++ [.failed e])) ∨
        reader'.cycleStart = false ∧
          nextBatch values cfg reader a =
            ((drain values cfg reader' a).1, told ++ (drain values cfg reader' a).2) ∨
        reader'.cycleStart = true ∧ ∃ reader'' moved result,
          Logical.advance cfg reader' a = (reader'', moved, result) ∧
            ((∃ e, nextBatch values cfg reader a = (reader'', told ++ moved ++ [.failed e])) ∨
              result = .ok () ∧ nextBatch values cfg reader a =
                ((drain values cfg reader''.nextCycle a).1,
                  told ++ moved ++ (drain values cfg reader''.nextCycle a).2))) := by
  rcases hensure : Logical.ensureSession cfg reader a with ⟨reader', told, result⟩
  refine ⟨reader', told, result, rfl, ?_⟩
  rw [nextBatch, hensure]
  cases result with
  | error e => exact .inl ⟨e, rfl⟩
  | ok =>
    refine .inr ?_
    dsimp only
    split_ifs with hstart
    · refine .inr ⟨hstart, ?_⟩
      rcases hadvance : Logical.advance cfg reader' a with ⟨reader'', moved, result⟩
      refine ⟨reader'', moved, result, rfl, ?_⟩
      cases result with
      | error e => exact .inl ⟨e, rfl⟩
      | ok => exact .inr ⟨rfl, rfl⟩
    · exact .inl ⟨Bool.not_eq_true _ ▸ hstart, rfl⟩

/-- A call. -/
theorem Tracks.nextBatch (h : Tracks values cfg s events) (a : Answers)
    (hdocumented : Documented values cfg s (.call a)) :
    Tracks values cfg
      { s with
        reader := (nextBatch values cfg s.reader a).1
        confirmed := moveSlot s.confirmed (nextBatch values cfg s.reader a).2 }
      (events ++ (nextBatch values cfg s.reader a).2) := by
  have hpeeks : ∀ rows batchRows,
      .peeked rows batchRows ∈ (Logical.nextBatch values cfg s.reader a).2 →
        ∃ ts, ts <+: s.log.filter (fun t =>
          moveSlot s.confirmed (Logical.nextBatch values cfg s.reader a).2 < t.endLsn) ∧
          Renders .empty ts rows := hdocumented _ _ rfl
  have hsession := h.ensureSession a
  have hunmoved := moveSlot_ensureSession cfg s.reader a s.confirmed
  obtain ⟨reader, told, result, hensure, ⟨e, hcall⟩ | ⟨hstart, hcall⟩ |
    ⟨hstart, reader', moved, result', hadvance, ⟨e, hcall⟩ | ⟨rfl, hcall⟩⟩⟩ :=
    nextBatch_cases values cfg s.reader a
  all_goals
    rw [hcall] at hpeeks ⊢
    rw [hensure] at hsession hunmoved
    dsimp only at hpeeks hsession hunmoved ⊢
  · have hfailed := hsession.fail e
    rw [List.append_assoc] at hfailed
    rw [moveSlot_append, hunmoved]
    exact hfailed
  · have hmoved := moveSlot_drain values cfg reader a s.confirmed
    rw [moveSlot_append, hunmoved, hmoved] at hpeeks ⊢
    have hdrain := hsession.drain (a := a) hstart rfl fun rows batchRows hmem =>
      hpeeks rows batchRows (List.mem_append_right _ hmem)
    rw [List.append_assoc] at hdrain
    exact hdrain
  · obtain ⟨hmoved, -, -⟩ := hsession.advance hstart a
    dsimp only at hmoved
    rw [hadvance] at hmoved
    have hfailed := hmoved.fail e
    rw [moveSlot_append, moveSlot_append, hunmoved]
    rw [List.append_assoc, List.append_assoc, ← List.append_assoc told] at hfailed
    exact hfailed
  · obtain ⟨hbegun, -⟩ := hsession.newCycle hstart hadvance
    have hsame := moveSlot_drain values cfg reader'.nextCycle a (moveSlot s.confirmed moved)
    rw [moveSlot_append, moveSlot_append, hunmoved, hsame] at hpeeks ⊢
    have hdrain := hbegun.drain (a := a) rfl rfl fun rows batchRows hmem =>
      hpeeks rows batchRows (List.mem_append_right _ hmem)
    rw [List.append_assoc, List.append_assoc, ← List.append_assoc told] at hdrain
    exact hdrain

theorem Tracks.commit (h : Tracks values cfg s events) {t : Transaction}
    (hdocumented : Documented values cfg s (.commit t)) :
    Tracks values cfg { s with log := s.log ++ [t] } events := by
  obtain ⟨hahead, hlater⟩ := hdocumented
  have hlog : ∀ lsn, (∃ u ∈ s.log, u.endLsn = lsn) → ∀ u ∈ s.log ++ [t], u.endLsn ≤ lsn → u ∈ s.log := by
    rintro _ ⟨last, hlast, rfl⟩ u hu hle
    refine (List.mem_append.mp hu).resolve_right fun hu => ?_
    rw [List.mem_singleton.mp hu] at hle
    have := hlater last hlast
    omega
  refine ⟨⟨fun lsn moved before after heq => ?_, h.ordered⟩, ?_, fun u hu hle => ?_, fun lsn hlsn => ?_,
    ?_, h.counted, fun hstart => ?_⟩
  · obtain ⟨⟨last, hlast, hend⟩, hreturned⟩ := h.acknowledged lsn moved before after heq
    exact ⟨⟨last, List.mem_append_left _ hlast, hend⟩, fun u hu hle =>
      hreturned u (hlog lsn ⟨last, hlast, hend⟩ u hu hle) hle⟩
  · refine List.pairwise_append.mpr ⟨h.sorted, List.pairwise_singleton _ _, fun u hu v hv => ?_⟩
    rw [List.mem_singleton.mp hv]
    exact hlater u hu
  · refine h.confirmed u ((List.mem_append.mp hu).resolve_right fun hu => ?_) hle
    rw [List.mem_singleton.mp hu] at hle
    exact absurd hahead (Nat.not_lt.mpr hle)
  · obtain ⟨⟨last, hlast, hend⟩, hreturned⟩ := h.pending lsn hlsn
    exact ⟨⟨last, List.mem_append_left _ hlast, hend⟩, fun u hu hle =>
      hreturned u (hlog lsn ⟨last, hlast, hend⟩ u hu hle) hle⟩
  · refine h.cycle.imp (fun h => ⟨h.queue, h.rows, h.batches, h.peeked⟩) fun ⟨ts, hbusy⟩ => ⟨ts, ?_⟩
    refine ⟨hbusy.told, hbusy.peeked, hbusy.running, hbusy.next.trans ?_, hbusy.rendered, hbusy.rows, hbusy.acks⟩
    rw [List.filter_append]
    exact List.prefix_append _ _
  · obtain ⟨hqueue, hrows, hcount, hnone⟩ := h.fresh hstart
    exact ⟨hqueue, hrows, hcount, hnone⟩

/-- The step lemma. -/
theorem Tracks.step {input : Input} {s' : System} (h : Tracks values cfg s events)
    (hdocumented : Documented values cfg s input)
    (hstep : step values cfg s input = .ok (s', more)) : Tracks values cfg s' (events ++ more) := by
  cases input with
  | commit t =>
    cases hstep
    rw [List.append_nil]
    exact h.commit hdocumented
  | setBatchRows rows =>
    cases hstep
    rw [List.append_nil]
    exact h.same rfl rfl rfl rfl rfl
  | call a =>
    cases hstep
    exact h.nextBatch a hdocumented

theorem tracks_start (batchRows confirmed : Nat) :
    Tracks values cfg (.start batchRows confirmed) [] := by
  have hquiet : Quiet (.start batchRows confirmed) [] := ⟨rfl, rfl, rfl, nofun⟩
  refine ⟨⟨fun lsn moved before after heq => ?_, nofun⟩, .nil, nofun, nofun, .inl hquiet, fun _ => rfl,
    fun _ => hquiet⟩
  cases before <;> cases heq

theorem tracks_run {batchRows confirmed : Nat} {inputs : List Input} {outs : List (List Event)}
    (h : run (step values cfg) (.start batchRows confirmed) inputs = .ok (s, outs))
    (hdocumented : EachStep (step values cfg) (Documented values cfg) (.start batchRows confirmed)
      inputs) :
    Tracks values cfg s outs.flatten := by
  refine run_outputs_induction_of_eachStep (P := fun s outs => Tracks values cfg s outs.flatten)
    (tracks_start batchRows confirmed) (fun s outs input s' more htracks hC hstep => ?_) h hdocumented
  rw [List.flatten_concat]
  exact htracks.step hC hstep

/-- **The slot is safe.** Over every run with a documented server: it moves only past what was
returned, and every cycle, the one under way included, returns its peek in order. -/
theorem slot_safe {batchRows confirmed : Nat} {inputs : List Input} {outs : List (List Event)}
    (h : run (step values cfg) (.start batchRows confirmed) inputs = .ok (s, outs))
    (hdocumented : EachStep (step values cfg) (Documented values cfg) (.start batchRows confirmed)
      inputs) :
    SlotSafe values cfg s.log outs.flatten ∧
      (Empty (cycles outs.flatten).2 ∨
        ∃ ts left, InOrder values cfg (cycles outs.flatten).2 ts left) := by
  have htracks := tracks_run h hdocumented
  refine ⟨htracks.toSlotSafe, htracks.cycle.imp (fun hquiet => ⟨hquiet.rows, hquiet.peeked⟩) ?_⟩
  rintro ⟨ts, hbusy⟩
  obtain ⟨left, hreads, -⟩ := hbusy.rows
  rw [List.append_assoc] at hreads
  exact ⟨ts, _, hbusy.told, hbusy.rendered, hreads⟩

end
end Saci.Postgres.Logical
