import Mathlib

/-!
# The connections to a Raft peer

Calls to one peer share a pool of idle streams and a circuit breaker (`PeerPool`, `CircuitState` and
their users `send_envelope`, `send_snapshot_chunks` and `forward_proposal` in
`transport/client.rs`). The peer serves a stream's requests one after the other; a call that is
given up leaves its stream with whatever is still under way on it. Times are in nanoseconds.
-/

namespace Saci

/-! ## The circuit breaker -/

def CIRCUIT_OPEN_THRESHOLD : Nat := 5

def CIRCUIT_OPEN_DURATION : Nat := 2 * 1000000000

inductive CircuitState
  | closed (consecutiveFailures : Nat)
  | opened (openedAt : Nat)

namespace CircuitState

def new : CircuitState := .closed 0

/-- Calls are refused. -/
def isOpen (now : Nat) : CircuitState → Bool
  | .closed _ => false
  | .opened openedAt => now - openedAt < CIRCUIT_OPEN_DURATION

def recordSuccess (_ : CircuitState) : CircuitState := .closed 0

def recordFailure (now : Nat) : CircuitState → CircuitState
  | .closed consecutiveFailures =>
    if consecutiveFailures + 1 ≥ CIRCUIT_OPEN_THRESHOLD then .opened now
    else .closed (consecutiveFailures + 1)
  | .opened openedAt =>
    if now - openedAt ≥ CIRCUIT_OPEN_DURATION then .closed 1 else .opened openedAt

def record (now : Nat) (circuit : CircuitState) : Bool → CircuitState
  | true => circuit.recordSuccess
  | false => circuit.recordFailure now

/-- The failures that a state stands for, at the end of the outcomes that were recorded. -/
def Follows (recorded : List (Nat × Bool)) : CircuitState → Prop
  | .closed n => n < CIRCUIT_OPEN_THRESHOLD ∧ ∃ earlier fails, recorded = earlier ++ fails ∧
      fails.length = n ∧ ∀ r ∈ fails, r.2 = false
  | .opened openedAt => ∃ earlier fails later, recorded = earlier ++ (fails ++ later) ∧
      fails.length = CIRCUIT_OPEN_THRESHOLD ∧ (∀ r ∈ fails ++ later, r.2 = false) ∧
      fails.getLast? = some (openedAt, false)

theorem Follows.record {recorded : List (Nat × Bool)} {circuit : CircuitState}
    (h : circuit.Follows recorded) (now : Nat) (success : Bool) :
    (circuit.record now success).Follows (recorded ++ [(now, success)]) := by
  cases success with
  | true => exact ⟨by decide, recorded ++ [(now, true)], [], by simp, rfl, by simp⟩
  | false =>
    cases circuit with
    | closed n =>
      obtain ⟨hlt, earlier, fails, rfl, rfl, hfails⟩ := h
      have hall : ∀ r ∈ fails ++ [(now, false)], r.2 = false := by
        simpa [or_imp, forall_and] using hfails
      change Follows _ (if _ then _ else _)
      split_ifs with hge
      · refine ⟨earlier, fails ++ [(now, false)], [], by simp, ?_, by simpa using hfails, by simp⟩
        rw [List.length_append]
        exact le_antisymm hlt hge
      · exact ⟨not_le.mp hge, earlier, fails ++ [(now, false)], by simp, by simp, hall⟩
    | opened openedAt =>
      obtain ⟨earlier, fails, later, rfl, hlen, hfails, hlast⟩ := h
      change Follows _ (if _ then _ else _)
      split_ifs with hge
      · exact ⟨by decide, earlier ++ (fails ++ later), [(now, false)], rfl, rfl, by simp⟩
      · refine ⟨earlier, fails, later ++ [(now, false)], by simp, hlen, ?_, hlast⟩
        rw [← List.append_assoc]
        simpa [or_imp, forall_and] using hfails

end CircuitState

/-! ## The pool -/

def POOL_CAPACITY : Nat := 4

def POOL_MAX_IDLE : Nat := 10 * 1000000000

/-- A stream tagged with the time it was returned. -/
structure PooledStream where
  stream : Nat
  returnedAt : Nat

structure PeerPool where
  idle : List PooledStream
  circuit : CircuitState

namespace PeerPool

/-- The pool's part of `acquire`: the first stream that is fresh enough, without those before it. -/
def popFresh (now : Nat) : List PooledStream → Option Nat × List PooledStream
  | [] => (none, [])
  | pooled :: idle =>
    if now - pooled.returnedAt ≤ POOL_MAX_IDLE then (some pooled.stream, idle) else popFresh now idle

/-- Return a healthy stream. A full pool drops it. -/
def release (pool : PeerPool) (now stream : Nat) : PeerPool :=
  if pool.idle.length < POOL_CAPACITY then { pool with idle := pool.idle ++ [⟨stream, now⟩] } else pool

theorem popFresh_spec (now : Nat) (idle : List PooledStream) :
    ∃ stale, idle.map PooledStream.stream =
      stale ++ ((popFresh now idle).1.toList ++ (popFresh now idle).2.map PooledStream.stream) := by
  induction idle with
  | nil => exact ⟨[], rfl⟩
  | cons pooled idle ih =>
    rw [popFresh]
    split_ifs with hfresh
    · exact ⟨[], rfl⟩
    · obtain ⟨stale, hstale⟩ := ih
      exact ⟨pooled.stream :: stale, congrArg (pooled.stream :: ·) hstale⟩

end PeerPool

/-! ## Calls -/

section
variable {Request Response κ : Type}

/-- Where a call to the peer is. -/
inductive Call (Request : Type)
  | idle
  | holding (stream : Nat)
  | waiting (request : Request) (stream : Nat)
  /-- `send_envelope`, about to tell the circuit. -/
  | reporting (success : Bool)

def Call.stream : Call Request → Option Nat
  | .idle | .reporting _ => none
  | .holding stream | .waiting _ stream => some stream

/-- What is under way on a stream. -/
structure Traffic (Request Response : Type) where
  requests : List Request
  responses : List Response

/-- The calls of a node to one peer. What was read as an answer and what the circuit was told are
kept; `opened` counts the streams so far. -/
structure Peer (Request Response κ : Type) where
  now : Nat
  pool : PeerPool
  opened : Nat
  traffic : Nat → Traffic Request Response
  calls : κ → Call Request
  answered : List (Request × Response)
  recorded : List (Nat × Bool)

variable [DecidableEq κ] (Answers : Request → Response → Prop)

/-- One step of a call, of the peer or of time. -/
inductive Peer.Step (peer : Peer Request Response κ) : Peer Request Response κ → Prop
  | pass (hlater : peer.now ≤ later) : Step peer { peer with now := later }
  | reuse (hcall : peer.calls c = .idle) (hcircuit : peer.pool.circuit.isOpen peer.now = false)
      (hpop : PeerPool.popFresh peer.now peer.pool.idle = (some stream, idle)) :
      Step peer { peer with
        pool := { peer.pool with idle }, calls := Function.update peer.calls c (.holding stream) }
  | connect (hcall : peer.calls c = .idle) (hcircuit : peer.pool.circuit.isOpen peer.now = false)
      (hpop : PeerPool.popFresh peer.now peer.pool.idle = (none, idle)) :
      Step peer { peer with
        pool := { peer.pool with idle }, opened := peer.opened + 1
        traffic := Function.update peer.traffic peer.opened ⟨[], []⟩
        calls := Function.update peer.calls c (.holding peer.opened) }
  /-- The peer could not be dialled. -/
  | unreachable (hpop : PeerPool.popFresh peer.now peer.pool.idle = (none, idle)) :
      Step peer { peer with pool := { peer.pool with idle } }
  | write {request : Request} (hcall : peer.calls c = .holding stream) :
      Step peer { peer with
        traffic := Function.update peer.traffic stream { peer.traffic stream with
          requests := (peer.traffic stream).requests ++ [request] }
        calls := Function.update peer.calls c (.waiting request stream) }
  /-- The peer serves a request, of whatever is on the stream. -/
  | serve {request : Request} (hrequests : (peer.traffic stream).requests = request :: requests)
      (hanswers : Answers request response) :
      Step peer { peer with
        traffic := Function.update peer.traffic stream
          ⟨requests, (peer.traffic stream).responses ++ [response]⟩ }
  | read {request : Request} (hcall : peer.calls c = .waiting request stream)
      (hresponses : (peer.traffic stream).responses = response :: responses) :
      Step peer { peer with
        traffic := Function.update peer.traffic stream { peer.traffic stream with responses }
        calls := Function.update peer.calls c (.holding stream)
        answered := peer.answered ++ [(request, response)] }
  /-- The call is answered; `send_envelope` also reports it. -/
  | release (hcall : peer.calls c = .holding stream) (hnext : next = .idle ∨ next = .reporting true) :
      Step peer { peer with
        pool := peer.pool.release peer.now stream, calls := Function.update peer.calls c next }
  /-- A timeout, an error or a cancellation, after which the stream is dropped; `send_envelope`
  reports a failed write, a broken frame and a reset, and no timeout. -/
  | giveUp (hnext : next = .idle ∨ next = .reporting false) :
      Step peer { peer with calls := Function.update peer.calls c next }
  | report (hcall : peer.calls c = .reporting success) :
      Step peer { peer with
        pool := { peer.pool with circuit := peer.pool.circuit.record peer.now success }
        calls := Function.update peer.calls c .idle
        recorded := peer.recorded ++ [(peer.now, success)] }

inductive Peer.Reachable : Peer Request Response κ → Prop
  | start : Reachable ⟨n, ⟨[], .new⟩, 0, fun _ => ⟨[], []⟩, fun _ => .idle, [], []⟩
  | step {peer peer'} : Reachable peer → peer.Step Answers peer' → Reachable peer'

/-! ## A stream is used by one call at a time -/

/-- The idle streams and those that calls hold are all different. -/
structure Exclusive (opened : Nat) (idle : List Nat) (calls : κ → Call Request) : Prop where
  nodup : idle.Nodup
  apart : ∀ c s, (calls c).stream = some s → s ∉ idle
  own : ∀ c c' s, (calls c).stream = some s → (calls c').stream = some s → c = c'
  known : ∀ c s, (calls c).stream = some s → s < opened
  idle_known : ∀ s ∈ idle, s < opened

variable {Answers} {opened opened' : Nat} {idle idle' : List Nat} {calls : κ → Call Request}

/-- A call goes on with the stream it holds, an idle one or a new one, or gives it back. -/
theorem Exclusive.update (h : Exclusive opened idle calls) {c : κ} {next : Call Request}
    (hopened : opened ≤ opened') (hnodup : idle'.Nodup)
    (hidle : ∀ s ∈ idle', s ∈ idle ∨ (calls c).stream = some s)
    (hnext : ∀ s, next.stream = some s → s ∉ idle' ∧ s < opened' ∧
      ((calls c).stream = some s ∨ s ∈ idle ∨ opened ≤ s)) :
    Exclusive opened' idle' (Function.update calls c next) := by
  have hother : ∀ c' s, c' ≠ c → (calls c').stream = some s → next.stream ≠ some s := by
    intro c' s hne hs hnext'
    rcases (hnext s hnext').2.2 with hc | hs' | hle
    · exact hne (h.own c' c s hs hc)
    · exact h.apart c' s hs hs'
    · exact absurd (h.known c' s hs) (not_lt.mpr hle)
  refine ⟨hnodup, fun c' s hs => ?_, fun c' c'' s hs hs' => ?_, fun c' s hs => ?_, fun s hs => ?_⟩
  · rw [Function.update_apply] at hs
    split_ifs at hs with heq
    · exact (hnext s hs).1
    · intro hmem
      rcases hidle s hmem with hmem | hc
      · exact h.apart c' s hs hmem
      · exact heq (h.own c' c s hs hc)
  · rw [Function.update_apply] at hs hs'
    split_ifs at hs hs' with heq heq' heq'
    · exact heq.trans heq'.symm
    · exact absurd hs (hother c'' s heq' hs')
    · exact absurd hs' (hother c' s heq hs)
    · exact h.own c' c'' s hs hs'
  · rw [Function.update_apply] at hs
    split_ifs at hs with heq
    · exact (hnext s hs).2.1
    · exact (h.known c' s hs).trans_le hopened
  · rcases hidle s hs with hs | hs
    · exact (h.idle_known s hs).trans_le hopened
    · exact (h.known c s hs).trans_le hopened

/-! ## What is read on a stream is the answer to what its call wrote -/

/-- Nothing but the call's own request, or its answer, is under way on its stream. -/
def Call.Sound (Answers : Request → Response → Prop) (traffic : Nat → Traffic Request Response) :
    Call Request → Prop
  | .holding stream => traffic stream = ⟨[], []⟩
  | .waiting request stream => traffic stream = ⟨[request], []⟩ ∨
      ∃ response, Answers request response ∧ traffic stream = ⟨[], [response]⟩
  | _ => True

theorem Call.Sound.update {traffic : Nat → Traffic Request Response} {call : Call Request}
    (h : call.Sound Answers traffic) {s : Nat} (hs : call.stream ≠ some s)
    (t : Traffic Request Response) : call.Sound Answers (Function.update traffic s t) := by
  cases call with
  | idle => trivial
  | reporting _ => trivial
  | holding stream =>
    have hne : stream ≠ s := fun heq => hs (congrArg some heq)
    exact (Function.update_of_ne hne _ _).trans h
  | waiting request stream =>
    have hne : stream ≠ s := fun heq => hs (congrArg some heq)
    rw [Call.Sound, Function.update_of_ne hne]
    exact h

def Peer.streams (peer : Peer Request Response κ) : List Nat := peer.pool.idle.map PooledStream.stream

structure Peer.Sound (Answers : Request → Response → Prop) (peer : Peer Request Response κ) : Prop where
  exclusive : Exclusive peer.opened peer.streams peer.calls
  quiet : ∀ s ∈ peer.streams, peer.traffic s = ⟨[], []⟩
  calls : ∀ c, (peer.calls c).Sound Answers peer.traffic
  answered : ∀ a ∈ peer.answered, Answers a.1 a.2
  bounded : peer.pool.idle.length ≤ POOL_CAPACITY
  circuit : peer.pool.circuit.Follows peer.recorded

variable {peer peer' : Peer Request Response κ}

omit [DecidableEq κ] in
/-- What `acquire` finds, and what it leaves, was idle. -/
theorem Peer.Sound.popped (h : peer.Sound Answers) {fresh : Option Nat} {left : List PooledStream}
    (hpop : PeerPool.popFresh peer.now peer.pool.idle = (fresh, left)) :
    (fresh.toList ++ left.map PooledStream.stream).Nodup ∧
      (∀ s ∈ fresh.toList ++ left.map PooledStream.stream, s ∈ peer.streams) ∧
      left.length ≤ POOL_CAPACITY := by
  obtain ⟨stale, hidle⟩ := PeerPool.popFresh_spec peer.now peer.pool.idle
  rw [hpop] at hidle
  have hnodup : (stale ++ (fresh.toList ++ left.map PooledStream.stream)).Nodup :=
    hidle ▸ h.exclusive.nodup
  refine ⟨(List.nodup_append.mp hnodup).2.1, fun s hs => ?_, ?_⟩
  · rw [Peer.streams, hidle]
    exact List.mem_append_right _ hs
  · have hlen := congrArg List.length hidle
    simp only [List.length_append, List.length_map] at hlen
    have := h.bounded
    omega

/-- A step of a call on its own stream. -/
theorem Peer.Sound.update (h : peer.Sound Answers) {c : κ} {s : Nat} {next : Call Request}
    (hcall : (peer.calls c).stream = some s) (hnext : ∀ s', next.stream = some s' → s' = s)
    {t : Traffic Request Response} (hsound : next.Sound Answers (Function.update peer.traffic s t)) :
    Exclusive peer.opened peer.streams (Function.update peer.calls c next) ∧
      (∀ s' ∈ peer.streams, Function.update peer.traffic s t s' = ⟨[], []⟩) ∧
      ∀ c', (Function.update peer.calls c next c').Sound Answers (Function.update peer.traffic s t) := by
  have happart := h.exclusive.apart c s hcall
  refine ⟨h.exclusive.update le_rfl h.exclusive.nodup (fun _ => .inl) fun s' hs' => ?_,
    fun s' hs' => ?_, fun c' => ?_⟩
  · obtain rfl := hnext s' hs'
    exact ⟨happart, h.exclusive.known c _ hcall, .inl hcall⟩
  · rw [Function.update_of_ne (ne_of_mem_of_not_mem hs' happart)]
    exact h.quiet s' hs'
  · rw [Function.update_apply]
    split_ifs with heq
    · exact hsound
    · exact (h.calls c').update (fun hs' => heq (h.exclusive.own c' c s hs' hcall)) t

/-- A call that holds no stream any more leaves the others as they were. -/
theorem Peer.Sound.letGo (h : peer.Sound Answers) (c : κ) {next : Call Request}
    (hnone : next.stream = none) :
    Exclusive peer.opened peer.streams (Function.update peer.calls c next) ∧
      ∀ c', (Function.update peer.calls c next c').Sound Answers peer.traffic := by
  refine ⟨h.exclusive.update le_rfl h.exclusive.nodup (fun _ => .inl) ?_, fun c' => ?_⟩
  · rw [hnone]
    rintro s ⟨⟩
  · rw [Function.update_apply]
    split_ifs
    · cases next with
      | idle => trivial
      | reporting _ => trivial
      | holding _ => cases hnone
      | waiting _ _ => cases hnone
    · exact h.calls c'

theorem Peer.Sound.step (h : peer.Sound Answers) (hstep : peer.Step Answers peer') :
    peer'.Sound Answers := by
  cases hstep with
  | pass hlater => exact { h with }
  | @reuse c stream idle hcall hcircuit hpop =>
    obtain ⟨hnodup, hidle, hlen⟩ := h.popped hpop
    obtain ⟨hnew, hnodup⟩ := List.nodup_cons.mp hnodup
    have hstream := hidle stream List.mem_cons_self
    refine { h with
      exclusive := h.exclusive.update le_rfl hnodup (fun s hs => .inl (hidle s (.tail _ hs))) ?_
      quiet := fun s hs => h.quiet s (hidle s (.tail _ hs))
      calls := fun c' => ?_
      bounded := hlen }
    · rintro s ⟨⟩
      exact ⟨hnew, h.exclusive.idle_known _ hstream, .inr (.inl hstream)⟩
    · change (Function.update peer.calls c _ c').Sound _ _
      rw [Function.update_apply]
      split_ifs
      · exact h.quiet stream hstream
      · exact h.calls c'
  | @connect c idle hcall hcircuit hpop =>
    obtain ⟨hnodup, hidle, hlen⟩ := h.popped hpop
    refine { h with
      exclusive := h.exclusive.update (Nat.le_succ _) hnodup (fun s hs => .inl (hidle s hs)) ?_
      quiet := fun s hs => ?_
      calls := fun c' => ?_
      bounded := hlen }
    · rintro s ⟨⟩
      refine ⟨fun hs => ?_, Nat.lt_succ_self _, .inr (.inr le_rfl)⟩
      exact (h.exclusive.idle_known _ (hidle _ hs)).false
    · have hlt := h.exclusive.idle_known s (hidle s hs)
      change Function.update peer.traffic peer.opened _ s = _
      rw [Function.update_of_ne hlt.ne]
      exact h.quiet s (hidle s hs)
    · change (Function.update peer.calls c _ c').Sound _ (Function.update peer.traffic peer.opened _)
      rw [Function.update_apply peer.calls]
      split_ifs
      · exact Function.update_self ..
      · exact (h.calls c').update (fun hs => (h.exclusive.known c' _ hs).false) _
  | @unreachable idle hpop =>
    obtain ⟨hnodup, hidle, hlen⟩ := h.popped hpop
    exact { h with
      exclusive := { h.exclusive with
        nodup := hnodup
        apart := fun c s hs hmem => h.exclusive.apart c s hs (hidle s hmem)
        idle_known := fun s hs => h.exclusive.idle_known s (hidle s hs) }
      quiet := fun s hs => h.quiet s (hidle s hs)
      bounded := hlen }
  | @write c stream request hcall =>
    have htraffic : (Call.holding stream).Sound Answers peer.traffic := hcall ▸ h.calls c
    obtain ⟨hexclusive, hquiet, hcalls⟩ := @Peer.Sound.update _ _ _ _ _ _ h c stream
      (.waiting request stream) (congrArg Call.stream hcall) (by rintro _ ⟨⟩; rfl) ⟨[request], []⟩
      (.inl (Function.update_self ..))
    rw [show peer.traffic stream = ⟨[], []⟩ from htraffic]
    exact { h with exclusive := hexclusive, quiet := hquiet, calls := hcalls }
  | @serve stream requests response request hrequests hanswers =>
    refine { h with quiet := fun s hs => ?_, calls := fun c => ?_ }
    · have hne : s ≠ stream := by
        rintro rfl
        rw [h.quiet s hs] at hrequests
        cases hrequests
      exact (Function.update_of_ne hne _ _).trans (h.quiet s hs)
    · have hsound := h.calls c
      by_cases hs : (peer.calls c).stream = some stream
      · change (peer.calls c).Sound _ (Function.update peer.traffic stream _)
        cases hcall : peer.calls c with
        | idle => trivial
        | reporting _ => trivial
        | holding s =>
          rw [hcall] at hs hsound
          cases hs
          rw [show peer.traffic stream = ⟨[], []⟩ from hsound] at hrequests
          cases hrequests
        | waiting r s =>
          rw [hcall] at hs hsound
          cases hs
          -- its own request is the only one, and is not answered yet
          rcases hsound with htraffic | ⟨_, _, htraffic⟩
          · rw [htraffic] at hrequests ⊢
            cases hrequests
            exact .inr ⟨response, hanswers, Function.update_self ..⟩
          · rw [htraffic] at hrequests
            cases hrequests
      · exact hsound.update hs _
  | @read c stream response responses request hcall hresponses =>
    have htraffic : (Call.waiting request stream).Sound Answers peer.traffic := hcall ▸ h.calls c
    rcases htraffic with htraffic | ⟨_, hanswers, htraffic⟩
    · rw [htraffic] at hresponses
      cases hresponses
    rw [htraffic] at hresponses
    cases hresponses
    obtain ⟨hexclusive, hquiet, hcalls⟩ := @Peer.Sound.update _ _ _ _ _ _ h c stream
      (.holding stream) (congrArg Call.stream hcall) (by rintro _ ⟨⟩; rfl) ⟨[], []⟩
      (Function.update_self ..)
    rw [htraffic]
    refine { h with exclusive := hexclusive, quiet := hquiet, calls := hcalls, answered := ?_ }
    intro a ha
    rcases List.mem_append.mp ha with ha | ha
    · exact h.answered a ha
    · rw [List.mem_singleton.mp ha]
      exact hanswers
  | @release c stream next hcall hnext =>
    have hnone : next.stream = none := by rcases hnext with rfl | rfl <;> rfl
    have htraffic : (Call.holding stream).Sound Answers peer.traffic := hcall ▸ h.calls c
    have hstream : (peer.calls c).stream = some stream := congrArg Call.stream hcall
    obtain ⟨hexclusive, hcalls⟩ := h.letGo c hnone
    rw [PeerPool.release]
    split_ifs with hroom
    · have hstreams : (peer.pool.idle ++ [PooledStream.mk stream peer.now]).map PooledStream.stream =
          peer.streams ++ [stream] := List.map_append
      have hidle : ∀ s ∈ peer.streams ++ [stream], s ∈ peer.streams ∨ s = stream := by simp
      have hnodup : (peer.streams ++ [stream]).Nodup := by
        refine List.nodup_append.mpr ⟨h.exclusive.nodup, List.nodup_singleton _, fun s hs s' hs' => ?_⟩
        rw [List.mem_singleton.mp hs']
        exact ne_of_mem_of_not_mem hs (h.exclusive.apart c stream hstream)
      refine { h with exclusive := ?_, quiet := fun s hs => ?_, calls := hcalls, bounded := ?_ }
      · change Exclusive _ (List.map _ _) _
        rw [hstreams]
        refine h.exclusive.update le_rfl hnodup (fun s hs => ?_) (by rw [hnone]; rintro s ⟨⟩)
        rcases hidle s hs with hs | rfl
        · exact .inl hs
        · exact .inr hstream
      · change s ∈ List.map _ _ at hs
        rw [hstreams] at hs
        rcases hidle s hs with hs | rfl
        · exact h.quiet s hs
        · exact htraffic
      · change (_ ++ [_]).length ≤ _
        rw [List.length_append]
        exact hroom
    · exact { h with exclusive := hexclusive, calls := hcalls }
  | @giveUp next c hnext =>
    have hnone : next.stream = none := by rcases hnext with rfl | rfl <;> rfl
    obtain ⟨hexclusive, hcalls⟩ := h.letGo c hnone
    exact { h with exclusive := hexclusive, calls := hcalls }
  | @report c success hcall =>
    obtain ⟨hexclusive, hcalls⟩ := h.letGo c (rfl : Call.idle.stream = none)
    exact { h with exclusive := hexclusive, calls := hcalls, circuit := h.circuit.record _ _ }

theorem Peer.Reachable.sound (h : peer.Reachable Answers) : peer.Sound Answers := by
  induction h with
  | start =>
    refine ⟨⟨List.nodup_nil, ?_, ?_, ?_, ?_⟩, ?_, fun _ => trivial, ?_, Nat.zero_le _, ?_⟩
    · rintro c s ⟨⟩
    · rintro c c' s ⟨⟩
    · rintro c s ⟨⟩
    · rintro s ⟨⟩
    · rintro s ⟨⟩
    · rintro a ⟨⟩
    · exact ⟨by decide, [], [], rfl, rfl, List.forall_mem_nil _⟩
  | step _ hstep ih => exact ih.step hstep

/-- Whatever calls share the pool, and whichever of them are given up: what a call reads is the
answer to its own request, no two calls hold one stream, and the pool keeps its bound. -/
theorem Peer.Reachable.answers_own (h : peer.Reachable Answers) :
    (∀ a ∈ peer.answered, Answers a.1 a.2) ∧
      (∀ c c' s, (peer.calls c).stream = some s → (peer.calls c').stream = some s → c = c') ∧
      peer.pool.idle.length ≤ POOL_CAPACITY :=
  ⟨h.sound.answered, h.sound.exclusive.own, h.sound.bounded⟩

/-- Calls are refused only within the open duration after the last of five failures that were
recorded in a row, and only while no success was recorded since. -/
theorem Peer.Reachable.refused_after_failures (h : peer.Reachable Answers)
    (hopen : peer.pool.circuit.isOpen peer.now = true) :
    ∃ earlier fails later openedAt, peer.recorded = earlier ++ (fails ++ later) ∧
      fails.length = CIRCUIT_OPEN_THRESHOLD ∧ (∀ r ∈ fails ++ later, r.2 = false) ∧
      fails.getLast? = some (openedAt, false) ∧ peer.now < openedAt + CIRCUIT_OPEN_DURATION := by
  have hfollows := h.sound.circuit
  cases hcircuit : peer.pool.circuit with
  | closed n =>
    rw [hcircuit] at hopen
    cases hopen
  | opened openedAt =>
    rw [hcircuit] at hopen hfollows
    obtain ⟨earlier, fails, later, heq, hlen, hfails, hlast⟩ := hfollows
    have hlt : peer.now - openedAt < CIRCUIT_OPEN_DURATION := of_decide_eq_true hopen
    have : 0 < CIRCUIT_OPEN_DURATION := by decide
    exact ⟨earlier, fails, later, openedAt, heq, hlen, hfails, hlast, by omega⟩

end

namespace Peer.Sample

/-- A peer that answers with the number of the request. -/
def Answers (request : Nat) (response : String) : Prop := response = toString request

/-- One call on one stream, which is returned. -/
theorem reachable_answered : ∃ peer : Peer Nat String Unit, peer.Reachable Answers ∧
    peer.answered = [(7, "7")] := by
  have h₁ := (@Reachable.start _ _ Unit _ Answers 0).step (.connect (c := ()) rfl rfl rfl)
  have h₂ := h₁.step (@Step.write _ _ _ _ _ _ () 0 7 rfl)
  have h₃ := h₂.step (@Step.serve _ _ _ _ _ _ 0 [] "7" 7 rfl rfl)
  have h₄ := h₃.step (.read (c := ()) rfl rfl)
  exact ⟨_, h₄.step (.release (c := ()) rfl (.inl rfl)), rfl⟩

theorem answered_own : ∃ peer : Peer Nat String Unit, peer.answered = [(7, "7")] ∧
    ∀ a ∈ peer.answered, a.2 = toString a.1 := by
  obtain ⟨peer, hreach, hanswered⟩ := reachable_answered
  exact ⟨peer, hanswered, hreach.answers_own.1⟩

/-- A call fails on its stream, which is recorded. -/
theorem fails {peer : Peer Nat String Unit} (h : peer.Reachable Answers) :
    ∃ peer' : Peer Nat String Unit, peer'.Reachable Answers ∧ peer'.pool.circuit =
      peer.pool.circuit.recordFailure peer.now ∧ peer'.now = peer.now := by
  have h₁ := h.step (.giveUp (c := ()) (.inr rfl))
  exact ⟨_, h₁.step (@Step.report _ _ _ _ _ _ () false rfl), rfl, rfl⟩

theorem refused_fails : ∃ peer : Peer Nat String Unit, peer.pool.circuit.isOpen peer.now = true ∧
    ∃ earlier fails later, peer.recorded = earlier ++ (fails ++ later) ∧ fails.length = 5 ∧
      ∀ r ∈ fails ++ later, r.2 = false := by
  obtain ⟨peer₁, h₁, hcircuit₁, hnow₁⟩ := fails (@Reachable.start _ _ Unit _ Answers 0)
  obtain ⟨peer₂, h₂, hcircuit₂, hnow₂⟩ := fails h₁
  obtain ⟨peer₃, h₃, hcircuit₃, hnow₃⟩ := fails h₂
  obtain ⟨peer₄, h₄, hcircuit₄, hnow₄⟩ := fails h₃
  obtain ⟨peer₅, h₅, hcircuit₅, hnow₅⟩ := fails h₄
  have hopen : peer₅.pool.circuit.isOpen peer₅.now = true := by
    rw [hcircuit₅, hcircuit₄, hcircuit₃, hcircuit₂, hcircuit₁, hnow₅, hnow₄, hnow₃, hnow₂, hnow₁]
    rfl
  obtain ⟨earlier, fails, later, -, hrecorded, hlen, hfails, -⟩ := h₅.refused_after_failures hopen
  exact ⟨peer₅, hopen, earlier, fails, later, hrecorded, hlen, hfails⟩

end Peer.Sample

end Saci
