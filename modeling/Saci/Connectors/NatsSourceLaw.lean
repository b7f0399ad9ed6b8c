import Saci.Connectors.NatsSource

/-!
# What a JetStream source loses

An acknowledgement covers what a call has returned, a termination what failed to decode often
enough, and a message that decodes is returned, or kept, or delivered again. The last fails where a
message that decodes is in a window that does not, or in a delivery nobody read, and the server
delivers it no more; the first fails under `all`, where an ack covers what such a window held.
-/

namespace Saci.Nats

open Saci.Kafka (MessageTransformer)

section
variable (source : NatsSource) (messages : Messages) (transformer : MessageTransformer)

/-- The attempts that the source spends on a message: no more than the server makes. -/
def effectiveDecodeAttempts (js : JetstreamSourceMode) : Nat :=
  if 0 < js.maxDeliver then min js.maxDecodeAttempts.toNat js.maxDeliver.toNat
  else js.maxDecodeAttempts.toNat

/-- The message as a window of its own. -/
def alone (sequence : Nat) : Received :=
  receivedOf source messages Consumer.new sequence

/-- The payload decodes. -/
def Decodes (sequence : Nat) : Prop :=
  ∃ batch, decodeWindow source transformer true [alone source messages sequence] = .ok batch

/-- A message is terminated for a failure of its own push, or of the window that holds nothing else,
and after as many deliveries as the bound asks for. -/
structure Retired (bound : Nat) (server : Consumer) (t : Termination) : Prop where
  failed : decodeWindow source transformer true t.window = .error t.failure
  own : ∃ index, t.window[index]? = some t.message ∧
    (t.failure.index = some index ∨ t.failure.index = none ∧ t.window.length = 1)
  payload : t.message.payload = messages.payload t.message.sequence
  bounded : 0 < bound
  reached : bound ≤ server.count t.message.sequence

/-- An acknowledgement covers only what was returned, a termination only what used up its decode
attempts, and no message that decodes is lost. -/
structure LosesNothing (bound : Nat) (w : World) : Prop where
  covered : ∀ s, w.server.acknowledged s = true → s ∈ w.history.returned
  retired : ∀ t ∈ w.history.terminations, Retired source messages transformer bound w.server t
  terminated : ∀ s, w.server.terminated s = true →
    ∃ t ∈ w.history.terminations, t.message.sequence = s
  kept : ∀ s, messages.selected s = true → Decodes source messages transformer s →
    s ∈ w.history.returned ∨ (∃ m ∈ w.source.buffer, m.sequence = s) ∨
      Deliverable source.cfg.mode w.server s

/-! ## When a step is safe -/

/-- The window that a step takes out of the buffer. -/
def windowOf (w : World) (input : Input) : List Received :=
  match w.source.phase, input with
  | .idle, .call start =>
    if (w.source.started || start matches .ready) && source.cfg.stopAtEnd then w.source.buffer
    else []
  | .receiving, .pullEnded => w.source.buffer
  | _, _ => []

/-- The window decodes, or the server delivers again what decodes of it, unless it was returned. -/
def WindowSafe (w : World) (window : List Received) : Prop :=
  ∀ failure, decodeWindow source transformer true window = .error failure →
    ∀ m ∈ window, Decodes source messages transformer m.sequence →
      m.sequence ∈ w.history.returned ∨ Redelivers source.cfg.mode w.server m.sequence

/-- The message is delivered without being read. -/
def unreadOf (w : World) (input : Input) : Option Nat :=
  match w.source.phase, input with
  | _, .unread sequence => some sequence
  | .receiving, .receivedBare sequence _ => some sequence
  | _, _ => none

/-- The ack that reaches the server in a step. -/
def ackOf (w : World) (input : Input) : Option Nat :=
  match w.source.phase, input with
  | .acking, .acked true _ | .acking, .dropped true => w.source.pendingAcks.head?
  | _, _ => none

/-- The termination that reaches the server in a step. -/
def terminationOf (w : World) (input : Input) : Option Termination :=
  match w.source.phase, input with
  | .retiring t, .terminated true _ | .retiring t, .dropped true => some t
  | _, _ => none

/-- The step gives up nothing that decodes: under `all` no ack passes what a failed window or an
unread delivery held, the server delivers again what such a window or delivery takes from the
caller, and what is terminated does not decode. -/
structure Safe (w : World) (input : Input) : Prop where
  acked : source.cfg.mode.ackPolicy = .all → ∀ s, ackOf w input = some s →
    ∀ t ∈ w.history.missed, t ≤ s → t ∈ w.history.returned ∨ w.server.terminated t = true
  window : WindowSafe source messages transformer w (windowOf source w input)
  unread : ∀ s, unreadOf w input = some s → Decodes source messages transformer s →
    s ∈ w.history.returned ∨ (∃ m ∈ w.source.buffer, m.sequence = s) ∨
      Redelivers source.cfg.mode (w.server.deliver s) s
  terminated : ∀ t, terminationOf w input = some t →
    Decodes source messages transformer t.message.sequence →
      t.message.sequence ∈ w.history.returned

end

/-! ## Server and source agree -/

section
variable (source : NatsSource) (messages : Messages) (transformer : MessageTransformer)

/-- A collected message is one that the server delivered. -/
structure Held (server : Consumer) (m : Received) : Prop where
  selected : messages.selected m.sequence = true
  delivered : 0 < server.count m.sequence
  payload : m.payload = messages.payload m.sequence
  counted : m.delivered ≤ server.count m.sequence
  ack : ∀ s ∈ m.ack, s = m.sequence

/-- The books of source and server, wherever a call waits. -/
structure Ledger (buffer : List Received) (acks : List Nat) (server : Consumer) (history : History) :
    Prop where
  held : ∀ m ∈ buffer, Held messages server m
  acks : ∀ s ∈ acks, s ∈ history.returned ∧ 0 < server.count s
  /-- What was delivered is accounted for. -/
  read : ∀ s, 0 < server.count s → s ∈ history.returned ∨ server.terminated s = true ∨
    s ∈ history.missed ∨ ∃ m ∈ buffer, m.sequence = s
  /-- Messages are delivered for the first time in order. -/
  ordered : ∀ s, 0 < server.count s → ∀ t < s, messages.selected t = true → 0 < server.count t
  selected : ∀ s, 0 < server.count s → messages.selected s = true
  covered : ∀ s, server.acknowledged s = true → s ∈ history.returned
  retired : ∀ t ∈ history.terminations, Retired source messages transformer source.maxDecodeAttempts server t
  terminated : ∀ s, server.terminated s = true → ∃ t ∈ history.terminations, t.message.sequence = s
  spent : ∀ s, server.terminated s = true → Decodes source messages transformer s →
    s ∈ history.returned
  live : ∀ s, Decodes source messages transformer s → s ∈ history.returned ∨
    (∃ m ∈ buffer, m.sequence = s) ∨ server.count s = 0 ∨ Redelivers source.cfg.mode server s

/-- What the source waits for fits what it holds. -/
structure Phased (s : State) (history : History) : Prop where
  started : s.phase ≠ .idle → s.started = true
  /-- Acks are pending only until the next window is collected. -/
  pending : s.pendingAcks ≠ [] → s.buffer = [] ∧ (s.phase = .idle ∨ s.phase = .acking)
  acking : s.phase = .acking → s.pendingAcks ≠ []
  retiring : ∀ t, s.phase = .retiring t → t ∈ history.terminations

theorem Phased.nothingPending {s : State} {history : History} (h : Phased s history)
    (hidle : s.phase ≠ .idle) (hacking : s.phase ≠ .acking) : s.pendingAcks = [] := by
  by_contra hne
  rcases (h.pending hne).2 with hphase | hphase
  · exact hidle hphase
  · exact hacking hphase

structure Sound (w : World) : Prop where
  ledger : Ledger source messages transformer w.source.buffer w.source.pendingAcks w.server w.history
  phased : Phased w.source w.history

end

/-! ## The server's moves -/

section
variable {messages : Messages} {js : JetstreamSourceMode} {c : Consumer} {s t : Nat}

@[simp] theorem Consumer.deliver_count :
    (c.deliver s).count t = if t = s then c.count t + 1 else c.count t := rfl

@[simp] theorem Consumer.terminate_terminated :
    (c.terminate s).terminated t = true ↔
      c.terminated t = true ∨ c.acknowledged t = false ∧ t = s := by
  simp [Consumer.terminate]

theorem Consumer.acknowledge_acknowledged
    (h : (c.acknowledge js messages s).acknowledged t = true) :
    c.acknowledged t = true ∨ t = s ∨
      js.ackPolicy = .all ∧ c.terminated t = false ∧ messages.selected t = true ∧ t ≤ s := by
  simp only [acknowledge, Bool.or_eq_true, Bool.and_eq_true, Bool.not_eq_true'] at h
  rcases h with h | ⟨hlive, h⟩
  · exact .inl h
  · cases hpolicy : js.ackPolicy with
    | explicit =>
      rw [hpolicy] at h
      exact .inr (.inl (eq_of_beq h))
    | all =>
      rw [hpolicy] at h
      simp only [Bool.and_eq_true, decide_eq_true_eq] at h
      exact .inr (.inr ⟨rfl, hlive, h⟩)
    | none =>
      rw [hpolicy] at h
      cases h

theorem Consumer.count_le_deliver : c.count t ≤ (c.deliver s).count t := by
  rw [Consumer.deliver_count]
  split_ifs <;> omega

/-- What another message is delivered is no matter. -/
theorem redelivers_deliver_of_ne (h : t ≠ s) : Redelivers js (c.deliver s) t ↔ Redelivers js c t := by
  simp [Redelivers, h]

theorem u32Saturated_le (n : Nat) : u32Saturated n ≤ n := by
  unfold u32Saturated u32Max
  split_ifs <;> omega

/-- The ceiling that a `u32` cannot express is no ceiling for one. -/
theorem min_u32Saturated {attempts : Nat} {n : Int} (hattempts : attempts ≤ u32Max) (hn : 0 < n) :
    min attempts (u32Saturated n) = min attempts n.toNat := by
  unfold u32Saturated
  split_ifs <;> omega

end

/-! ## What each move keeps -/

section
variable {source : NatsSource} {messages : Messages} {transformer : MessageTransformer}
  {buffer window : List Received} {acks : List Nat} {server : Consumer} {history : History} {s : Nat}

theorem Held.deliver {m : Received} (h : Held messages server m) :
    Held messages (server.deliver s) m where
  selected := h.selected
  delivered := h.delivered.trans_le Consumer.count_le_deliver
  payload := h.payload
  counted := h.counted.trans Consumer.count_le_deliver
  ack := h.ack

theorem held_receivedOf (h : Offers source.cfg.mode messages server s) :
    Held messages (server.deliver s) (receivedOf source messages (server.deliver s) s) where
  selected := h.1
  delivered := by simp [receivedOf]
  payload := rfl
  counted := u32Saturated_le _
  ack a ha := by
    simp only [receivedOf] at ha
    split_ifs at ha
    · cases ha
    · exact (Option.mem_some.mp ha).symm

theorem Retired.deliver {t : Termination}
    (h : Retired source messages transformer source.maxDecodeAttempts server t) :
    Retired source messages transformer source.maxDecodeAttempts (server.deliver s) t :=
  { h with reached := h.reached.trans Consumer.count_le_deliver }

namespace Ledger

/-- Acks that will not be sent owe nothing. -/
theorem forget (h : Ledger source messages transformer buffer acks server history) {rest : List Nat}
    (hsub : rest ⊆ acks) : Ledger source messages transformer buffer rest server history :=
  { h with acks := fun s hs => h.acks s (hsub hs) }

/-- A delivery, wherever it goes. -/
theorem deliver (h : Ledger source messages transformer buffer acks server history)
    (hoffers : Offers source.cfg.mode messages server s) {buffer' : List Received}
    {missed' : List Nat} (hbuffer : ∀ m ∈ buffer, m ∈ buffer')
    (hheld : ∀ m ∈ buffer', Held messages (server.deliver s) m)
    (hmissed : history.missed ⊆ missed')
    (hread : s ∈ missed' ∨ ∃ m ∈ buffer', m.sequence = s)
    (hlive : Decodes source messages transformer s → s ∈ history.returned ∨
      (∃ m ∈ buffer', m.sequence = s) ∨ Redelivers source.cfg.mode (server.deliver s) s) :
    Ledger source messages transformer buffer' acks (server.deliver s)
      { history with missed := missed' } where
  held := hheld
  acks a ha := ⟨(h.acks a ha).1, (h.acks a ha).2.trans_le Consumer.count_le_deliver⟩
  read t ht := by
    by_cases heq : t = s
    · subst heq
      exact .inr (.inr hread)
    · rw [Consumer.deliver_count, if_neg heq] at ht
      rcases h.read t ht with hret | hterm | hmem | ⟨m, hm, hseq⟩
      · exact .inl hret
      · exact .inr (.inl hterm)
      · exact .inr (.inr (.inl (hmissed hmem)))
      · exact .inr (.inr (.inr ⟨m, hbuffer m hm, hseq⟩))
  ordered t ht earlier hlt hsel := by
    refine Nat.lt_of_lt_of_le ?_ Consumer.count_le_deliver
    by_cases heq : t = s
    · subst heq
      rcases hoffers.2.2 earlier hlt hsel with hcount | hcount
      · exact h.ordered t hcount earlier hlt hsel
      · exact hcount
    · rw [Consumer.deliver_count, if_neg heq] at ht
      exact h.ordered t ht earlier hlt hsel
  selected t ht := by
    by_cases heq : t = s
    · subst heq
      exact hoffers.1
    · rw [Consumer.deliver_count, if_neg heq] at ht
      exact h.selected t ht
  covered := h.covered
  retired t ht := (h.retired t ht).deliver
  terminated := h.terminated
  spent := h.spent
  live t hdecodes := by
    by_cases heq : t = s
    · subst heq
      rcases hlive hdecodes with hret | hmem | hre
      · exact .inl hret
      · exact .inr (.inl hmem)
      · exact .inr (.inr (.inr hre))
    · rw [redelivers_deliver_of_ne heq, Consumer.deliver_count, if_neg heq]
      rcases h.live t hdecodes with hret | ⟨m, hm, hseq⟩ | hlater
      · exact .inl hret
      · exact .inr (.inl ⟨m, hbuffer m hm, hseq⟩)
      · exact .inr (.inr hlater)

theorem arrive (h : Ledger source messages transformer buffer acks server history)
    (hoffers : Offers source.cfg.mode messages server s) :
    Ledger source messages transformer
      (buffer ++ [receivedOf source messages (server.deliver s) s]) acks (server.deliver s) history := by
  have hmem : ∃ m ∈ buffer ++ [receivedOf source messages (server.deliver s) s], m.sequence = s :=
    ⟨_, List.mem_append_right _ (List.mem_singleton_self _), rfl⟩
  refine h.deliver hoffers (fun m hm => by simp [hm]) (fun m hm => ?_) (List.Subset.refl _)
    (.inr hmem) fun _ => .inr (.inl hmem)
  rcases List.mem_append.mp hm with hm | hm
  · exact (h.held m hm).deliver
  · rw [List.mem_singleton.mp hm]
    exact held_receivedOf hoffers

theorem miss (h : Ledger source messages transformer buffer acks server history)
    (hoffers : Offers source.cfg.mode messages server s)
    (hsafe : Decodes source messages transformer s → s ∈ history.returned ∨
      (∃ m ∈ buffer, m.sequence = s) ∨ Redelivers source.cfg.mode (server.deliver s) s) :
    Ledger source messages transformer buffer acks (server.deliver s)
      { history with missed := history.missed ++ [s] } :=
  h.deliver hoffers (fun _ hm => hm) (fun m hm => (h.held m hm).deliver)
    (List.subset_append_left ..) (.inl (by simp)) hsafe

/-- The window is handed over. -/
theorem handOver (h : Ledger source messages transformer buffer acks server history) :
    Ledger source messages transformer [] (acks ++ buffer.filterMap (·.ack)) server
      { history with returned := history.returned ++ buffer.map (·.sequence) } where
  held := nofun
  acks a ha := by
    rcases List.mem_append.mp ha with ha | ha
    · exact ⟨List.mem_append_left _ (h.acks a ha).1, (h.acks a ha).2⟩
    · obtain ⟨m, hm, hack⟩ := List.mem_filterMap.mp ha
      have hseq := (h.held m hm).ack a hack
      rw [hseq]
      exact ⟨List.mem_append_right _ (List.mem_map_of_mem hm), (h.held m hm).delivered⟩
  read t ht := by
    rcases h.read t ht with hret | hterm | hmem | ⟨m, hm, rfl⟩
    · exact .inl (List.mem_append_left _ hret)
    · exact .inr (.inl hterm)
    · exact .inr (.inr (.inl hmem))
    · exact .inl (List.mem_append_right _ (List.mem_map_of_mem hm))
  ordered := h.ordered
  selected := h.selected
  covered t ht := List.mem_append_left _ (h.covered t ht)
  retired := h.retired
  terminated := h.terminated
  spent t ht hdecodes := List.mem_append_left _ (h.spent t ht hdecodes)
  live t hdecodes := by
    rcases h.live t hdecodes with hret | ⟨m, hm, rfl⟩ | hlater
    · exact .inl (List.mem_append_left _ hret)
    · exact .inl (List.mem_append_right _ (List.mem_map_of_mem hm))
    · exact .inr (.inr hlater)

/-- The window fails, and is left to the server. -/
theorem fail (h : Ledger source messages transformer buffer acks server history)
    (hsafe : ∀ m ∈ buffer, Decodes source messages transformer m.sequence →
      m.sequence ∈ history.returned ∨ Redelivers source.cfg.mode server m.sequence) :
    Ledger source messages transformer [] acks server
      { history with missed := history.missed ++ buffer.map (·.sequence) } :=
  { h with
    held := nofun
    read := fun t ht => by
      rcases h.read t ht with hret | hterm | hmem | ⟨m, hm, rfl⟩
      · exact .inl hret
      · exact .inr (.inl hterm)
      · exact .inr (.inr (.inl (List.mem_append_left _ hmem)))
      · exact .inr (.inr (.inl (List.mem_append_right _ (List.mem_map_of_mem hm))))
    live := fun t hdecodes => by
      rcases h.live t hdecodes with hret | ⟨m, hm, rfl⟩ | hlater
      · exact .inl hret
      · rcases hsafe m hm hdecodes with hret | hre
        · exact .inl hret
        · exact .inr (.inr (.inr hre))
      · exact .inr (.inr hlater) }

/-- A message is about to be terminated. -/
theorem record (h : Ledger source messages transformer buffer acks server history) {t : Termination}
    (ht : Retired source messages transformer source.maxDecodeAttempts server t) :
    Ledger source messages transformer buffer acks server
      { history with terminations := history.terminations ++ [t] } :=
  { h with
    retired := fun other hother => by
      rcases List.mem_append.mp hother with hother | hother
      · exact h.retired other hother
      · rw [List.mem_singleton.mp hother]
        exact ht
    terminated := fun s hs => by
      obtain ⟨other, hother, hseq⟩ := h.terminated s hs
      exact ⟨other, List.mem_append_left _ hother, hseq⟩ }

/-- An ack reaches the server. Under `all` it covers what was delivered before. -/
theorem acknowledge (h : Ledger source messages transformer [] acks server history) (hs : s ∈ acks)
    (hsafe : source.cfg.mode.ackPolicy = .all → ∀ t ∈ history.missed, t ≤ s →
      t ∈ history.returned ∨ server.terminated t = true) :
    Ledger source messages transformer [] acks (server.acknowledge source.cfg.mode messages s)
      history := by
  obtain ⟨hreturned, hcount⟩ := h.acks s hs
  refine { h with covered := fun t ht => ?_, held := nofun, retired := fun t ht => ?_, live := ?_ }
  · rcases Consumer.acknowledge_acknowledged ht with hacked | rfl | ⟨hpolicy, hlive, hsel, hle⟩
    · exact h.covered t hacked
    · exact hreturned
    · have hdelivered : 0 < server.count t := by
        rcases Nat.lt_or_eq_of_le hle with hlt | rfl
        · exact h.ordered s hcount t hlt hsel
        · exact hcount
      rcases h.read t hdelivered with hret | hterm | hmem | ⟨m, hm, -⟩
      · exact hret
      · rw [hlive] at hterm
        cases hterm
      · rcases hsafe hpolicy t hmem hle with hret | hterm
        · exact hret
        · rw [hlive] at hterm
          cases hterm
      · cases hm
  · exact { h.retired t ht with reached := (h.retired t ht).reached }
  · exact h.live

/-- A termination reaches the server. -/
theorem terminate (h : Ledger source messages transformer buffer acks server history)
    {t : Termination} (ht : t ∈ history.terminations)
    (hsafe : Decodes source messages transformer t.message.sequence →
      t.message.sequence ∈ history.returned) :
    Ledger source messages transformer buffer acks (server.terminate t.message.sequence) history :=
  { h with
    held := fun m hm => { h.held m hm with }
    read := fun s hs => by
      rcases h.read s hs with hret | hterm | hrest
      · exact .inl hret
      · exact .inr (.inl (Consumer.terminate_terminated.mpr (.inl hterm)))
      · exact .inr (.inr hrest)
    retired := fun other hother => { h.retired other hother with }
    terminated := fun s hs => by
      rcases Consumer.terminate_terminated.mp hs with hterm | ⟨-, rfl⟩
      · exact h.terminated s hterm
      · exact ⟨t, ht, rfl⟩
    spent := fun s hs hdecodes => by
      rcases Consumer.terminate_terminated.mp hs with hterm | ⟨-, rfl⟩
      · exact h.spent s hterm hdecodes
      · exact hsafe hdecodes }

end Ledger

theorem Ledger.losesNothing {w : World}
    (h : Ledger source messages transformer w.source.buffer w.source.pendingAcks w.server w.history) :
    LosesNothing source messages transformer source.maxDecodeAttempts w where
  covered := h.covered
  retired := h.retired
  terminated := h.terminated
  kept s _ hdecodes := by
    by_cases hret : s ∈ w.history.returned
    · exact .inl hret
    · have hacked : w.server.acknowledged s = false :=
        Bool.eq_false_iff.mpr fun hacked => hret (h.covered s hacked)
      have hterm : w.server.terminated s = false :=
        Bool.eq_false_iff.mpr fun hterm => hret (h.spent s hterm hdecodes)
      rcases h.live s hdecodes with hret' | hmem | hlater
      · exact absurd hret' hret
      · exact .inr (.inl hmem)
      · exact .inr (.inr ⟨hacked, hterm, hlater⟩)

/-! ## A failed window -/

theorem blamed_eq_some {failure : DecodeFailure} {m : Received} (h : blamed window failure = some m) :
    ∃ index, window[index]? = some m ∧
      (failure.index = some index ∨ failure.index = none ∧ window.length = 1) := by
  simp only [blamed, Option.bind_eq_some_iff, Option.or_eq_some_iff] at h
  obtain ⟨index, hindex | ⟨hnone, hone⟩, hget⟩ := h
  · exact ⟨index, hget, .inl hindex⟩
  · split_ifs at hone with hlength
    exact ⟨index, hget, .inr ⟨hnone, hlength⟩⟩

/-- What a failed window terminates has used up its attempts. -/
theorem retired_of_exhausted (hheld : ∀ m ∈ window, Held messages server m)
    {failure : DecodeFailure} {m : Received}
    (hfailed : decodeWindow source transformer true window = .error failure)
    (h : exhausted source window failure = some m) :
    Retired source messages transformer source.maxDecodeAttempts server { message := m, window, failure } := by
  unfold exhausted at h
  split_ifs at h with hzero
  simp only [Option.filter_eq_some_iff, Bool.and_eq_true, decide_eq_true_eq] at h
  obtain ⟨hblamed, hreached, -⟩ := h
  obtain ⟨index, hget, hown⟩ := blamed_eq_some hblamed
  have hm := hheld m (List.mem_of_getElem? hget)
  exact
    { failed := hfailed
      own := ⟨index, hget, hown⟩
      payload := hm.payload
      bounded := Nat.pos_of_ne_zero hzero
      reached := hreached.trans hm.counted }

end

/-! ## What a call keeps -/

section
variable {source : NatsSource} {messages : Messages} {transformer : MessageTransformer} {w : World}
  {outputs : List Output}

/-- A call that ends leaves the books alone. -/
theorem finish_sound (hledger : Ledger source messages transformer w.source.buffer
      w.source.pendingAcks w.server w.history)
    (hpending : w.source.pendingAcks ≠ [] → w.source.buffer = [])
    (result : SaciResult (Option RecordBatch)) :
    Sound source messages transformer (finish w result).1 where
  ledger := hledger
  phased :=
    { started := fun h => absurd rfl h
      pending := fun h => ⟨hpending h, .inl rfl⟩
      acking := nofun
      retiring := nofun }

theorem handOver_sound (hledger : Ledger source messages transformer w.source.buffer
      w.source.pendingAcks w.server w.history)
    (hnone : w.source.pendingAcks = []) (hstarted : w.source.started = true)
    (hsafe : WindowSafe source messages transformer w w.source.buffer) :
    Sound source messages transformer (handOver source transformer w).1 := by
  unfold handOver
  rw [hstarted]
  cases hdecode : decodeWindow source transformer true w.source.buffer with
  | ok batch =>
    simp only [hdecode]
    exact finish_sound hledger.handOver (fun _ => rfl) _
  | error failure =>
    have hfail := hledger.fail (hsafe failure hdecode)
    cases hexhausted : exhausted source w.source.buffer failure with
    | none =>
      simp only [hdecode, hexhausted]
      exact finish_sound hfail (fun _ => rfl) _
    | some m =>
      simp only [hdecode, hexhausted]
      refine ⟨hfail.record (retired_of_exhausted hledger.held hdecode hexhausted), ?_, ?_, nofun, ?_⟩
      · exact fun _ => hstarted
      · exact fun h => absurd hnone h
      · intro t ht
        cases ht
        exact List.mem_append_right _ (List.mem_singleton_self _)

/-- A call that goes on waiting leaves the books alone. -/
theorem waits_sound {phase : Phase} (hledger : Ledger source messages transformer w.source.buffer
      w.source.pendingAcks w.server w.history)
    (hnone : w.source.pendingAcks = []) (hstarted : w.source.started = true)
    (hacking : phase ≠ .acking) (hretiring : ∀ t, phase ≠ .retiring t) :
    Sound source messages transformer { w with source := { w.source with phase } } where
  ledger := hledger
  phased :=
    { started := fun _ => hstarted
      pending := fun h => absurd hnone h
      acking := fun h => absurd h hacking
      retiring := fun t ht => absurd ht (hretiring t) }

theorem pull_sound (hledger : Ledger source messages transformer w.source.buffer
      w.source.pendingAcks w.server w.history)
    (hnone : w.source.pendingAcks = []) (hstarted : w.source.started = true) :
    Sound source messages transformer (pull source w).1 :=
  waits_sound hledger hnone hstarted nofun nofun

theorem collect_sound (hledger : Ledger source messages transformer w.source.buffer
      w.source.pendingAcks w.server w.history)
    (hnone : w.source.pendingAcks = []) (hstarted : w.source.started = true)
    (hsafe : source.cfg.stopAtEnd = true → WindowSafe source messages transformer w w.source.buffer) :
    Sound source messages transformer (collect source transformer w).1 := by
  unfold collect
  split_ifs with hbounded
  · exact handOver_sound hledger hnone hstarted (hsafe (Bool.and_eq_true_iff.mp hbounded).1)
  · exact pull_sound hledger hnone hstarted

theorem flushPendingAcks_sound (hledger : Ledger source messages transformer w.source.buffer
      w.source.pendingAcks w.server w.history)
    (hempty : w.source.pendingAcks ≠ [] → w.source.buffer = []) (hstarted : w.source.started = true)
    (hsafe : source.cfg.stopAtEnd = true → WindowSafe source messages transformer w w.source.buffer) :
    Sound source messages transformer (flushPendingAcks source transformer w).1 := by
  unfold flushPendingAcks
  split_ifs with hover
  · exact collect_sound (hledger.forget (List.nil_subset _)) rfl hstarted hsafe
  · exact
      { ledger := hledger
        phased :=
          { started := fun _ => hstarted
            pending := fun h => ⟨hempty h, .inr rfl⟩
            acking := fun _ (hnil : w.source.pendingAcks = []) => hover (by simp [hnil])
            retiring := nofun } }

theorem beginCall_sound (h : Sound source messages transformer w) (hphase : w.source.phase = .idle)
    {start : Start} (hsafe : Safe source messages transformer w (.call start)) :
    Sound source messages transformer (beginCall source transformer w start).1 := by
  have hempty := fun hne => (h.phased.pending hne).1
  have hwindow := hsafe.window
  unfold windowOf at hwindow
  rw [hphase] at hwindow
  unfold beginCall
  split_ifs with hstarted
  · refine flushPendingAcks_sound h.ledger hempty hstarted fun hbounded => ?_
    simpa [hstarted, hbounded] using hwindow
  · cases start with
    | ready =>
      refine flushPendingAcks_sound h.ledger hempty rfl fun hbounded => ?_
      have hbuffer : WindowSafe source messages transformer w w.source.buffer := by
        simpa [hbounded] using hwindow
      exact hbuffer
    | failed e => exact finish_sound h.ledger hempty _
    | dropped => exact h

/-- A window that is empty gives up nothing. -/
theorem windowSafe_nil : WindowSafe source messages transformer w [] := nofun

/-- The ack under way lands or is lost. -/
theorem land_ledger (h : Sound source messages transformer w) (landed : Bool)
    (hsafe : landed = true → source.cfg.mode.ackPolicy = .all →
      ∀ s, w.source.pendingAcks.head? = some s → ∀ t ∈ w.history.missed, t ≤ s →
        t ∈ w.history.returned ∨ w.server.terminated t = true) :
    Ledger source messages transformer w.source.buffer w.source.pendingAcks
      (w.land source.cfg.mode messages landed).server w.history := by
  cases landed with
  | false => exact h.ledger
  | true =>
    unfold World.land
    cases hacks : w.source.pendingAcks with
    | nil => simpa [hacks] using h.ledger
    | cons acker rest =>
      have hpending : w.source.pendingAcks ≠ [] := by simp [hacks]
      have hempty := (h.phased.pending hpending).1
      have hledger := h.ledger
      rw [hempty, hacks] at hledger
      rw [hempty]
      exact hledger.acknowledge List.mem_cons_self fun hall =>
        hsafe rfl hall acker (by simp [hacks])

@[simp] theorem World.land_source (landed : Bool) :
    (w.land source.cfg.mode messages landed).source = w.source := by
  unfold World.land
  split
  · rfl
  · split <;> rfl

@[simp] theorem World.land_history (landed : Bool) :
    (w.land source.cfg.mode messages landed).history = w.history := by
  unfold World.land
  split
  · rfl
  · split <;> rfl

theorem ackAnswered_sound (h : Sound source messages transformer w)
    (hphase : w.source.phase = .acking) {landed : Bool} {answer : Except String Unit}
    (hsafe : Safe source messages transformer w (.acked landed answer)) :
    Sound source messages transformer
      (ackAnswered source transformer (w.land source.cfg.mode messages landed) answer).1 := by
  have hledger := land_ledger h landed fun hlanded hall s hs => hsafe.acked hall s (by
    subst hlanded
    simp [ackOf, hphase, hs])
  have hempty := (h.phased.pending (h.phased.acking hphase)).1
  have hstarted := h.phased.started (by simp [hphase])
  unfold ackAnswered
  cases answer with
  | error e =>
    refine finish_sound ?_ (fun hne => absurd rfl hne) _
    simpa using hledger.forget (List.nil_subset _)
  | ok =>
    refine flushPendingAcks_sound ?_ (fun _ => ?_) ?_ fun _ => ?_
    · simpa using hledger.forget (List.tail_sublist _).subset
    · simpa using hempty
    · simpa using hstarted
    · simp only [World.land_source, hempty]
      exact windowSafe_nil

theorem pullEnded_sound (h : Sound source messages transformer w)
    (hphase : w.source.phase = .receiving)
    (hsafe : Safe source messages transformer w .pullEnded) :
    Sound source messages transformer (pullEnded source transformer w).1 := by
  have hnone := h.phased.nothingPending (by simp [hphase]) (by simp [hphase])
  have hstarted := h.phased.started (by simp [hphase])
  have hwindow : WindowSafe source messages transformer w w.source.buffer := by
    simpa [windowOf, hphase] using hsafe.window
  unfold pullEnded
  split_ifs
  · exact handOver_sound h.ledger hnone hstarted hwindow
  · exact pull_sound h.ledger hnone hstarted
  · exact waits_sound h.ledger hnone hstarted nofun nofun

theorem confirm_sound (h : Sound source messages transformer w) (hphase : w.source.phase = .asking)
    (answer : Except String Outstanding) (expired : Bool) :
    Sound source messages transformer (confirm source w answer expired).1 := by
  have hempty := fun hne => (h.phased.pending hne).1
  have hnone := h.phased.nothingPending (by simp [hphase]) (by simp [hphase])
  have hstarted := h.phased.started (by simp [hphase])
  unfold confirm
  cases answer with
  | error e => exact finish_sound h.ledger hempty _
  | ok o =>
    dsimp only
    split_ifs
    · refine finish_sound ?_ ?_ _
      exacts [h.ledger, hempty]
    · refine finish_sound ?_ ?_ _
      exacts [h.ledger, hempty]
    · exact pull_sound h.ledger hnone hstarted

/-- The termination under way lands or is lost. -/
theorem landTermination_ledger (h : Sound source messages transformer w) {t : Termination}
    (hphase : w.source.phase = .retiring t) (landed : Bool)
    (hsafe : landed = true → Decodes source messages transformer t.message.sequence →
      t.message.sequence ∈ w.history.returned) :
    Ledger source messages transformer w.source.buffer w.source.pendingAcks
      (w.landTermination t landed).server w.history := by
  cases landed with
  | false => exact h.ledger
  | true => exact h.ledger.terminate (h.phased.retiring t hphase) (hsafe rfl)

@[simp] theorem World.landTermination_source {t : Termination} (landed : Bool) :
    (w.landTermination t landed).source = w.source := by
  cases landed <;> rfl

@[simp] theorem World.landTermination_history {t : Termination} (landed : Bool) :
    (w.landTermination t landed).history = w.history := by
  cases landed <;> rfl

theorem dropCall_sound (h : Sound source messages transformer w) {landed : Bool}
    (hsafe : Safe source messages transformer w (.dropped landed)) :
    Sound source messages transformer (dropCall source messages w landed) := by
  have hempty := fun hne => (h.phased.pending hne).1
  have hidle : Phased { w.source with phase := .idle } w.history :=
    { started := fun h => absurd rfl h
      pending := fun h => ⟨hempty h, .inl rfl⟩
      acking := nofun
      retiring := nofun }
  unfold dropCall
  split
  case h_1 hphase =>
    have hledger := land_ledger h landed fun hlanded hall s hs => hsafe.acked hall s (by
      subst hlanded
      simp [ackOf, hphase, hs])
    constructor
    · simpa using hledger.forget (List.nil_subset _)
    · simpa using { hidle with pending := fun hne => absurd rfl hne, acking := nofun }
  case h_2 t hphase =>
    have hledger := landTermination_ledger h hphase landed fun hlanded => hsafe.terminated t (by
      subst hlanded
      simp [terminationOf, hphase])
    constructor
    · simpa using hledger
    · simpa using hidle
  case h_3 => exact ⟨h.ledger, hidle⟩

/-! ## A step -/

theorem miss_ledger (h : Sound source messages transformer w) {input : Input} {sequence : Nat}
    (hunread : unreadOf w input = some sequence)
    (hoffers : Offers source.cfg.mode messages w.server sequence)
    (hsafe : Safe source messages transformer w input) :
    Ledger source messages transformer w.source.buffer w.source.pendingAcks
      (w.miss sequence).server (w.miss sequence).history :=
  h.ledger.miss hoffers (hsafe.unread sequence hunread)

theorem step_sound (h : Sound source messages transformer w) {input : Input} {w' : World}
    (hsafe : Safe source messages transformer w input)
    (hstep : step source messages transformer w input = .ok (w', outputs)) :
    Sound source messages transformer w' := by
  have hempty := fun hne => (h.phased.pending hne).1
  unfold step at hstep
  dsimp only at hstep
  split at hstep
  case h_1 sequence =>
    split_ifs at hstep with hoffers
    cases hstep
    exact ⟨miss_ledger h (by unfold unreadOf; split <;> simp_all) hoffers hsafe, { h.phased with }⟩
  case h_2 rows hphase =>
    cases hstep
    exact ⟨h.ledger, { h.phased with }⟩
  case h_3 start hphase =>
    obtain rfl := congrArg Prod.fst (Except.ok.inj hstep)
    exact beginCall_sound h hphase hsafe
  case h_4 => cases hstep
  case h_5 landed _ =>
    cases hstep
    exact dropCall_sound h hsafe
  case h_6 landed answer hphase =>
    obtain rfl := congrArg Prod.fst (Except.ok.inj hstep)
    exact ackAnswered_sound h hphase hsafe
  case h_7 e hphase =>
    obtain rfl := congrArg Prod.fst (Except.ok.inj hstep)
    exact finish_sound h.ledger hempty _
  case h_8 hphase =>
    cases hstep
    have hnone := h.phased.nothingPending (by simp [hphase]) (by simp [hphase])
    exact waits_sound h.ledger hnone (h.phased.started (by simp [hphase])) nofun nofun
  case h_9 sequence pending hphase =>
    split_ifs at hstep with hoffers
    cases hstep
    have hnone := h.phased.nothingPending (by simp [hphase]) (by simp [hphase])
    exact ⟨h.ledger.arrive hoffers, { h.phased with pending := fun hne => absurd hnone hne }⟩
  case h_10 sequence e hphase =>
    split_ifs at hstep with hoffers
    obtain rfl := congrArg Prod.fst (Except.ok.inj hstep)
    refine finish_sound ?_ ?_ _
    · exact miss_ledger h (by simp [unreadOf, hphase]) hoffers hsafe
    · exact hempty
  case h_11 e hphase =>
    obtain rfl := congrArg Prod.fst (Except.ok.inj hstep)
    exact finish_sound h.ledger hempty _
  case h_12 hphase =>
    obtain rfl := congrArg Prod.fst (Except.ok.inj hstep)
    exact pullEnded_sound h hphase hsafe
  case h_13 answer expired hphase =>
    obtain rfl := congrArg Prod.fst (Except.ok.inj hstep)
    exact confirm_sound h hphase answer expired
  case h_14 t landed answer hphase =>
    obtain rfl := congrArg Prod.fst (Except.ok.inj hstep)
    have hledger := landTermination_ledger h hphase landed fun hlanded => hsafe.terminated t (by
      subst hlanded
      simp [terminationOf, hphase])
    refine finish_sound ?_ ?_ _
    · simpa using hledger
    · simpa using hempty
  case h_15 => cases hstep

theorem start_sound : Sound source messages transformer (start source) where
  ledger :=
    { held := nofun
      acks := nofun
      read := fun _ hs => absurd hs (Nat.lt_irrefl 0)
      ordered := fun _ hs => absurd hs (Nat.lt_irrefl 0)
      selected := fun _ hs => absurd hs (Nat.lt_irrefl 0)
      covered := nofun
      retired := nofun
      terminated := nofun
      spent := nofun
      live := fun _ _ => .inr (.inr (.inl rfl)) }
  phased :=
    { started := fun h => absurd rfl h
      pending := fun h => absurd rfl h
      acking := nofun
      retiring := nofun }

theorem new_eq_ok {cfg : NatsSourceConfig} (h : NatsSource.new cfg = .ok source) :
    source.cfg = cfg ∧ source.maxDecodeAttempts = effectiveDecodeAttempts cfg.mode := by
  obtain ⟨_, -, hsource⟩ := bind_eq_ok_iff.mp h
  cases hsource
  refine ⟨rfl, ?_⟩
  have hlt : cfg.mode.maxDecodeAttempts.toNat ≤ u32Max :=
    Nat.le_of_lt_succ cfg.mode.maxDecodeAttempts.toNat_lt
  dsimp only [effectiveDecodeAttempts, gt_iff_lt]
  split_ifs with hlimited
  · exact min_u32Saturated hlt hlimited
  · rfl

/-- A run whose steps are safe loses nothing, wherever it stops. -/
theorem losesNothing_of_safe {cfg : NatsSourceConfig} (hnew : NatsSource.new cfg = .ok source)
    {inputs : List Input} {outputs : List (List Output)}
    (hsafe : EachStep (step source messages transformer) (Safe source messages transformer)
      (start source) inputs)
    (hrun : run (step source messages transformer) (start source) inputs = .ok (w, outputs)) :
    LosesNothing source messages transformer (effectiveDecodeAttempts cfg.mode) w := by
  have hsound := run_invariant_of_eachStep (I := Sound source messages transformer)
    (fun _ _ _ _ h hsafe hstep => step_sound h hsafe hstep) hrun hsafe start_sound
  rw [← (new_eq_ok hnew).2]
  exact hsound.ledger.losesNothing

end

namespace Sample

/-- A format whose payloads are single bytes, and which refuses an empty payload. -/
def bytewise : MessageTransformer where
  Decoder := List (List Cell)
  openMessageDecoder := .ok []
  push rows payload :=
    match payload with
    | [] => .error (.generic "empty payload")
    | byte :: _ => .ok (rows ++ [[.int byte.toNat]])
  flush rows := .ok (if rows.isEmpty then none else some ⟨⟨[⟨"byte", .int64, false⟩]⟩, rows⟩)

/-- An empty payload before one that decodes. -/
def poisoned : Messages where
  payload sequence := if sequence = 2 then [7] else []
  selected sequence := sequence == 1 || sequence == 2

/-- A bounded source with explicit acks. -/
def config (maxDeliver : Int) : NatsSourceConfig where
  batchSize := 2
  pollTimeoutMs := 1000
  stopAtEnd := true
  mode :=
    { stream := "ORDERS"
      durableName := some "saci"
      consumerName := none
      ackPolicy := .explicit
      doubleAck := false
      maxDeliver
      maxDecodeAttempts := 5
      fetchExpiresMs := 1000
      fetchMaxBytes := 0
      heartbeatMs := 0 }

/-- The source of a configuration that validates. -/
def sourceOf (maxDeliver : Int) : NatsSource where
  cfg := config maxDeliver
  ackMode := .single
  maxDecodeAttempts := if maxDeliver > 0 then min 5 (u32Saturated maxDeliver) else 5

/-- One window holds both messages, and its first message is terminated. -/
def window : List Input :=
  [.call .ready, .pulled (.ok ()), .received 1 1, .received 2 0, .pullEnded, .terminated true (.ok ())]

/-- The server delivers once: the second message is in a window that fails, and is gone. -/
theorem neighbour_lost :
    NatsSource.new (config 1) = .ok (sourceOf 1) ∧
      ∃ w outputs,
        run (step (sourceOf 1) poisoned bytewise) (start (sourceOf 1)) window = .ok (w, outputs) ∧
          ¬LosesNothing (sourceOf 1) poisoned bytewise (effectiveDecodeAttempts (config 1).mode) w := by
  refine ⟨by rfl, _, _, rfl, fun h => ?_⟩
  rcases h.kept 2 rfl ⟨_, rfl⟩ with hret | ⟨m, hm, -⟩ | ⟨-, -, hlater⟩
  · cases hret
  · cases hm
  · exact absurd hlater (by decide)

/-- The window fails, its second message comes back on its own, and is acknowledged. -/
def redelivered : List Input :=
  [.call .ready, .pulled (.ok ()), .received 1 1, .received 2 0, .pullEnded,
    .call .ready, .pulled (.ok ()), .received 2 0, .pullEnded, .call .ready, .acked true (.ok ())]

/-- A server that delivers for ever takes nothing away, as long as nothing that decodes is terminated. -/
theorem safe_of_unterminated {w : World} {input : Input} (h : terminationOf w input = none) :
    Safe (sourceOf 0) poisoned bytewise w input where
  acked := nofun
  window _ _ _ _ _ := .inr ⟨nofun, nofun⟩
  unread _ _ _ := .inr (.inr ⟨nofun, nofun⟩)
  terminated t ht := by
    rw [h] at ht
    cases ht

theorem redelivered_safe :
    EachStep (step (sourceOf 0) poisoned bytewise) (Safe (sourceOf 0) poisoned bytewise)
      (start (sourceOf 0)) redelivered := by
  unfold redelivered
  iterate 11 refine EachStep.cons (safe_of_unterminated rfl) rfl ?_
  trivial

theorem redelivered_losesNothing :
    ∃ w outputs,
      run (step (sourceOf 0) poisoned bytewise) (start (sourceOf 0)) redelivered = .ok (w, outputs) ∧
        LosesNothing (sourceOf 0) poisoned bytewise (effectiveDecodeAttempts (config 0).mode) w :=
  ⟨_, _, rfl, losesNothing_of_safe rfl redelivered_safe rfl⟩

end Sample
end Saci.Nats
