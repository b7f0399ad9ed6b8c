import Mathlib
import Saci.Consensus.StateMachineStore

/-!
# The Raft log store

`ArrowRedbLogStore` keeps the vote, the purge marker and the log entries in two tables of a redb
file of its own (`storage/log_store.rs`), each method in one transaction. Beside it stands the log
it is for, a list of entries without gaps (`RaftLog`), and a store is followed through any calls
the Raft library may make, with any of them failing (`Kept`): what is read back is the log
(`Kept.reads`). The startup check of `storage/mod.rs` accepts a log store and a state machine file
exactly if no entry that is still to be applied is lost (`Kept.consistent_iff`).
-/

namespace Saci

variable {LogId Membership Vote : Type}

/-- What the store uses of the Raft library's types: the index of a log id, and `enc` and `dec`. -/
structure RaftLogCodec (LogId Membership Vote : Type) where
  index : LogId → UInt64
  encEntry : Entry LogId Membership → IoResult Bytes
  decEntry : Bytes → IoResult (Entry LogId Membership)
  encLogId : LogId → IoResult Bytes
  decLogId : Bytes → IoResult LogId
  encVote : Vote → IoResult Bytes
  decVote : Bytes → IoResult Vote

/-- What was encoded decodes to what it was. -/
structure RaftLogCodec.Lawful (codec : RaftLogCodec LogId Membership Vote) : Prop where
  entry : ∀ {e bytes}, codec.encEntry e = .ok bytes → codec.decEntry bytes = .ok e
  logId : ∀ {id bytes}, codec.encLogId id = .ok bytes → codec.decLogId bytes = .ok id
  vote : ∀ {v bytes}, codec.encVote v = .ok bytes → codec.decVote bytes = .ok v

def KEY_VOTE : String := "vote"
def KEY_PURGED_LOG_ID : String := "purged_log_id"

inductive Bound
  | included (index : UInt64)
  | excluded (index : UInt64)
  | unbounded

/-- A range of indices, as `owned_bounds` makes it. -/
structure Bounds where
  start : Bound
  stop : Bound

def Bounds.Contains (range : Bounds) (index : UInt64) : Bool :=
  (match range.start with
    | .included first => decide (first ≤ index)
    | .excluded before => decide (before < index)
    | .unbounded => true) &&
  match range.stop with
    | .included last => decide (index ≤ last)
    | .excluded after => decide (index < after)
    | .unbounded => true

structure LogState (LogId : Type) where
  lastPurgedLogId : Option LogId
  lastLogId : Option LogId
  deriving DecidableEq

structure ArrowRedbLogStore where
  metaTable : Table String Bytes
  entries : Table UInt64 Bytes

namespace ArrowRedbLogStore
variable (codec : RaftLogCodec LogId Membership Vote)

/-- A new file, with both tables made. -/
def empty : ArrowRedbLogStore := ⟨∅, ∅⟩

/-! ## Reads -/

def tryGetLogEntries (store : ArrowRedbLogStore) (range : Bounds) :
    IoResult (List (Entry LogId Membership)) :=
  (store.entries.rows.filter fun row => range.Contains row.1).mapM fun row => codec.decEntry row.2

def readVote (store : ArrowRedbLogStore) : IoResult (Option Vote) :=
  (store.metaTable.get KEY_VOTE).elim (.ok none) fun bytes => (codec.decVote bytes).map some

def getLogState (store : ArrowRedbLogStore) : IoResult (LogState LogId) := do
  let purged ← (store.metaTable.get KEY_PURGED_LOG_ID).elim (.ok none) fun bytes =>
    (codec.decLogId bytes).map some
  let last ← store.entries.rows.getLast?.elim (.ok none) fun row =>
    (codec.decEntry row.2).map fun entry => some entry.logId
  return { lastPurgedLogId := purged, lastLogId := last.or purged }

/-! ## Writes -/

/-- A transaction that fails before its commit leaves the file as it was. -/
def commit (store store' : ArrowRedbLogStore) : Option IoError → ArrowRedbLogStore × IoResult Unit
  | some e => (store, .error e)
  | none => (store', .ok ())

/-- Remove the keys that were collected first, one after the other. -/
def removeAll (table : Table UInt64 Bytes) (keys : List UInt64) : Table UInt64 Bytes :=
  keys.foldl Table.remove table

def saveVote (store : ArrowRedbLogStore) (vote : Vote) (outside : Option IoError) :
    ArrowRedbLogStore × IoResult Unit :=
  match codec.encVote vote with
  | .error e => (store, .error e)
  | .ok bytes => store.commit { store with metaTable := store.metaTable.insert KEY_VOTE bytes } outside

/-- Every entry is encoded before the transaction begins. -/
def append (store : ArrowRedbLogStore) (entries : List (Entry LogId Membership))
    (outside : Option IoError) : ArrowRedbLogStore × IoResult Unit :=
  match entries.mapM fun e => (codec.encEntry e).map fun bytes => (codec.index e.logId, bytes) with
  | .error e => (store, .error e)
  | .ok encoded =>
    store.commit { store with entries := store.entries.insertAll Prod.fst Prod.snd encoded } outside

def truncateAfter (store : ArrowRedbLogStore) (last : Option LogId) (outside : Option IoError) :
    ArrowRedbLogStore × IoResult Unit :=
  let from_ := last.elim 0 fun l => codec.index l + 1
  let toRemove := (store.entries.rangeFrom from_).map Prod.fst
  store.commit { store with entries := removeAll store.entries toRemove } outside

def purge (store : ArrowRedbLogStore) (logId : LogId) (outside : Option IoError) :
    ArrowRedbLogStore × IoResult Unit :=
  match codec.encLogId logId with
  | .error e => (store, .error e)
  | .ok marker =>
    let toRemove := (store.entries.rows.filter fun row => row.1 ≤ codec.index logId).map Prod.fst
    store.commit
      { metaTable := store.metaTable.insert KEY_PURGED_LOG_ID marker
        entries := removeAll store.entries toRemove } outside

end ArrowRedbLogStore

/-- `validate_store_consistency`. -/
def validateStoreConsistency (index : LogId → UInt64) (lastPurged lastApplied : Option LogId) :
    SaciResult Unit :=
  match lastPurged, lastApplied with
  | some purged, none => .error <| .store <|
      s!"store consistency violation: log store has purged up to index {index purged} " ++
        "but state machine last_applied is None — state machine is behind. " ++
        "Do not mix log and state-machine redb files from different backups."
  | some purged, some applied =>
    if index applied < index purged then .error <| .store <|
      s!"store consistency violation: log store purged up to index {index purged} " ++
        s!"but state machine last_applied is index {index applied} — state machine is behind. " ++
        "Do not mix log and state-machine redb files from different backups."
    else .ok ()
  | none, _ => .ok ()

/-! ## The log the store is for -/

/-- The calls of the Raft library that write. -/
inductive LogCall (LogId Membership Vote : Type)
  | saveVote (vote : Vote)
  | append (entries : List (Entry LogId Membership))
  | truncateAfter (last : Option LogId)
  | purge (logId : LogId)

/-- A vote, the log id up to which the log was given up, and the entries after it. -/
structure RaftLog (LogId Membership Vote : Type) where
  vote : Option Vote
  purged : Option LogId
  entries : List (Entry LogId Membership)

namespace RaftLog
variable (index : LogId → UInt64)

/-- The index of the first entry. -/
def base (log : RaftLog LogId Membership Vote) : Nat := log.purged.elim 0 fun p => (index p).toNat + 1

def indices (entries : List (Entry LogId Membership)) : List Nat :=
  entries.map fun e => (index e.logId).toNat

/-- The entries follow the purged ones and one another. -/
def Gapless (log : RaftLog LogId Membership Vote) : Prop :=
  indices index log.entries = List.range' (log.base index) log.entries.length

def after (log : RaftLog LogId Membership Vote) : LogCall LogId Membership Vote →
    RaftLog LogId Membership Vote
  | .saveVote vote => { log with vote := some vote }
  | .append entries => { log with entries := log.entries ++ entries }
  | .truncateAfter last =>
    { log with entries := log.entries.filter fun e => last.any fun l => index e.logId ≤ index l }
  | .purge logId =>
    { log with
      purged := some logId
      entries := log.entries.filter fun e => index logId < index e.logId }

/-- What the Raft library keeps to: it appends what comes next, and does not take a purge back. No
log reaches the last index. -/
def Permits (log : RaftLog LogId Membership Vote) : LogCall LogId Membership Vote → Prop
  | .saveVote _ => True
  | .append entries =>
    indices index entries = List.range' (log.base index + log.entries.length) entries.length
  | .truncateAfter last => ∀ l, last = some l → (index l).toNat + 1 < 2 ^ 64
  | .purge logId => ∀ p, log.purged = some p → index p ≤ index logId

/-- The last entry, or else the purge marker. -/
def lastLogId (log : RaftLog LogId Membership Vote) : Option LogId :=
  (log.entries.getLast?.map Entry.logId).or log.purged

end RaftLog

namespace ArrowRedbLogStore
variable (codec : RaftLogCodec LogId Membership Vote)

def call (store : ArrowRedbLogStore) (outside : Option IoError) :
    LogCall LogId Membership Vote → ArrowRedbLogStore × IoResult Unit
  | .saveVote vote => store.saveVote codec vote outside
  | .append entries => store.append codec entries outside
  | .truncateAfter last => store.truncateAfter codec last outside
  | .purge logId => store.purge codec logId outside

/-- A store and the log it was told to keep, after any calls, of which any may have failed. -/
inductive Kept : ArrowRedbLogStore → RaftLog LogId Membership Vote → Prop
  | opened : Kept .empty ⟨none, none, []⟩
  | answered (h : Kept store log) {call : LogCall LogId Membership Vote}
      (hpermits : log.Permits codec.index call)
      (hcall : store.call codec outside call = (store', .ok ())) :
      Kept store' (log.after codec.index call)
  | refused (h : Kept store log) {call : LogCall LogId Membership Vote}
      (hcall : store.call codec outside call = (store', .error e)) : Kept store' log

/-- What the tables hold is the log. -/
structure Holds (store : ArrowRedbLogStore) (log : RaftLog LogId Membership Vote) :
    Prop where
  vote : (store.metaTable.get KEY_VOTE).map codec.decVote = log.vote.map .ok
  purged : (store.metaTable.get KEY_PURGED_LOG_ID).map codec.decLogId = log.purged.map .ok
  entries : List.Forall₂ (fun row e => row.1 = codec.index e.logId ∧ codec.decEntry row.2 = .ok e)
    store.entries.rows log.entries
  gapless : log.Gapless codec.index

/-! ## Every call keeps the store on its log -/

variable {codec} {store store' : ArrowRedbLogStore} {log : RaftLog LogId Membership Vote}

theorem rows_removeAll (table : Table UInt64 Bytes) (keys : List UInt64) :
    (removeAll table keys).rows = table.rows.filter fun row => row.1 ∉ keys := by
  induction keys generalizing table with
  | nil => simp [removeAll]
  | cons key keys ih =>
    rw [removeAll, List.foldl_cons, ← removeAll, ih, Table.remove, List.filter_filter]
    refine List.filter_congr fun row _ => ?_
    simp [Bool.and_comm]

/-- Removing the rows that pass a test leaves the others. -/
theorem rows_removeAll_filter (table : Table UInt64 Bytes) (p : UInt64 → Bool) :
    (removeAll table ((table.rows.filter fun row => p row.1).map Prod.fst)).rows =
      table.rows.filter fun row => !p row.1 := by
  rw [rows_removeAll]
  refine List.filter_congr fun row hrow => ?_
  have hmem : row.1 ∈ (table.rows.filter fun row => p row.1).map Prod.fst ↔ p row.1 = true := by
    constructor
    · intro hin
      obtain ⟨row', hrow', heq⟩ := List.mem_map.mp hin
      exact heq ▸ (List.mem_filter.mp hrow').2
    · exact fun hp => List.mem_map_of_mem (List.mem_filter.mpr ⟨hrow, hp⟩)
  by_cases hp : p row.1 = true <;> simp [hmem, hp]

/-- What a call committed, or that it failed and changed nothing. -/
theorem commit_eq {outside : Option IoError} {answer : IoResult Unit} {next : ArrowRedbLogStore}
    (h : store.commit next outside = (store', answer)) :
    (answer = .ok () ∧ store' = next) ∨ ((∃ e, answer = .error e) ∧ store' = store) := by
  cases outside with
  | none =>
    cases h
    exact .inl ⟨rfl, rfl⟩
  | some e =>
    cases h
    exact .inr ⟨⟨e, rfl⟩, rfl⟩

/-- A call that fails changes nothing. -/
theorem call_error {outside : Option IoError} {call : LogCall LogId Membership Vote} {e : IoError}
    (h : store.call codec outside call = (store', .error e)) : store' = store := by
  have hcommit {next : ArrowRedbLogStore} (h : store.commit next outside = (store', .error e)) :
      store' = store := by
    rcases commit_eq h with ⟨hok, -⟩ | ⟨-, hsame⟩
    · cases hok
    · exact hsame
  cases call with
  | saveVote vote =>
    rw [ArrowRedbLogStore.call, saveVote] at h
    split at h
    · cases h
      rfl
    · exact hcommit h
  | append entries =>
    rw [ArrowRedbLogStore.call, append] at h
    split at h
    · cases h
      rfl
    · exact hcommit h
  | truncateAfter last => exact hcommit h
  | purge logId =>
    rw [ArrowRedbLogStore.call, purge] at h
    split at h
    · cases h
      rfl
    · exact hcommit h

theorem commit_ok {outside : Option IoError} {next : ArrowRedbLogStore}
    (h : store.commit next outside = (store', .ok ())) : store' = next := by
  rcases commit_eq h with ⟨-, hnext⟩ | ⟨⟨_, hfailed⟩, -⟩
  · exact hnext
  · cases hfailed

theorem Holds.saveVote (h : store.Holds codec log) (hlaw : codec.Lawful) {vote : Vote}
    {outside : Option IoError} (hcall : store.saveVote codec vote outside = (store', .ok ())) :
    store'.Holds codec (log.after codec.index (.saveVote vote)) := by
  rw [ArrowRedbLogStore.saveVote] at hcall
  split at hcall
  · cases hcall
  rename_i bytes hbytes
  obtain rfl := commit_ok hcall
  refine ⟨?_, ?_, h.entries, h.gapless⟩
  · rw [Table.get_insert_self, Option.map_some, hlaw.vote hbytes]
    rfl
  · rw [Table.get_insert_of_ne _ _ (by decide)]
    exact h.purged

/-- New rows past the last one are the end of the table. -/
theorem rows_insertAll {table : Table UInt64 Bytes} {rows : List (UInt64 × Bytes)}
    (hsorted : (table.rows ++ rows).Pairwise fun a b => a.1 < b.1) :
    (table.insertAll Prod.fst Prod.snd rows).rows = table.rows ++ rows := by
  have heq : table.insertAll Prod.fst Prod.snd rows = ⟨table.rows ++ rows, hsorted⟩ := by
    have hwritten := Table.insertAll_rows (⟨table.rows ++ rows, hsorted⟩ : Table UInt64 Bytes)
    rw [← hwritten, Table.insertAll, Table.insertAll, List.foldl_append]
    exact congrArg (List.foldl _ · rows) (Table.insertAll_rows table).symm
  rw [heq]

/-- The keys of the table are the indices of the log. -/
theorem Holds.keys (h : store.Holds codec log) :
    store.entries.rows.map (fun row => row.1.toNat) = RaftLog.indices codec.index log.entries := by
  rw [RaftLog.indices, ← List.forall₂_eq_eq_eq, List.forall₂_map_left_iff, List.forall₂_map_right_iff]
  exact h.entries.imp fun row e hrow => by rw [hrow.1]

theorem Holds.append (h : store.Holds codec log) (hlaw : codec.Lawful)
    {entries : List (Entry LogId Membership)} (hpermits : log.Permits codec.index (.append entries))
    {outside : Option IoError} (hcall : store.append codec entries outside = (store', .ok ())) :
    store'.Holds codec (log.after codec.index (.append entries)) := by
  rw [ArrowRedbLogStore.append] at hcall
  split at hcall
  · cases hcall
  rename_i encoded hencoded
  obtain rfl := commit_ok hcall
  have hrows : List.Forall₂ (fun row e => row.1 = codec.index e.logId ∧
      codec.decEntry row.2 = .ok e) encoded entries := by
    refine (forall₂_of_mapM_eq_ok hencoded).flip.imp fun row e hrow => ?_
    cases hbytes : codec.encEntry e with
    | error e' =>
      rw [hbytes] at hrow
      cases hrow
    | ok bytes =>
      rw [hbytes] at hrow
      cases hrow
      exact ⟨rfl, hlaw.entry hbytes⟩
  have hgapless : RaftLog.Gapless codec.index (log.after codec.index (.append entries)) := by
    rw [RaftLog.Gapless, RaftLog.after, RaftLog.indices, List.map_append, List.length_append,
      List.range'_append_1.symm]
    exact congrArg₂ (· ++ ·) h.gapless hpermits
  have hall := List.rel_append h.entries hrows
  have hsorted : (store.entries.rows ++ encoded).Pairwise fun a b => a.1 < b.1 := by
    have hkeys : (store.entries.rows ++ encoded).map (fun row => row.1.toNat) =
        RaftLog.indices codec.index (log.entries ++ entries) := by
      rw [RaftLog.indices, ← List.forall₂_eq_eq_eq, List.forall₂_map_left_iff,
        List.forall₂_map_right_iff]
      exact hall.imp fun row e hrow => by rw [hrow.1]
    have hsorted : ((store.entries.rows ++ encoded).map fun row => row.1.toNat).Pairwise (· < ·) := by
      rw [hkeys, show RaftLog.indices codec.index (log.entries ++ entries) = _ from hgapless]
      exact List.pairwise_lt_range'
    exact (List.pairwise_map.mp hsorted).imp fun hlt => UInt64.lt_iff_toNat_lt.mpr hlt
  refine ⟨h.vote, h.purged, ?_, hgapless⟩
  rw [rows_insertAll hsorted]
  exact hall

/-- Filtering the rows and the entries by the same test of the index keeps them together. -/
theorem Holds.filter (h : store.Holds codec log) (p : UInt64 → Bool) :
    List.Forall₂ (fun row e => row.1 = codec.index e.logId ∧ codec.decEntry row.2 = .ok e)
      (store.entries.rows.filter fun row => p row.1)
      (log.entries.filter fun e => p (codec.index e.logId)) := by
  refine List.rel_filter (fun row e hrow => ?_) h.entries
  exact iff_of_eq (congrArg (p · = true) hrow.1)

theorem indices_filter (p : UInt64 → Bool) (q : Nat → Bool) (hpq : ∀ i, p i = q i.toNat)
    (index : LogId → UInt64) (entries : List (Entry LogId Membership)) :
    RaftLog.indices index (entries.filter fun e => p (index e.logId)) =
      (RaftLog.indices index entries).filter q := by
  rw [RaftLog.indices, RaftLog.indices, List.filter_map]
  exact congrArg _ (List.filter_congr fun e _ => hpq _)

theorem filter_le_range' (b n k : Nat) :
    (List.range' b n).filter (· ≤ k) = List.range' b (min n (k + 1 - b)) := by
  induction n generalizing b with
  | zero => simp
  | succ n ih =>
    rw [List.range'_succ, List.filter_cons, ih]
    by_cases hb : b ≤ k
    · rw [if_pos (decide_eq_true hb), ← List.range'_succ]
      congr 1
      omega
    · rw [if_neg (by simpa using hb), show min n (k + 1 - (b + 1)) = 0 by omega,
        show min (n + 1) (k + 1 - b) = 0 by omega]
      rfl

theorem filter_gt_range' (b n k : Nat) (hb : b ≤ k + 1) :
    (List.range' b n).filter (k < ·) = List.range' (k + 1) (n - (k + 1 - b)) := by
  induction n generalizing b with
  | zero => simp
  | succ n ih =>
    rw [List.range'_succ, List.filter_cons]
    by_cases hk : k < b
    · obtain rfl : b = k + 1 := by omega
      rw [if_pos (decide_eq_true hk), Nat.sub_self, Nat.sub_zero, List.range'_succ]
      refine congrArg _ (List.filter_eq_self.mpr fun i hi => ?_)
      exact decide_eq_true (by have := List.left_le_of_mem_range' hi; omega)
    · rw [if_neg (by simpa using hk), ih (b + 1) (by omega)]
      congr 1
      omega

/-- Entries picked by their index are without gaps if their indices are. -/
theorem gapless_of_indices {index : LogId → UInt64} {log : RaftLog LogId Membership Vote} {n : Nat}
    (h : RaftLog.indices index log.entries = List.range' (log.base index) n) : log.Gapless index := by
  have hlength := congrArg List.length h
  rw [RaftLog.indices, List.length_map, List.length_range'] at hlength
  rw [RaftLog.Gapless, hlength]
  exact h

theorem Holds.truncateAfter (h : store.Holds codec log) {last : Option LogId}
    (hpermits : log.Permits codec.index (.truncateAfter last)) {outside : Option IoError}
    (hcall : store.truncateAfter codec last outside = (store', .ok ())) :
    store'.Holds codec (log.after codec.index (.truncateAfter last)) := by
  obtain rfl := commit_ok hcall
  cases last with
  | none =>
    have hrows := rows_removeAll_filter store.entries fun i => decide (0 ≤ i)
    have hnone : ∀ i : UInt64, (!decide (0 ≤ i)) = false := by simp
    simp only [hnone] at hrows
    refine ⟨h.vote, h.purged, (congrArg (List.Forall₂ _ · _) hrows).mpr (h.filter fun _ => false), ?_⟩
    simp [RaftLog.Gapless, RaftLog.after, RaftLog.indices]
  | some l =>
    have hroom : (codec.index l + 1).toNat = (codec.index l).toNat + 1 := by
      rw [UInt64.toNat_add, UInt64.toNat_one]
      exact Nat.mod_eq_of_lt (hpermits l rfl)
    have hkeeps : ∀ i : UInt64, (!decide (codec.index l + 1 ≤ i)) = decide (i ≤ codec.index l) := by
      intro i
      rw [← decide_not, decide_eq_decide, not_le, UInt64.lt_iff_toNat_lt, UInt64.le_iff_toNat_le, hroom]
      omega
    have hrows := rows_removeAll_filter store.entries fun i => decide (codec.index l + 1 ≤ i)
    simp only [hkeeps] at hrows
    refine ⟨h.vote, h.purged, (congrArg (List.Forall₂ _ · _) hrows).mpr
      (h.filter fun i => decide (i ≤ codec.index l)), ?_⟩
    have hindices := indices_filter (· ≤ codec.index l) (· ≤ (codec.index l).toNat)
      (fun i => decide_eq_decide.mpr UInt64.le_iff_toNat_le) codec.index log.entries
    rw [h.gapless, filter_le_range'] at hindices
    exact gapless_of_indices hindices

theorem Holds.purge (h : store.Holds codec log) (hlaw : codec.Lawful) {logId : LogId}
    (hpermits : log.Permits codec.index (.purge logId)) {outside : Option IoError}
    (hcall : store.purge codec logId outside = (store', .ok ())) :
    store'.Holds codec (log.after codec.index (.purge logId)) := by
  rw [ArrowRedbLogStore.purge] at hcall
  split at hcall
  · cases hcall
  rename_i marker hmarker
  obtain rfl := commit_ok hcall
  have hbase : log.base codec.index ≤ (codec.index logId).toNat + 1 := by
    rw [RaftLog.base]
    cases hpurged : log.purged with
    | none => exact Nat.zero_le _
    | some p => exact Nat.succ_le_succ (UInt64.le_iff_toNat_le.mp (hpermits p hpurged))
  have hrows := rows_removeAll_filter store.entries fun i => decide (i ≤ codec.index logId)
  simp only [← decide_not, not_le] at hrows
  refine ⟨?_, ?_, (congrArg (List.Forall₂ _ · _) hrows).mpr
    (h.filter fun i => decide (codec.index logId < i)), ?_⟩
  · rw [Table.get_insert_of_ne _ _ (by decide)]
    exact h.vote
  · rw [Table.get_insert_self, Option.map_some, hlaw.logId hmarker]
    rfl
  · have hindices := indices_filter (codec.index logId < ·) ((codec.index logId).toNat < ·)
      (fun i => decide_eq_decide.mpr UInt64.lt_iff_toNat_lt) codec.index log.entries
    rw [h.gapless, filter_gt_range' _ _ _ hbase] at hindices
    exact gapless_of_indices hindices

/-- Whatever failed on the way, the tables hold the log. -/
theorem Kept.holds (hlaw : codec.Lawful) (h : Kept codec store log) : store.Holds codec log := by
  induction h with
  | opened => exact ⟨rfl, rfl, .nil, rfl⟩
  | @answered store log store' outside _ call hpermits hcall ih =>
    cases call with
    | saveVote vote => exact ih.saveVote hlaw hcall
    | append entries => exact ih.append hlaw hpermits hcall
    | truncateAfter last => exact ih.truncateAfter hpermits hcall
    | purge logId => exact ih.purge hlaw hpermits hcall
  | refused _ hcall ih =>
    obtain rfl := call_error hcall
    exact ih

/-! ## What is read back -/

theorem Holds.tryGetLogEntries (h : store.Holds codec log) (range : Bounds) :
    store.tryGetLogEntries codec range =
      .ok (log.entries.filter fun e => range.Contains (codec.index e.logId)) := by
  refine mapM_eq_ok_of_forall₂ ?_
  exact (h.filter range.Contains).imp fun row e hrow => hrow.2

theorem Holds.readVote (h : store.Holds codec log) : store.readVote codec = .ok log.vote := by
  have hvote := h.vote
  rw [ArrowRedbLogStore.readVote]
  cases hget : store.metaTable.get KEY_VOTE with
  | none =>
    rw [hget, Option.map_none, eq_comm, Option.map_eq_none_iff] at hvote
    rw [hvote]
    rfl
  | some bytes =>
    rw [hget, Option.map_some, eq_comm, Option.map_eq_some_iff] at hvote
    obtain ⟨vote, hvote, hdec⟩ := hvote
    rw [hvote, Option.elim_some, ← hdec]
    rfl

theorem Holds.getLogState (h : store.Holds codec log) :
    store.getLogState codec = .ok ⟨log.purged, log.lastLogId⟩ := by
  have hpurged : (store.metaTable.get KEY_PURGED_LOG_ID).elim (.ok none)
      (fun bytes => (codec.decLogId bytes).map some) = .ok log.purged := by
    have hpurged := h.purged
    cases hget : store.metaTable.get KEY_PURGED_LOG_ID with
    | none =>
      rw [hget, Option.map_none, eq_comm, Option.map_eq_none_iff] at hpurged
      rw [hpurged]
      rfl
    | some bytes =>
      rw [hget, Option.map_some, eq_comm, Option.map_eq_some_iff] at hpurged
      obtain ⟨purged, hpurged, hdec⟩ := hpurged
      rw [hpurged, Option.elim_some, ← hdec]
      rfl
  have hlast : store.entries.rows.getLast?.elim (.ok none)
      (fun row => (codec.decEntry row.2).map fun entry => some entry.logId) =
        .ok (log.entries.getLast?.map Entry.logId) := by
    have hentries := h.entries
    generalize store.entries.rows = rows at hentries ⊢
    generalize log.entries = entries at hentries ⊢
    rw [List.getLast?_eq_head?_reverse, List.getLast?_eq_head?_reverse]
    have hreversed := List.forall₂_reverse_iff.mpr hentries
    generalize rows.reverse = rows at hreversed ⊢
    generalize entries.reverse = entries at hreversed ⊢
    cases hreversed with
    | nil => rfl
    | cons hrow _ =>
      rw [List.head?_cons, List.head?_cons, Option.elim_some, hrow.2]
      rfl
  rw [ArrowRedbLogStore.getLogState, hpurged, ok_bind, hlast]
  rfl

/-- Whatever failed on the way, a read gives the entries of the log in its range, in order and
without gaps, and the state and the vote are those of the log. -/
theorem Kept.reads (hlaw : codec.Lawful) (h : Kept codec store log) :
    log.Gapless codec.index ∧
      (∀ range, store.tryGetLogEntries codec range =
        .ok (log.entries.filter fun e => range.Contains (codec.index e.logId))) ∧
      store.getLogState codec = .ok ⟨log.purged, log.lastLogId⟩ ∧
      store.readVote codec = .ok log.vote := by
  have hholds := h.holds hlaw
  exact ⟨hholds.gapless, hholds.tryGetLogEntries, hholds.getLogState, hholds.readVote⟩

/-- An index has an entry exactly if it is past the purged ones and not past the last one. -/
theorem mem_indices_iff {index : LogId → UInt64} (h : log.Gapless index) {i : Nat} :
    i ∈ RaftLog.indices index log.entries ↔
      log.base index ≤ i ∧ ∃ last, log.lastLogId = some last ∧ i ≤ (index last).toNat := by
  have hmem := h ▸ @List.mem_range'_1 (log.base index) log.entries.length i
  rw [hmem, and_congr_right_iff]
  intro hbase
  rw [RaftLog.lastLogId]
  rcases List.eq_nil_or_concat log.entries with hnil | ⟨front, e, hconcat⟩
  · rw [hnil, List.getLast?_nil, Option.map_none, Option.none_or, List.length_nil]
    refine iff_of_false (by omega) ?_
    rintro ⟨p, hp, hle⟩
    rw [RaftLog.base, hp, Option.elim_some] at hbase
    omega
  · have hlast : (index e.logId).toNat = log.base index + front.length := by
      have hget := congrArg (·[front.length]?) h
      simpa [RaftLog.indices, hconcat] using hget
    rw [hconcat, List.concat_eq_append, List.getLast?_concat, Option.map_some, Option.some_or,
      List.length_append, List.length_singleton]
    simp only [Option.some.injEq, exists_eq_left', hlast]
    omega

/-- The startup check accepts exactly if every entry past the applied ones, up to the last one, can
still be read back. -/
theorem Kept.consistent_iff (hlaw : codec.Lawful) (h : Kept codec store log)
    (applied : Option LogId) :
    validateStoreConsistency codec.index log.purged applied = .ok () ↔
      ∀ i : UInt64, (∀ a, applied = some a → codec.index a < i) →
        (∃ last, log.lastLogId = some last ∧ i ≤ codec.index last) →
        ∃ entries, store.tryGetLogEntries codec ⟨.included i, .unbounded⟩ = .ok entries ∧
          ∃ e ∈ entries, codec.index e.logId = i := by
  have hgapless := (h.holds hlaw).gapless
  have hread : ∀ i : UInt64, (∃ entries,
      store.tryGetLogEntries codec ⟨.included i, .unbounded⟩ = .ok entries ∧
        ∃ e ∈ entries, codec.index e.logId = i) ↔
      log.base codec.index ≤ i.toNat ∧
        ∃ last, log.lastLogId = some last ∧ i.toNat ≤ (codec.index last).toNat := by
    intro i
    rw [← mem_indices_iff hgapless, RaftLog.indices, List.mem_map]
    constructor
    · rintro ⟨entries, hok, e, he, rfl⟩
      cases ((h.holds hlaw).tryGetLogEntries _).symm.trans hok
      exact ⟨e, (List.mem_filter.mp he).1, rfl⟩
    · rintro ⟨e, he, heq⟩
      refine ⟨_, (h.holds hlaw).tryGetLogEntries _, e, List.mem_filter.mpr ⟨he, ?_⟩, UInt64.toNat_inj.mp heq⟩
      simp [Bounds.Contains, UInt64.toNat_inj.mp heq]
  simp only [hread, UInt64.le_iff_toNat_le]
  rw [validateStoreConsistency.eq_def]
  cases hpurged : log.purged with
  | none =>
    refine iff_of_true rfl fun i _ hlast => ⟨?_, hlast⟩
    rw [RaftLog.base, hpurged]
    exact Nat.zero_le _
  | some p =>
    have hbase : log.base codec.index = (codec.index p).toNat + 1 := by
      rw [RaftLog.base, hpurged, Option.elim_some]
    -- the marker is never past the last log id
    have hlast : ∃ last, log.lastLogId = some last ∧ (codec.index p).toNat ≤ (codec.index last).toNat := by
      rcases List.eq_nil_or_concat log.entries with hnil | ⟨front, e, hconcat⟩
      · exact ⟨p, by rw [RaftLog.lastLogId, hnil, hpurged]; rfl, le_rfl⟩
      · have he : e ∈ log.entries := by simp [hconcat]
        obtain ⟨hle, last, hlast, hin⟩ :=
          (mem_indices_iff hgapless).mp (List.mem_map_of_mem he)
        exact ⟨last, hlast, by omega⟩
    cases applied with
    | none =>
      refine iff_of_false (by rintro ⟨⟩) fun hall => ?_
      have := (hall (codec.index p) (by rintro _ ⟨⟩) hlast).1
      omega
    | some a =>
      dsimp only
      by_cases hbehind : codec.index a < codec.index p
      · rw [if_pos hbehind]
        refine iff_of_false (by rintro ⟨⟩) fun hall => ?_
        have := (hall (codec.index p) (by rintro _ ⟨⟩; exact hbehind) hlast).1
        omega
      · rw [if_neg hbehind]
        refine iff_of_true rfl fun i happlied hlast => ⟨?_, hlast⟩
        have := UInt64.lt_iff_toNat_lt.mp (happlied a rfl)
        rw [UInt64.lt_iff_toNat_lt] at hbehind
        omega

end ArrowRedbLogStore

/-! ## A log of two entries, the first of them purged -/

namespace ArrowRedbLogStore.Sample

/-- Log ids that are their indices, and entries without a payload. -/
def codec : RaftLogCodec UInt64 Unit UInt64 where
  index := id
  encEntry e :=
    match e.payload with
    | .blank => .ok (beBytes 8 e.logId.toNat)
    | _ => .error (.other "")
  decEntry bytes := .ok ⟨UInt64.ofNat (beValue bytes), .blank⟩
  encLogId i := .ok (beBytes 8 i.toNat)
  decLogId bytes := .ok (UInt64.ofNat (beValue bytes))
  encVote v := .ok (beBytes 8 v.toNat)
  decVote bytes := .ok (UInt64.ofNat (beValue bytes))

theorem ofNat_beValue (i : UInt64) : UInt64.ofNat (beValue (beBytes 8 i.toNat)) = i := by
  rw [beValue_beBytes, Nat.mod_eq_of_lt (by simpa using i.toNat_lt), UInt64.ofNat_toNat]

theorem lawful : codec.Lawful where
  entry := by
    rintro ⟨i, payload⟩ bytes henc
    cases payload with
    | blank =>
      cases henc
      exact congrArg (fun i => Except.ok (Entry.mk i .blank)) (ofNat_beValue i)
    | normal cmd => cases henc
    | membership mem => cases henc
  logId := by
    rintro i bytes ⟨⟩
    exact congrArg Except.ok (ofNat_beValue i)
  vote := by
    rintro v bytes ⟨⟩
    exact congrArg Except.ok (ofNat_beValue v)

def appended : ArrowRedbLogStore :=
  (empty.call codec none (.append [⟨0, .blank⟩, ⟨1, .blank⟩])).1

def purged : ArrowRedbLogStore := (appended.call codec none (.purge 0)).1

theorem kept_purged : Kept codec purged ⟨none, some 0, [⟨1, .blank⟩]⟩ := by
  have happended : Kept codec appended ⟨none, none, [⟨0, .blank⟩, ⟨1, .blank⟩]⟩ :=
    @Kept.answered _ _ _ codec _ _ none _ .opened (.append [⟨0, .blank⟩, ⟨1, .blank⟩]) rfl rfl
  exact @Kept.answered _ _ _ codec _ _ none _ happended (.purge 0) (by rintro _ ⟨⟩) rfl

theorem reads_purged :
    purged.tryGetLogEntries codec ⟨.unbounded, .unbounded⟩ = .ok [⟨1, .blank⟩] :=
  (kept_purged.reads lawful).2.1 ⟨.unbounded, .unbounded⟩

/-- A state machine file from before the purged entry was applied is found out. -/
theorem inconsistent_purged : ¬ ∀ i : UInt64, (∀ a, (none : Option UInt64) = some a → a < i) →
    (∃ last, (some 1 : Option UInt64) = some last ∧ i ≤ last) →
    ∃ entries, purged.tryGetLogEntries codec ⟨.included i, .unbounded⟩ = .ok entries ∧
      ∃ e ∈ entries, e.logId = i :=
  mt (kept_purged.consistent_iff lawful none).mpr (by rintro ⟨⟩)

end ArrowRedbLogStore.Sample

end Saci
