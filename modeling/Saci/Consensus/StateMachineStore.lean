import Saci.Consensus.StateMachine

/-!
# The Raft state machine store

`ArrowRedbStateMachine` drives `apply` over committed log entries and keeps its two watermarks in
the same database (`storage/state_machine_store.rs`). Log ids, memberships and their encoding are
those of the Raft library, and parameters here.
-/

namespace Saci

/-- An `io::Error`; every one the store makes is `io::Error::other`. -/
inductive IoError
  | other (message : String)
  deriving DecidableEq

abbrev IoResult (α : Type) := Except IoError α

/-- A membership, with the log id of the entry that set it. -/
structure StoredMembership (LogId Membership : Type) where
  logId : Option LogId
  membership : Membership
  deriving DecidableEq

inductive EntryPayload (Membership : Type)
  | blank
  | normal (cmd : ConsensusCommand)
  | membership (mem : Membership)

structure Entry (LogId Membership : Type) where
  logId : LogId
  payload : EntryPayload Membership

/-- `enc` and `dec` at the types of the two watermarks, and `StoredMembership::default`. -/
structure WatermarkCodec (LogId Membership : Type) where
  encApplied : Option LogId → IoResult Bytes
  decApplied : Bytes → IoResult (Option LogId)
  encMembership : StoredMembership LogId Membership → IoResult Bytes
  decMembership : Bytes → IoResult (StoredMembership LogId Membership)
  defaultMembership : StoredMembership LogId Membership

structure ArrowRedbStateMachine (LogId Membership : Type) where
  db : Database
  lastApplied : Option LogId
  lastMembership : StoredMembership LogId Membership

namespace ArrowRedbStateMachine
variable {LogId Membership : Type} (codec : WatermarkCodec LogId Membership)

/-- Read the watermarks back, and create their table if it is missing. -/
def open_ (db : Database) : IoResult (ArrowRedbStateMachine LogId Membership) :=
  let table := openTable db.smMeta
  match (table.get KEY_SM_LAST_APPLIED).elim (.ok none) codec.decApplied with
  | .error e => .error e
  | .ok lastApplied =>
    match (table.get KEY_SM_LAST_MEMBERSHIP).elim (.ok codec.defaultMembership)
        codec.decMembership with
    | .error e => .error e
    | .ok lastMembership =>
      .ok { db := { db with smMeta := some table }, lastApplied, lastMembership }

/-- One round of the loop of `apply`, and what the entry's responder is sent. The command commits
its own transaction; the watermarks move in memory only. -/
def applyEntry (sm : ArrowRedbStateMachine LogId Membership) (entry : Entry LogId Membership) :
    IoResult (ArrowRedbStateMachine LogId Membership × ConsensusResponse) :=
  match entry.payload with
  | .blank => .ok ({ sm with lastApplied := some entry.logId }, .claimAcked)
  | .normal cmd =>
    match Saci.apply sm.db cmd with
    | .error e => .error (.other s!"sm_apply: {e}")
    | .ok (db, response) => .ok ({ sm with db, lastApplied := some entry.logId }, response)
  | .membership mem =>
    .ok ({ sm with
            lastApplied := some entry.logId
            lastMembership := { logId := some entry.logId, membership := mem } }, .claimAcked)

/-- Write both watermarks in one transaction. -/
def persistSmMeta (sm : ArrowRedbStateMachine LogId Membership) :
    IoResult (ArrowRedbStateMachine LogId Membership) :=
  match codec.encApplied sm.lastApplied with
  | .error e => .error e
  | .ok appliedBytes =>
    match codec.encMembership sm.lastMembership with
    | .error e => .error e
    | .ok membershipBytes =>
      let smMeta := ((openTable sm.db.smMeta).insert KEY_SM_LAST_APPLIED appliedBytes).insert
        KEY_SM_LAST_MEMBERSHIP membershipBytes
      .ok { sm with db := { sm.db with smMeta := some smMeta } }

/-- Apply the entries one after the other, then persist the watermarks. -/
def apply (sm : ArrowRedbStateMachine LogId Membership) (entries : List (Entry LogId Membership)) :
    IoResult (ArrowRedbStateMachine LogId Membership × List ConsensusResponse) :=
  match run applyEntry sm entries with
  | .error e => .error e
  | .ok (sm, responses) =>
    match sm.persistSmMeta codec with
    | .error e => .error e
    | .ok sm => .ok (sm, responses)

end ArrowRedbStateMachine
end Saci
