import Saci.Connectors.BinlogHistory
import Saci.Library.Run
import Saci.Library.Text

/-!
# One stream of the binlog

What the `cdc_binlog` reader tracks between the events of one dump
(`saci-connector-mariadb/src/source/binlog.rs`): the open transaction, the position read so far in either
mode, and the definitions that the rows are decoded with. A row image is of any type, and so is a plan,
which stands for its address: rows are cut into batches where it changes.
-/

namespace Saci.Mariadb

open Text (eqIgnoreAsciiCase)

/-- What handing a row to the pipeline acknowledges. -/
inductive Ack
  /-- The end of a transaction or the start of a new file, in file mode. -/
  | file (name : String) (pos : Nat)
  /-- One transaction, in GTID mode. -/
  | gtid (uuid : Uuid) (tag : Option String) (gno : Nat)
  /-- Everything read so far, in GTID mode. -/
  | set (set : GtidSet)
  deriving DecidableEq

/-- Move forward past an acknowledged transaction. -/
def Position.apply : Position → Ack → Except String Position
  | .file _ _, .file name pos => .ok (.file name pos)
  | .gtid set, .gtid uuid tag gno => do return .gtid (← set.insert uuid tag gno)
  | .gtid _, .set set => .ok (.gtid set)
  | _, _ => .error "an acknowledgement of the other position kind"

/-- The operation of a row. -/
inductive Op
  | insert
  | update
  | delete
  deriving DecidableEq

def Op.asChar : Op → Char
  | .insert => 'I'
  | .update => 'U'
  | .delete => 'D'

/-- One transaction's row as read, stamped by its commit. -/
structure Change (I P : Type) where
  op : Op
  image : I
  /-- The plan of the definition the row was written under. -/
  plan : P
  file : Option String
  /-- The position of the event that ended the transaction. -/
  pos : Nat
  gtid : Option String
  commitMicros : Int
  ack : Option Ack
  /-- The last row of its transaction. -/
  txEnd : Bool
  deriving DecidableEq

/-- What one event did to the cycle. -/
inductive Handled
  | continue
  /-- The cycle has read as many changes as it may. -/
  | stop
  /-- A row event for the table arrived whose shape differs from the catalog. -/
  | reload
  deriving DecidableEq

/-! ## The events -/

/-- How a query bears on the transaction. -/
inductive Query
  | ignore
  | begin
  | commit (ddl : Bool)
  deriving DecidableEq

/-- `trim_ascii`. -/
def trimAscii (text : List Char) : List Char :=
  ((text.dropWhile space).reverse.dropWhile space).reverse
where
  space (c : Char) : Bool := c = ' ' || c = '\t' || c = '\n' || c = '\r' || c.toNat = 12

/-- Classify a query's text. -/
def classifyQuery (text : String) (inTx : Bool) : Query :=
  let text := trimAscii text.toList
  if "# Dum".toList.isPrefixOf text then .ignore
  else if eqIgnoreAsciiCase text "BEGIN".toList then .begin
  else if eqIgnoreAsciiCase text "COMMIT".toList || eqIgnoreAsciiCase text "ROLLBACK".toList then
    .commit false
  else if inTx then .ignore
  else .commit true

/-- Lower-case hyphenated UUID text. -/
def formatUuid (uuid : Uuid) : String :=
  String.ofList <| (uuid.toList.zipIdx.map fun (byte, i) =>
    (if i = 4 ∨ i = 6 ∨ i = 8 ∨ i = 10 then ['-'] else []) ++
      [Nat.digitChar (byte.toNat / 16), Nat.digitChar (byte.toNat % 16)]).flatten

/-- `uuid[:tag]:gno` for one transaction. -/
def formatGtid (uuid : Uuid) (tag : Option String) (gno : Nat) : String :=
  match tag.filter (· ≠ "") with
  | none => s!"{formatUuid uuid}:{gno}"
  | some tag => s!"{formatUuid uuid}:{tag}:{gno}"

/-- The GTID of the transaction being read. -/
structure GtidKey where
  uuid : Uuid
  tag : Option String
  gno : Nat
  text : String
  deriving DecidableEq

/-! ## The definitions of a stream -/

/-- A definition recorded for a position the stream has not reached yet: its plan, or why the
definition cannot decode the declared fields. -/
structure Step (P : Type) where
  /-- `at`. -/
  tag : Position
  plan : Except String P

/-- The definitions one stream decodes with, in the order it reaches them. -/
structure Timeline (P : Type) where
  active : P
  /-- The recorded definitions of positions the stream has not reached, oldest first. -/
  ahead : List (Step P)

/-- `timeline_at`: the definition in force where a stream starts, then every recorded one it will
reach. -/
def timelineAt {D P : Type} (table : String) (display : Position → String)
    (buildPlan : D → Except String P) (history : History D) (position : Position) :
    SaciResult (Timeline P) :=
  match history.inForce position with
  | none =>
    .error <| .generic <|
      s!"MariadbSource: no definition of '{table}' is in force at {display position}"
  | some entry =>
    match buildPlan entry.definition with
    | .error e => .error (.configuration e)
    | .ok active =>
      .ok ⟨active, (history.after position).map fun entry => ⟨entry.tag, buildPlan entry.definition⟩⟩

/-! ## The cycle -/

/-- Everything one stream tracks between events; `S` is what a table map says. -/
structure Cycle (I P S : Type) where
  fileMode : Bool
  /-- The binlog file the events belong to. -/
  file : Option String
  /-- The file the dump asked for, in file mode. -/
  requested : Option String
  /-- Whether the stream's first format description has arrived. -/
  fdeSeen : Bool
  inTx : Bool
  gtid : Option GtidKey
  /-- The outer position of a compressed transaction. -/
  payloadEnd : Option Nat
  tx : List (Op × I × P)
  rowsRead : Nat
  /-- Changes after which the cycle stops at a commit; 0 for no limit. -/
  limit : Nat
  /-- GTID mode: the start set, grown by every transaction read. -/
  readSet : GtidSet
  gtidDirty : Bool
  /-- File mode: the end of the last transaction, or the newest file's start. -/
  fileTail : Option (String × Nat)
  /-- A DDL statement was read since the catalog was last read. -/
  ddlSeen : Bool
  /-- A transaction other than the connector's own offset writes was read. -/
  foreign : Bool
  timeline : Timeline P
  /-- Where the stream started. -/
  start : Option Position
  /-- The position of the last DDL read since the definition in use was settled. -/
  ddlAt : Option Position
  /-- What the table map of the row event that asked for a reload says. -/
  shape : Option S

namespace Cycle
variable {I P S : Type}

/-- `Cycle::default`, with a plan of its own. -/
def empty (plan : P) : Cycle I P S where
  fileMode := false
  file := none
  requested := none
  fdeSeen := false
  inTx := false
  gtid := none
  payloadEnd := none
  tx := []
  rowsRead := 0
  limit := 0
  readSet := ∅
  gtidDirty := false
  fileTail := none
  ddlSeen := false
  foreign := false
  timeline := ⟨plan, []⟩
  start := none
  ddlAt := none
  shape := none

/-- A cycle starting at a position that decodes with a timeline. -/
def withTimeline (start : Position) (limit : Nat) (timeline : Timeline P) : Cycle I P S :=
  let cycle : Cycle I P S := { empty timeline.active with start := some start, limit, timeline }
  match start with
  | .file name _ => { cycle with fileMode := true, file := some name, requested := some name }
  | .gtid set => { cycle with readSet := set }

variable (cy : Cycle I P S)

def onFormatDescription : Cycle I P S := { cy with fdeSeen := true }

/-- A rotate: the first one of a dump in file mode keeps the requested file. -/
def onRotate (name : String) (position : Nat) : Cycle I P S :=
  let name :=
    match cy.requested with
    | some requested => if cy.fileMode && !cy.fdeSeen then requested else name
    | none => name
  { cy with
    fileTail := if cy.fileMode then some (name, position) else cy.fileTail
    file := some name }

def onGtid (uuid : Uuid) (tag : Option String) (gno : Nat) : Cycle I P S :=
  let tag := tag.filter (· ≠ "")
  { cy with gtid := some ⟨uuid, tag, gno, formatGtid uuid tag gno⟩ }

def onPayload (logPos : Nat) : Cycle I P S := { cy with payloadEnd := some logPos }

def onBegin : Cycle I P S := { cy with inTx := true }

def onRow (op : Op) (image : I) : Cycle I P S :=
  { cy with tx := cy.tx ++ [(op, image, cy.timeline.active)] }

/-- How far the stream has read: the end of the last commit, else where it started. -/
def tailPosition : Option Position :=
  if cy.fileMode then
    match cy.fileTail with
    | some (name, pos) => some (.file name pos)
    | none => cy.start
  else some (.gtid cy.readSet)

/-- Whether a commit has brought the stream to a position. -/
def reaches : Position → Bool
  | .file name pos => cy.fileMode && cy.tailPosition.any (reached (.file name pos))
  | .gtid set => !cy.fileMode && set.isSubsetOf cy.readSet

/-- Switch to every recorded definition the stream has now reached. -/
def advanceTimeline : SaciResult (Cycle I P S) := go cy cy.timeline.ahead
where
  go (cy : Cycle I P S) : List (Step P) → SaciResult (Cycle I P S)
    | [] => .ok cy
    | step :: ahead =>
      if cy.reaches step.tag then
        match step.plan with
        | .error e => .error (.configuration e)
        | .ok active => go { cy with timeline := ⟨active, ahead⟩, ddlSeen := false, ddlAt := none } ahead
      else .ok cy

/-- The rows of a transaction, stamped by its commit; the last one carries the acknowledgement. -/
def stamp (file gtid : Option String) (pos : Nat) (commitMicros : Int) (ack : Option Ack) :
    List (Op × I × P) → List (Change I P)
  | [] => []
  | [(op, image, plan)] => [⟨op, image, plan, file, pos, gtid, commitMicros, ack, true⟩]
  | (op, image, plan) :: row :: rows =>
    ⟨op, image, plan, file, pos, gtid, commitMicros, none, false⟩ ::
      stamp file gtid pos commitMicros ack (row :: rows)

/-- The set of the transactions read, with the one that commits. -/
def grow (cy : Cycle I P S) : Option GtidKey → SaciResult (Cycle I P S)
  | none => .ok cy
  | some gtid =>
    if cy.fileMode then .ok cy
    else
      match cy.readSet.insert gtid.uuid gtid.tag gtid.gno with
      | .error e => .error (.generic s!"MariadbSource: cannot track a binlog GTID: {e}")
      | .ok readSet => .ok { cy with readSet, gtidDirty := true }

/-- What the last row of the transaction acknowledges. -/
def ackOf (gtid : Option GtidKey) (last : Nat) : Option Ack :=
  if cy.fileMode then cy.file.map fun name => .file name last
  else gtid.map fun gtid => .gtid gtid.uuid gtid.tag gtid.gno

/-- The cycle once the rows of a transaction that ends at a position are queued. -/
def settle (last : Nat) (ddl : Bool) : Cycle I P S :=
  let count := cy.tx.length
  let cy := { cy with
    tx := []
    fileTail :=
      match cy.fileMode, cy.file with
      | true, some name => some (name, last)
      | _, _ => cy.fileTail }
  let cy := if ddl then { cy with ddlSeen := true, ddlAt := cy.tailPosition } else cy
  { cy with
    foreign := cy.foreign || ddl || 0 < count
    rowsRead := cy.rowsRead + count }

/-- A commit point: stamp the buffered rows and queue them. -/
def onCommit (queue : List (Change I P)) (timestamp logPos : Nat) (ddl : Bool) :
    SaciResult (Cycle I P S × List (Change I P) × Handled) := do
  let last := cy.payloadEnd.getD logPos
  let gtid := cy.gtid
  let cy := { cy with payloadEnd := none, inTx := false, gtid := none }
  if last = 0 ∧ cy.fileMode then
    throw <| SaciError.generic <|
      "MariadbSource: a binlog commit event carries no position, so the stream cannot be " ++
      "resumed after it"
  let cy ← grow cy gtid
  let rows := stamp cy.file (gtid.map GtidKey.text) last (timestamp * 1000000) (cy.ackOf gtid last) cy.tx
  let cy ← (cy.settle last ddl).advanceTimeline
  return (cy, queue ++ rows, if 0 < cy.limit ∧ cy.limit ≤ cy.rowsRead then .stop else .continue)

/-- The end of the stream: drop an uncommitted transaction, and hand back the position to acknowledge
with whether it is worth storing. -/
def finish : Cycle I P S × Option (Ack × Bool) :=
  let cy := { cy with tx := [], inTx := false }
  if cy.fileMode then
    let rotated := cy.fileTail.any fun tail => cy.requested.all (· ≠ tail.1)
    ({ cy with fileTail := none },
      cy.fileTail.map fun tail => (.file tail.1 tail.2, cy.foreign || rotated))
  else if cy.gtidDirty then
    ({ cy with gtidDirty := false }, some (.set cy.readSet, cy.foreign))
  else (cy, none)

end Cycle

/-- How many queued rows the next batch takes: up to `batchRows`, or with `toTxEnd` no further than the
end of the transaction at the head of the queue, and no further than the head's plan reaches. -/
def takeCount {I P : Type} [DecidableEq P] (queue : List (Change I P)) (batchRows : Nat)
    (toTxEnd : Bool) : Nat :=
  match queue with
  | [] => 0
  | head :: _ =>
    let count := min batchRows queue.length
    let count :=
      if toTxEnd then ((queue.findIdx? Change.txEnd).map fun last => min count (last + 1)).getD count
      else count
    ((queue.take count).takeWhile fun change => change.plan = head.plan).length

end Saci.Mariadb
