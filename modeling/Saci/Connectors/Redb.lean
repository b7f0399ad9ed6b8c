import Saci.Library.Table
import Saci.Library.Decimal
import Saci.Core.RecordBatch

/-!
# The redb connector

A sink that stores one entry per batch under a generated key, and a source that reads the entries
back in key order and deletes what it handed over whole (`saci-connector-redb/src/key.rs`,
`sink.rs` and `source.rs`). A redb table is an ordered table of byte strings; an absent table is an
empty one. The transformer is a parameter, and so is every failure of the disk: an operation is
given the error that strikes it, if one does, and redb drops a transaction that failed.
-/

namespace Saci

/-! ## Keys -/

def SEQ_WIDTH : Nat := 20

/-- `entry_key`. -/
def entryKey (keyPrefix : Bytes) (seq : UInt64) (keySuffix : Bytes) : Bytes :=
  keyPrefix ++ decimal SEQ_WIDTH seq.toNat ++ keySuffix

/-- `middle.parse().ok()`, of digits. -/
def parseU64 (digits : Bytes) : Option UInt64 :=
  if decimalValue digits < UInt64.size then some (UInt64.ofNat (decimalValue digits)) else none

/-- `parse_seq`. -/
def parseSeq (key keyPrefix keySuffix : Bytes) : Option UInt64 := do
  let rest ← keyPrefix.isPrefixOf? key
  let middle ← keySuffix.isSuffixOf? rest
  if middle.length = SEQ_WIDTH ∧ middle.all isAsciiDigit then parseU64 middle else none

/-- A key in an error text. -/
def keyText (key : Bytes) : String := (String.fromUTF8? ⟨key.toArray⟩).getD ""

/-- `u64::saturating_add(1)`. -/
def saturatingSuccU64 (n : UInt64) : UInt64 := if n.toNat + 1 < UInt64.size then n + 1 else n

/-! ## Configuration and transformer -/

/-- What the sink's and the source's configuration share. -/
structure RedbConfig where
  path : String
  table : String
  keyPrefix : Bytes
  keySuffix : Bytes

/-- What the connector uses of a transformer. -/
structure Transformer where
  /-- One batch through a writer of its own: the finished document. -/
  encode : RecordBatch → SaciResult Bytes
  /-- A reader over a document: the batches it gives, and the error it ends with if it ends with
  one. -/
  decode : Bytes → List RecordBatch × Option SaciError

/-- redb's refusal to open a file that is locked. -/
def alreadyOpen : String := "Database already open. Cannot acquire lock."

abbrev RedbTable := Table Bytes Bytes

/-! ## Sink -/

structure RedbSink where
  /-- `db` is `Some`, which holds the exclusive lock. -/
  open_ : Bool
  nextSeq : UInt64
  deriving DecidableEq

/-- `resume_seq`: past the highest key this connector generated. -/
def resumeSeq (config : RedbConfig) (table : RedbTable) : UInt64 :=
  let range := table.rangeFrom config.keyPrefix
  match range.reverse.findSome? fun entry =>
      parseSeq entry.1 config.keyPrefix config.keySuffix with
  | some seq => saturatingSuccU64 seq
  | none => 0

namespace RedbSink

/-- `RedbSink::open`. -/
def openOn (config : RedbConfig) (table : RedbTable) (locked : Bool) (fault : Option SaciError) :
    SaciResult RedbSink :=
  match fault with
  | some e => .error e
  | none =>
    if locked then .error (.generic s!"RedbSink: cannot open {config.path}: {alreadyOpen}")
    else .ok ⟨true, resumeSeq config table⟩

/-- The key the next accepted batch takes. -/
def nextKey (config : RedbConfig) (sink : RedbSink) : Bytes :=
  entryKey config.keyPrefix sink.nextSeq config.keySuffix

/-- `write_batch`. The sequence advances by a wrapping `+= 1`, as a release build does it. -/
def writeBatch (config : RedbConfig) (transformer : Transformer) (sink : RedbSink)
    (table : RedbTable) (batch : RecordBatch) (fault : Option SaciError) :
    RedbSink × RedbTable × SaciResult Unit :=
  if sink.open_ then
    if batch.numRows = 0 then (sink, table, .ok ())
    else
      match transformer.encode batch with
      | .error e => (sink, table, .error e)
      | .ok bytes =>
        match fault with
        | some e => (sink, table, .error e)
        | none =>
          match table.get (sink.nextKey config) with
          | some _ =>
            (sink, table, .error <| .generic <|
              s!"RedbSink: key '{keyText (sink.nextKey config)}' already exists in table " ++
              s!"'{config.table}' of {config.path}")
          | none =>
            ({ sink with nextSeq := sink.nextSeq + 1 }, table.insert (sink.nextKey config) bytes,
              .ok ())
  else (sink, table, .error (.generic "RedbSink: write_batch called after finish"))

/-- `finish`: the file is released also when the last commit or the compaction fails. -/
def finish (sink : RedbSink) (fault : Option SaciError) : RedbSink × SaciResult Unit :=
  if sink.open_ then
    ({ sink with open_ := false }, match fault with | some e => .error e | none => .ok ())
  else (sink, .ok ())

end RedbSink

/-! ## Source -/

/-- The channel of the entry being decoded: the batches it still gives, and the error behind them
if the entry does not end cleanly. -/
structure EntryReader where
  batches : List RecordBatch
  error : Option SaciError
  deriving DecidableEq

structure RedbSource where
  /-- `db` is `Some`, which holds a shared lock. -/
  open_ : Bool
  pending : Option (List Bytes)
  current : Option EntryReader
  consume : Bool
  yielded : List Bytes
  deriving DecidableEq

/-- What `next_batch` answers. It panics when it is to open an entry after `finish` closed the
file. -/
inductive NextBatch
  | batch (batch : RecordBatch)
  | eof
  | error (e : SaciError)
  | panicked
  deriving DecidableEq

/-- `collect_keys`: the keys from the prefix on, up to the first without it, that have the
suffix. -/
def collectKeys (config : RedbConfig) (table : RedbTable) : List Bytes :=
  let range := (table.rangeFrom config.keyPrefix).map Prod.fst
  (range.takeWhile fun key => config.keyPrefix.isPrefixOf key).filter fun key =>
    config.keySuffix.isSuffixOf key

/-- `open_entry`: what the reader over an entry's value gives. A fault breaks it off behind some of
its batches. -/
def openEntry (transformer : Transformer) (value : Bytes) (fault : Option (Nat × SaciError)) :
    EntryReader :=
  let (batches, error) := transformer.decode value
  match fault with
  | none => ⟨batches, error⟩
  | some (given, e) => ⟨batches.take given, some e⟩

namespace RedbSource

/-- `RedbSource::new`. -/
def new (consume : Bool) : RedbSource := ⟨false, none, none, consume, []⟩

/-- `scan`. -/
def scan (config : RedbConfig) (source : RedbSource) (table : RedbTable) (locked : Bool)
    (fault : Option SaciError) : SaciResult RedbSource :=
  match fault with
  | some e => .error e
  | none =>
    if locked then .error (.generic s!"RedbSource: cannot open {config.path}: {alreadyOpen}")
    else .ok { source with open_ := true, pending := some (collectKeys config table) }

/-- The front entry was handed over whole. -/
def pop (source : RedbSource) (key : Bytes) (rest : List Bytes) : RedbSource :=
  { source with
    pending := some rest
    current := none
    yielded := if source.consume then source.yielded ++ [key] else source.yielded }

/-- The loop of `next_batch` from where no entry is being decoded, one fault per entry it opens. -/
def readOn (config : RedbConfig) (transformer : Transformer) (table : RedbTable) :
    RedbSource → List Bytes → List (Option (Nat × SaciError)) → RedbSource × NextBatch
  | source, [], _ => ({ source with open_ := false, pending := some [], current := none }, .eof)
  | source, key :: rest, faults =>
    let source := { source with pending := some (key :: rest), current := none }
    if source.open_ then
      match table.get key with
      | none =>
        (source, .error <| .generic <|
          s!"RedbSource: entry '{keyText key}' vanished from table '{config.table}' in " ++
          s!"{config.path}")
      | some value =>
        match openEntry transformer value (faults.head?.getD none) with
        | ⟨batch :: batches, error⟩ =>
          ({ source with current := some ⟨batches, error⟩ }, .batch batch)
        | ⟨[], some e⟩ => (source, .error e)
        | ⟨[], none⟩ => readOn config transformer table (source.pop key rest) rest faults.tail
    else (source, .panicked)

/-- `next_batch` once the table has been scanned. -/
def nextOfPending (config : RedbConfig) (transformer : Transformer) (table : RedbTable)
    (source : RedbSource) (pending : List Bytes) (faults : List (Option (Nat × SaciError))) :
    RedbSource × NextBatch :=
  match source.current with
  | some ⟨batch :: batches, error⟩ =>
    ({ source with current := some ⟨batches, error⟩ }, .batch batch)
  | some ⟨[], some e⟩ => ({ source with current := none }, .error e)
  | some ⟨[], none⟩ =>
    match pending with
    | [] => readOn config transformer table source [] faults
    | key :: rest => readOn config transformer table (source.pop key rest) rest faults
  | none => readOn config transformer table source pending faults

/-- `next_batch`. -/
def nextBatch (config : RedbConfig) (transformer : Transformer) (source : RedbSource)
    (table : RedbTable) (locked : Bool) (scanFault : Option SaciError)
    (faults : List (Option (Nat × SaciError))) : RedbSource × NextBatch :=
  match source.pending with
  | some pending => source.nextOfPending config transformer table pending faults
  | none =>
    match source.scan config table locked scanFault with
    | .error e => (source, .error e)
    | .ok scanned =>
      scanned.nextOfPending config transformer table (collectKeys config table) faults

/-- `finish`: delete what was yielded, in one transaction. -/
def finish (config : RedbConfig) (source : RedbSource) (table : RedbTable) (locked : Bool)
    (fault : Option SaciError) : RedbSource × RedbTable × SaciResult Unit :=
  if source.yielded.isEmpty then (source, table, .ok ())
  else
    let source := { source with open_ := false, current := none }
    match fault with
    | some e => (source, table, .error e)
    | none =>
      if locked then
        (source, table, .error <| .generic <|
          s!"RedbSource: consuming {source.yielded.length} entries of table '{config.table}' in " ++
          s!"{config.path}: {alreadyOpen}")
      else
        ({ source with yielded := [] }, source.yielded.foldl Table.remove table, .ok ())

end RedbSource
end Saci
