import Saci.Connectors.BinlogCycle
import Saci.Library.BigEndian
import Mathlib.Data.Finset.Sort
import Mathlib.Data.Prod.Lex
import Mathlib.Data.String.Basic
import Mathlib.Order.WithBot

/-!
# GTID sets as text

The text form of a `GtidSet` and its wire form (`saci-connector-mariadb/src/source/gtid.rs`): printing it,
reading it back, and the `Sid` blocks of a dump request. A text is the list of its characters; where the
source counts bytes, a text that is not ASCII is refused either way.
-/

namespace Saci.Mariadb

open Intervals Text

/-! ## The order of the groups -/

/-- No tag sorts before every tag. -/
def tagKey : Option String → WithBot String
  | none => ⊥
  | some tag => (tag : WithBot String)

theorem tagKey_injective : Function.Injective tagKey := by
  intro tag tag' h
  cases tag <;> cases tag'
  · rfl
  · exact absurd h WithBot.bot_ne_coe
  · exact absurd h WithBot.coe_ne_bot
  · exact congrArg some (WithBot.coe_injective h)

/-- By UUID, and of one UUID the untagged group first. -/
def GtidGroup.key (group : GtidGroup) : List UInt8 ×ₗ WithBot String :=
  toLex (group.1.toList, tagKey group.2)

theorem GtidGroup.key_injective : Function.Injective GtidGroup.key := by
  rintro ⟨uuid, tag⟩ ⟨uuid', tag'⟩ h
  obtain ⟨huuid, htag⟩ := Prod.mk.inj h
  exact Prod.ext (Vector.toList_inj.mp huuid) (tagKey_injective htag)

/-- The order of the map's keys. -/
def GtidGroup.le (a b : GtidGroup) : Prop := a.key ≤ b.key

instance : DecidableRel GtidGroup.le := fun a b => inferInstanceAs (Decidable (a.key ≤ b.key))

instance : IsTrans GtidGroup GtidGroup.le := ⟨fun a b c (h : a.key ≤ b.key) (h' : b.key ≤ c.key) => h.trans h'⟩

instance : Std.Antisymm GtidGroup.le :=
  ⟨fun a b (h : a.key ≤ b.key) (h' : b.key ≤ a.key) => GtidGroup.key_injective (h.antisymm h')⟩

instance : Std.Total GtidGroup.le := ⟨fun a b => le_total a.key b.key⟩

namespace GtidSet

/-- The groups and their intervals, in order. -/
def entries (set : GtidSet) : List (GtidGroup × List Interval) :=
  (set.groups.keys.sort GtidGroup.le).map fun group => (group, set.intervals group)

end GtidSet

/-! ## Printing -/

def decimal (n : Nat) : List Char := Nat.toDigits 10 n

/-- One interval of an entry. -/
def intervalText (i : Interval) : List Char :=
  if i.1 = i.2 then decimal i.1 else decimal i.1 ++ '-' :: decimal i.2

/-- The groups behind what is already printed; a group of the UUID printed last goes on with its entry. -/
def displayFrom : Option Uuid → List (GtidGroup × List Interval) → List Char
  | _, [] => []
  | previous, ((uuid, tag), intervals) :: rest =>
    (if previous = some uuid then []
      else (if previous.isSome then [','] else []) ++ (formatUuid uuid).toList) ++
    (tag.elim [] fun tag => ':' :: tag.toList) ++
    (intervals.flatMap fun i => ':' :: intervalText i) ++
    displayFrom (some uuid) rest

/-- `Display`. -/
def GtidSet.display (set : GtidSet) : List Char := displayFrom none set.entries

/-! ## Reading -/

def hexValue (c : Char) : Option UInt8 :=
  if c.isDigit then some (UInt8.ofNat (c.toNat - '0'.toNat))
  else if 'a' ≤ c ∧ c ≤ 'f' then some (UInt8.ofNat (c.toNat - 'a'.toNat + 10))
  else if 'A' ≤ c ∧ c ≤ 'F' then some (UInt8.ofNat (c.toNat - 'A'.toNat + 10))
  else none

/-- The bytes that pairs of digits spell. -/
def hexBytes : List Char → Option (List UInt8)
  | hi :: lo :: digits => do
    let hi ← hexValue hi
    let lo ← hexValue lo
    return (hi <<< 4 ||| lo) :: (← hexBytes digits)
  | _ => some []

/-- Where the hyphens are. -/
def hyphens (text : List Char) : List Nat :=
  text.zipIdx.filterMap fun (c, i) => if c = '-' then some i else none

/-- 32 hex digits, hyphenated or not, in either case. -/
def parseUuid (text : List Char) : Except String Uuid :=
  let bad := s!"'{String.ofList text}' is not a UUID"
  let digits := text.filter (· ≠ '-')
  if digits.length ≠ 32 ∨ 4 < text.length - digits.length then .error bad
  else if '-' ∈ text ∧ hyphens text ≠ [8, 13, 18, 23] then .error bad
  else
    match hexBytes digits with
    | none => .error bad
    | some bytes => .ok (Vector.ofFn fun i => bytes.getD i 0)

theorem checkGno_eq_ok_iff {gno : Nat} {u : Unit} : checkGno gno = .ok u ↔ 1 ≤ gno ∧ gno ≤ MAX_GNO := by
  rw [checkGno]
  split_ifs with h
  · exact iff_of_false nofun (by omega)
  · exact iff_of_true rfl (by omega)

/-- An inclusive range of transaction numbers. -/
structure GnoRange where
  start : Nat
  stop : Nat
  one_le : 1 ≤ start
  start_le : start ≤ stop
  le_max : stop ≤ MAX_GNO

/-- One number of a segment. -/
def parseNumber (segment text : List Char) : Except String { n // 1 ≤ n ∧ n ≤ MAX_GNO } :=
  match parseU64 text with
  | none => .error s!"'{String.ofList segment}' is not a transaction number or range"
  | some n =>
    match h : checkGno n with
    | .error e => .error e
    | .ok _ => .ok ⟨n, checkGno_eq_ok_iff.mp h⟩

/-- `n` or `n-m`, both inclusive and within `1..=MAX_GNO`. -/
def parseInterval (segment : List Char) : Except String GnoRange :=
  match splitOnce '-' segment with
  | none => do
    let n ← parseNumber segment segment
    return ⟨n.1, n.1, n.2.1, le_rfl, n.2.2⟩
  | some (start, stop) => do
    let start ← parseNumber segment start
    let stop ← parseNumber segment stop
    if h : stop.1 < start.1 then .error s!"range '{String.ofList segment}' ends before it starts"
    else .ok ⟨start.1, stop.1, start.2.1, not_lt.mp h, stop.2.2⟩

/-- The set with the transactions of a range more. -/
def GtidSet.addRange (set : GtidSet) (group : GtidGroup) (range : GnoRange) : GtidSet where
  groups := set.groups.insert group (Intervals.addRange (set.intervals group) range.start range.stop)
  canonical := set.canonical_insert group range.start_le

/-- What the segments read so far come to. -/
structure EntryState where
  set : GtidSet
  tag : Option String
  /-- Whether the current group has received an interval yet. -/
  intervalSeen : Bool
  any : Bool

def noTransactions (tag : Option String) : String :=
  let tag := tag.getD ""
  s!"tag '{tag}' has no transactions"

/-- Whether a segment is a tag, by its first character. -/
def startsTag (c : Char) : Bool := 'a' ≤ c ∧ c ≤ 'z' ∨ c = '_'

/-- One segment behind the UUID. -/
def parseSegment (uuid : Uuid) (entry : List Char) (state : EntryState) (segment : List Char) :
    Except String EntryState :=
  match segment.head? with
  | none => .error s!"empty segment in entry '{String.ofList entry}'"
  | some c =>
    if startsTag c then
      if !state.intervalSeen then .error (noTransactions state.tag)
      else do
        let tag ← checkTag (String.ofList segment)
        return { state with tag := some tag, intervalSeen := false, any := true }
    else do
      let range ← parseInterval segment
      return { state with set := state.set.addRange (uuid, state.tag) range, intervalSeen := true, any := true }

/-- The end of an entry. -/
def EntryState.finish (entry : List Char) (state : EntryState) : Except String GtidSet :=
  if !state.any then .error s!"entry '{String.ofList entry}' has no transaction numbers"
  else if !state.intervalSeen then .error (noTransactions state.tag)
  else .ok state.set

/-- Parse one `uuid:...` entry into the set. -/
def parseEntry (set : GtidSet) (entry : List Char) : Except String GtidSet := do
  let segments := entry.splitOn ':'
  let uuid ← parseUuid (segments.headD [])
  let state ← segments.tail.foldlM (parseSegment uuid entry) ⟨set, none, true, false⟩
  state.finish entry

/-- `from_str`. -/
def parseGtidSet (text : List Char) : Except String GtidSet :=
  let compact := text.filter fun c => !isWhitespace c
  if compact.isEmpty then .ok ∅
  else
    (compact.splitOn ',').foldlM (fun set entry =>
      (parseEntry set entry).mapError fun e => s!"invalid GTID set '{String.ofList compact}': {e}") ∅

/-! ## The wire form -/

/-- Transaction numbers from the first to before the second. -/
structure GnoInterval where
  start : Nat
  stop : Nat
  deriving DecidableEq

/-- One block of a binlog dump request. -/
structure Sid where
  uuid : Uuid
  tag : Option String
  intervals : List GnoInterval
  deriving DecidableEq

/-- `to_sids`. -/
def GtidSet.toSids (set : GtidSet) : List Sid :=
  set.entries.map fun ((uuid, tag), intervals) =>
    ⟨uuid, tag, intervals.map fun (start, stop) => ⟨start, stop + 1⟩⟩

end Saci.Mariadb
