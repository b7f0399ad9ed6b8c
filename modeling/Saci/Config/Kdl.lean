import Mathlib
import Saci.Core.Error

/-!
# Configuration documents

How a parsed KDL document becomes a value (`saci-config/src/lib.rs`, `extend_with_document` to
`line_column`). The parser is outside: a document is what it hands over. An error tells where it is
by the line and column of an offset into the text.
-/

namespace Saci.Kdl

/-! ## Documents -/

/-- A scalar. A float is its bits. -/
inductive KdlValue
  | string (text : String)
  | bool (flag : Bool)
  | integer (number : Int)
  | float (bits : UInt64)
  | null
  deriving DecidableEq

/-- An argument, or a property when it has a name. -/
structure KdlEntry where
  ty : Option String
  name : Option String
  value : KdlValue
  offset : Nat
  deriving DecidableEq

/-- A node. Its children are a block of their own, which may be empty. -/
inductive KdlNode
  | mk (ty : Option String) (name : String) (entries : List KdlEntry)
      (children : Option (List KdlNode)) (offset : Nat)

namespace KdlNode

def ty : KdlNode → Option String
  | mk ty _ _ _ _ => ty

def name : KdlNode → String
  | mk _ name _ _ _ => name

def entries : KdlNode → List KdlEntry
  | mk _ _ entries _ _ => entries

def children : KdlNode → Option (List KdlNode)
  | mk _ _ _ children _ => children

def offset : KdlNode → Nat
  | mk _ _ _ _ offset => offset

end KdlNode

/-! ## Values -/

/-- `serde_json::Number`. -/
inductive Number
  | posInt (n : UInt64)
  | negInt (n : Int64)
  | float (bits : UInt64)
  deriving DecidableEq

/-- `serde_json::Value`. An object is its entries, in the order of their insertion. -/
inductive ConfigValue
  | null
  | bool (flag : Bool)
  | number (n : Number)
  | string (text : String)
  | array (elements : List ConfigValue)
  | object (entries : List (String × ConfigValue))

abbrev ConfigMap := List (String × ConfigValue)

namespace ConfigMap

def containsKey (table : ConfigMap) (key : String) : Bool := table.any (·.1 = key)

/-- An entry of that key is overwritten. -/
def insert (table : ConfigMap) (key : String) (value : ConfigValue) : ConfigMap :=
  if table.containsKey key then
    table.map fun entry => if entry.1 = key then (key, value) else entry
  else table ++ [(key, value)]

end ConfigMap

/-! ## Errors -/

/-- The loop of `line_column` over the characters that are left. -/
def lineColumnFrom (offset index line column : Nat) : List Char → Nat × Nat
  | [] => (line, column)
  | ch :: chars =>
    if index ≥ offset then (line, column)
    else if ch = '\n' then lineColumnFrom offset (index + ch.utf8Size) (line + 1) 1 chars
    else lineColumnFrom offset (index + ch.utf8Size) line (column + 1) chars

def lineColumn (input : String) (offset : Nat) : Nat × Nat :=
  lineColumnFrom offset 0 1 1 input.toList

section
variable (input : String)

def configError (position : Nat) (message : String) : SaciError :=
  let (line, column) := lineColumn input position
  .configuration s!"parsing KDL: {line}:{column}: {message}"

def duplicateKey (owner key : String) (position : Nat) : SaciError :=
  configError input position (owner ++ ": duplicate key \"" ++ key ++ "\"")

/-- A type annotation on a node or an entry. -/
def annotated (owner ty : String) (position : Nat) : SaciError :=
  configError input position s!"{owner}: type annotation '({ty})' is not a configuration value"

/-! ## Scalars -/

/-- The exponent is not the one of infinities and NaNs. -/
def isFinite (bits : UInt64) : Bool := (bits.toNat / 2 ^ 52) % 2 ^ 11 ≠ 2 ^ 11 - 1

/-- The text of a float that is not finite. -/
def nonFinite (bits : UInt64) : String :=
  if bits.toNat % 2 ^ 52 ≠ 0 then "NaN" else if bits.toNat ≥ 2 ^ 63 then "-inf" else "inf"

def integerToValue (number : Int) (owner : String) (position : Nat) : SaciResult ConfigValue :=
  if -2 ^ 63 ≤ number ∧ number < 2 ^ 63 then
    -- `Number::from` keeps what is not negative as an unsigned number
    .ok (.number (if 0 ≤ number then .posInt (.ofNat number.toNat) else .negInt (.ofInt number)))
  else if 0 ≤ number ∧ number < 2 ^ 64 then .ok (.number (.posInt (.ofNat number.toNat)))
  else .error (configError input position s!"{owner}: integer '{number}' does not fit in 64 bits")

def scalarToValue (owner : String) (entry : KdlEntry) : SaciResult ConfigValue :=
  match entry.value with
  | .string text => .ok (.string text)
  | .bool flag => .ok (.bool flag)
  | .integer number => integerToValue input number owner entry.offset
  | .float bits =>
    if isFinite bits then .ok (.number (.float bits))
    else .error (configError input entry.offset
      s!"{owner}: float '{nonFinite bits}' is not representable in configuration")
  | .null => .error (configError input entry.offset
      s!"{owner}: #null is not a configuration value; omit the key instead")

/-! ## Nodes -/

/-- The loop over a node's entries: its arguments and its properties. -/
def splitEntries (owner : String) (arguments : List KdlEntry) (properties : List (String × KdlEntry)) :
    List KdlEntry → SaciResult (List KdlEntry × List (String × KdlEntry))
  | [] => .ok (arguments, properties)
  | entry :: entries =>
    match entry.ty with
    | some ty => .error (annotated input owner ty entry.offset)
    | none =>
      match entry.name with
      | none => splitEntries owner (arguments ++ [entry]) properties entries
      | some key => splitEntries owner arguments (properties ++ [(key, entry)]) entries

/-- What a node with arguments only holds. -/
def argumentsToValue (owner : String) : List KdlEntry → SaciResult ConfigValue
  | [] => .ok (.object [])
  | [argument] => scalarToValue input owner argument
  | arguments => return .array (← arguments.mapM (scalarToValue input owner))

/-- The table of a node with properties or children: its leading argument is stored under `id`. -/
def insertId (owner : String) : List KdlEntry → SaciResult ConfigMap
  | [] => .ok []
  | argument :: _ => return ConfigMap.insert [] "id" (← scalarToValue input owner argument)

/-- The loop over a node's properties. -/
def insertProperties (owner : String) (table : ConfigMap) :
    List (String × KdlEntry) → SaciResult ConfigMap
  | [] => .ok table
  | (key, entry) :: properties =>
    if table.containsKey key then .error (duplicateKey input owner key entry.offset)
    else do
      let value ← scalarToValue input owner entry
      insertProperties owner (table.insert key value) properties

/-- The values of the nodes of one name so far, and where its first node is. -/
abbrev Group := String × List ConfigValue × Nat

/-- A node's value goes to the group of its name. -/
def addToGroups (name : String) (value : ConfigValue) (offset : Nat) : List Group → List Group
  | [] => [(name, [value], offset)]
  | (key, values, first) :: groups =>
    if key = name then (key, values ++ [value], first) :: groups
    else (key, values, first) :: addToGroups name value offset groups

/-- One node is its value, several are an array. -/
def collapse : List ConfigValue → ConfigValue
  | [single] => single
  | many => .array many

/-- The loop over the groups. -/
def insertGroups (owner : String) (table : ConfigMap) : List Group → SaciResult ConfigMap
  | [] => .ok table
  | (name, values, offset) :: groups =>
    if table.containsKey name then .error (duplicateKey input owner name offset)
    else insertGroups owner (table.insert name (collapse values)) groups

mutual

def nodeToValue : KdlNode → SaciResult ConfigValue
  | .mk ty name entries children offset =>
    let owner := "node \"" ++ name ++ "\""
    match ty with
    | some ty => .error (annotated input owner ty offset)
    | none => do
      let (arguments, properties) ← splitEntries input owner [] [] entries
      if properties.isEmpty ∧ children.isNone then
        argumentsToValue input owner arguments
      else if arguments.length > 1 then
        .error (configError input offset (s!"{owner}: a node with properties or children takes at " ++
          s!"most one leading argument, found {arguments.length}"))
      else do
        let table ← insertId input owner arguments
        let table ← insertProperties input owner table properties
        match children with
        | none => return .object table
        | some document => do
          let groups ← groupNodes [] document
          let table ← insertGroups input owner table groups
          return .object table

/-- The first loop of `extend_with_document`. -/
def groupNodes (groups : List Group) : List KdlNode → SaciResult (List Group)
  | [] => .ok groups
  | node :: nodes => do
    let value ← nodeToValue node
    groupNodes (addToGroups node.name value node.offset groups) nodes

end

def extendWithDocument (table : ConfigMap) (document : List KdlNode) (owner : String) :
    SaciResult ConfigMap := do
  let groups ← groupNodes input [] document
  insertGroups input owner table groups

/-- `from_kdl_str`, after the parser. -/
def fromDocument (document : List KdlNode) : SaciResult ConfigValue := do
  let table ← extendWithDocument input [] document "document"
  return .object table

end

end Saci.Kdl
