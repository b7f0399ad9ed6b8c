import Saci.Library.Grouping
import Saci.Config.Kdl

/-!
# Places

Where things stand in a value (`ConfigValue.spots`), and where a document's arguments, properties
and children have to stand in the value it becomes (`documentPlaces`), which is read off the
document alone. A place is a path from the outermost table.
-/

namespace Saci.Kdl

/-- Into an entry of a table, or into an element of an array. -/
inductive Step
  | key (name : String)
  | index (i : Nat)
  deriving DecidableEq

/-- What stands at a place. A number is its value, or the bits of a float. -/
inductive Found
  | null
  | bool (flag : Bool)
  | integer (number : Int)
  | float (bits : UInt64)
  | string (text : String)
  | array
  | table
  deriving DecidableEq

/-- Places and what stands there. -/
abbrev Spots := List (List Step × Found)

/-- The same one step further down. -/
def under (step : Step) (spots : Spots) : Spots := spots.map fun spot => (step :: spot.1, spot.2)

/-- The elements of an array, from a position on. -/
def indexed (i : Nat) : List Spots → Spots
  | [] => []
  | spots :: rest => under (.index i) spots ++ indexed (i + 1) rest

/-- The entries of a table. -/
def keyed (entries : List (String × Spots)) : Spots :=
  entries.flatMap fun entry => under (.key entry.1) entry.2

/-! ## Places of a value -/

def Number.found : Number → Found
  | .posInt n => .integer n.toNat
  | .negInt n => .integer n.toInt
  | .float bits => .float bits

mutual

/-- All places of a value, its own first. -/
def ConfigValue.spots : ConfigValue → Spots
  | .null => [([], .null)]
  | .bool flag => [([], .bool flag)]
  | .number n => [([], n.found)]
  | .string text => [([], .string text)]
  | .array elements => ([], .array) :: indexed 0 (spotsEach elements)
  | .object entries => ([], .table) :: keyed (spotsOf entries)

def spotsEach : List ConfigValue → List Spots
  | [] => []
  | value :: values => value.spots :: spotsEach values

def spotsOf : List (String × ConfigValue) → List (String × Spots)
  | [] => []
  | (key, value) :: entries => (key, value.spots) :: spotsOf entries

end

theorem spotsEach_eq (values : List ConfigValue) :
    spotsEach values = values.map ConfigValue.spots := by
  induction values with
  | nil => rfl
  | cons value values ih => exact congrArg (value.spots :: ·) ih

theorem spotsOf_eq (entries : List (String × ConfigValue)) :
    spotsOf entries = entries.map fun entry => (entry.1, entry.2.spots) := by
  induction entries with
  | nil => rfl
  | cons entry entries ih => exact congrArg ((entry.1, entry.2.spots) :: ·) ih

@[simp] theorem spots_array (elements : List ConfigValue) :
    (ConfigValue.array elements).spots =
      ([], .array) :: indexed 0 (elements.map ConfigValue.spots) :=
  congrArg (fun each => ([], Found.array) :: indexed 0 each) (spotsEach_eq elements)

@[simp] theorem spots_object (entries : List (String × ConfigValue)) :
    (ConfigValue.object entries).spots =
      ([], .table) :: keyed (entries.map fun entry => (entry.1, entry.2.spots)) :=
  congrArg (fun each => ([], Found.table) :: keyed each) (spotsOf_eq entries)

/-! ## Places of a document -/

/-- What a scalar is to be found as. -/
def KdlValue.found : KdlValue → Found
  | .string text => .string text
  | .bool flag => .bool flag
  | .integer number => .integer number
  | .float bits => .float bits
  | .null => .null

/-- The entries without a name. -/
def arguments (entries : List KdlEntry) : List KdlEntry :=
  entries.filter fun entry => entry.name.isNone

/-- The entries with a name. -/
def properties (entries : List KdlEntry) : List (String × KdlEntry) :=
  entries.filterMap fun entry => entry.name.map (·, entry)

def KdlEntry.places (entry : KdlEntry) : Spots := [([], entry.value.found)]

/-- One alone, or several as the elements of an array. -/
def collapsed : List Spots → Spots
  | [single] => single
  | many => ([], .array) :: indexed 0 many

/-- Nodes of one name stand together under it, in document order. -/
def siblings (nodes : List (String × Spots)) : List (String × Spots) :=
  (Grouping.groups nodes).map fun group => (group.1, collapsed group.2)

/-- A node with arguments only: nothing, a scalar or an array of scalars. -/
def plainPlaces (entries : List KdlEntry) : Spots :=
  match arguments entries with
  | [] => [([], .table)]
  | arguments => collapsed (arguments.map KdlEntry.places)

/-- The entries of a node's table: an argument under `id`, properties under their keys, and the
children. -/
def placedEntries (entries : List KdlEntry) (children : List (String × Spots)) :
    List (String × Spots) :=
  (arguments entries).map (fun argument => ("id", argument.places)) ++
    (properties entries).map (fun property => (property.1, property.2.places)) ++ siblings children

def tablePlaces (entries : List KdlEntry) (children : List (String × Spots)) : Spots :=
  ([], .table) :: keyed (placedEntries entries children)

mutual

/-- The places of a node's arguments, properties and children, from its own on. -/
def KdlNode.places : KdlNode → Spots
  | .mk _ _ entries none _ =>
    if properties entries = [] then plainPlaces entries else tablePlaces entries []
  | .mk _ _ entries (some document) _ => tablePlaces entries (placesEach document)

def placesEach : List KdlNode → List (String × Spots)
  | [] => []
  | node :: nodes => (node.name, node.places) :: placesEach nodes

end

/-- The places of a whole document. -/
def documentPlaces (document : List KdlNode) : Spots :=
  ([], .table) :: keyed (siblings (placesEach document))

theorem placesEach_eq (nodes : List KdlNode) :
    placesEach nodes = nodes.map fun node => (node.name, node.places) := by
  induction nodes with
  | nil => rfl
  | cons node nodes ih => exact congrArg ((node.name, node.places) :: ·) ih

theorem places_of_plain {node : KdlNode} (hprops : properties node.entries = [])
    (hchildren : node.children = none) : node.places = plainPlaces node.entries := by
  obtain ⟨ty, name, entries, children, offset⟩ := node
  cases hchildren
  exact if_pos hprops

theorem places_of_table {node : KdlNode}
    (h : properties node.entries ≠ [] ∨ node.children ≠ none) :
    node.places = tablePlaces node.entries
      ((node.children.getD []).map fun child => (child.name, child.places)) := by
  obtain ⟨ty, name, entries, children, offset⟩ := node
  cases children with
  | none => exact if_neg (h.resolve_right fun hne => hne rfl)
  | some document => exact congrArg (tablePlaces entries) (placesEach_eq document)

/-! ## Distinct places -/

/-- No place is taken twice. -/
def Distinct (spots : Spots) : Prop := (spots.map Prod.fst).Nodup

theorem distinct_singleton (spot : List Step × Found) : Distinct [spot] := List.nodup_singleton _

theorem mem_under {step : Step} {spots : Spots} {path : List Step} :
    path ∈ (under step spots).map Prod.fst ↔ ∃ rest ∈ spots.map Prod.fst, path = step :: rest := by
  simp [under, eq_comm]

theorem Distinct.under {spots : Spots} (h : Distinct spots) (step : Step) :
    Distinct (under step spots) := by
  have hmap : (Kdl.under step spots).map Prod.fst = (spots.map Prod.fst).map (step :: ·) := by
    simp [Kdl.under]
  unfold Distinct
  rw [hmap]
  exact List.Nodup.map (List.cons_injective) h

theorem mem_indexed {i : Nat} {many : List Spots} {path : List Step}
    (h : path ∈ (indexed i many).map Prod.fst) : ∃ j rest, i ≤ j ∧ path = .index j :: rest := by
  induction many generalizing i with
  | nil => cases h
  | cons spots many ih =>
    rw [indexed, List.map_append, List.mem_append] at h
    rcases h with h | h
    · obtain ⟨rest, -, rfl⟩ := mem_under.mp h
      exact ⟨i, rest, Nat.le_refl i, rfl⟩
    · obtain ⟨j, rest, hle, rfl⟩ := ih h
      exact ⟨j, rest, Nat.le_of_succ_le hle, rfl⟩

theorem distinct_indexed {many : List Spots} (h : ∀ spots ∈ many, Distinct spots) (i : Nat) :
    Distinct (indexed i many) := by
  induction many generalizing i with
  | nil => exact List.nodup_nil
  | cons spots many ih =>
    obtain ⟨hhead, htail⟩ := List.forall_mem_cons.mp h
    unfold Distinct
    rw [indexed, List.map_append]
    refine List.Nodup.append (hhead.under _) (ih htail (i + 1)) fun path hpath hpath' => ?_
    obtain ⟨rest, -, rfl⟩ := mem_under.mp hpath
    obtain ⟨j, rest', hle, heq⟩ := mem_indexed hpath'
    cases heq
    omega

theorem mem_keyed {entries : List (String × Spots)} {path : List Step}
    (h : path ∈ (keyed entries).map Prod.fst) :
    ∃ name rest, name ∈ entries.map Prod.fst ∧ path = .key name :: rest := by
  obtain ⟨spot, hspot, rfl⟩ := List.mem_map.mp h
  obtain ⟨entry, hentry, hunder⟩ := List.mem_flatMap.mp hspot
  obtain ⟨rest, -, heq⟩ := mem_under.mp (List.mem_map_of_mem hunder)
  exact ⟨entry.1, rest, List.mem_map_of_mem hentry, heq⟩

theorem distinct_keyed {entries : List (String × Spots)} (hkeys : (entries.map Prod.fst).Nodup)
    (h : ∀ entry ∈ entries, Distinct entry.2) : Distinct (keyed entries) := by
  induction entries with
  | nil => exact List.nodup_nil
  | cons entry entries ih =>
    obtain ⟨hfresh, hkeys⟩ := List.nodup_cons.mp hkeys
    obtain ⟨hhead, htail⟩ := List.forall_mem_cons.mp h
    unfold Distinct
    rw [keyed, List.flatMap_cons, List.map_append]
    refine List.Nodup.append (hhead.under _) (ih hkeys htail) fun path hpath hpath' => ?_
    obtain ⟨rest, -, rfl⟩ := mem_under.mp hpath
    obtain ⟨name, rest', hname, heq⟩ := mem_keyed hpath'
    cases heq
    exact hfresh hname

/-- The place of an array or a table itself is none of the places inside it. -/
theorem Distinct.cons {spots : Spots} {found : Found} (h : Distinct spots)
    (hne : [] ∉ spots.map Prod.fst) : Distinct (([], found) :: spots) :=
  List.nodup_cons.mpr ⟨hne, h⟩

theorem distinct_collapsed {many : List Spots} (h : ∀ spots ∈ many, Distinct spots) :
    Distinct (collapsed many) := by
  unfold collapsed
  split
  · next single => exact h single List.mem_cons_self
  · refine (distinct_indexed h 0).cons fun hmem => ?_
    obtain ⟨j, rest, -, heq⟩ := mem_indexed hmem
    cases heq

theorem distinct_table {entries : List (String × Spots)} (hkeys : (entries.map Prod.fst).Nodup)
    (h : ∀ entry ∈ entries, Distinct entry.2) : Distinct (([], .table) :: keyed entries) := by
  refine (distinct_keyed hkeys h).cons fun hmem => ?_
  obtain ⟨name, rest, -, heq⟩ := mem_keyed hmem
  cases heq

theorem fst_siblings (nodes : List (String × Spots)) :
    (siblings nodes).map Prod.fst = (nodes.map Prod.fst).eraseDups := by
  unfold siblings
  rw [List.map_map]
  exact Grouping.fst_groups nodes

theorem distinct_siblings {nodes : List (String × Spots)} (h : ∀ node ∈ nodes, Distinct node.2) :
    ∀ entry ∈ siblings nodes, Distinct entry.2 := by
  unfold siblings Grouping.groups
  rw [List.map_map]
  refine List.forall_mem_map.mpr fun name _ => distinct_collapsed fun spots hspots => ?_
  exact h _ (Grouping.mem_of_mem_valuesOf hspots)

end Saci.Kdl
