import Mathlib.Data.List.Forall2
import Saci.Config.KdlPlaces

/-!
# Nothing is dropped

A document is either refused or becomes a value in which everything stands at its place. One lemma
for each function of the mapping says when it succeeds and what it adds; a node is then settled from
its children (`KdlNode.induct`).
-/

namespace Saci.Kdl

/-- A scalar that a value can hold. -/
def KdlValue.Representable : KdlValue → Prop
  | .string _ => True
  | .bool _ => True
  | .integer number => -2 ^ 63 ≤ number ∧ number < 2 ^ 64
  | .float bits => isFinite bits
  | .null => False

namespace KdlNode

/-- The nodes of the children block. -/
def document (node : KdlNode) : List KdlNode := node.children.getD []

/-- The node has properties or a children block. -/
def IsTable (node : KdlNode) : Prop := properties node.entries ≠ [] ∨ node.children ≠ none

/-- The keys of a node's table: `id`, its properties, and the names of its children. -/
def claims (node : KdlNode) : List String :=
  (arguments node.entries).map (fun _ => "id") ++ (properties node.entries).map Prod.fst ++
    (node.document.map KdlNode.name).eraseDups

/-- Why a node is refused, whatever its children are. -/
inductive Fault (node : KdlNode) : Prop
  | annotated (h : node.ty ≠ none)
  | entryAnnotated (entry : KdlEntry) (hentry : entry ∈ node.entries) (h : entry.ty ≠ none)
  | notRepresentable (entry : KdlEntry) (hentry : entry ∈ node.entries)
      (h : ¬entry.value.Representable)
  | tooManyArguments (htable : node.IsTable) (h : 2 ≤ (arguments node.entries).length)
  | claimedTwice (htable : node.IsTable) (h : ¬node.claims.Nodup)

end KdlNode

mutual

/-- What holds of a node when it holds of its children holds of all nodes. -/
theorem KdlNode.induct {P : KdlNode → Prop}
    (h : ∀ node : KdlNode, (∀ child ∈ node.document, P child) → P node) : ∀ node, P node
  | .mk _ _ _ none _ => h _ nofun
  | .mk _ _ _ (some document) _ => h _ (inductEach h document)

theorem inductEach {P : KdlNode → Prop}
    (h : ∀ node : KdlNode, (∀ child ∈ node.document, P child) → P node) :
    ∀ nodes : List KdlNode, ∀ node ∈ nodes, P node
  | [] => nofun
  | node :: nodes => List.forall_mem_cons.mpr ⟨KdlNode.induct h node, inductEach h nodes⟩

end

/-- A node of a document, at any depth. -/
inductive Within (node : KdlNode) : List KdlNode → Prop
  | direct {document : List KdlNode} (h : node ∈ document) : Within node document
  | deeper {document : List KdlNode} {parent : KdlNode} (hparent : parent ∈ document)
      (h : Within node parent.document) : Within node document

/-! ## Scalars -/

section
variable {input owner : String} {entry : KdlEntry} {value : ConfigValue}

/-- The number that an integer becomes. -/
def numberOf (number : Int) : Number :=
  if 0 ≤ number then .posInt (.ofNat number.toNat) else .negInt (.ofInt number)

theorem found_numberOf {number : Int} (hlo : -2 ^ 63 ≤ number) (hhi : number < 2 ^ 64) :
    (numberOf number).found = .integer number := by
  unfold numberOf
  split_ifs with hpos
  · have hvalue : (UInt64.ofNat number.toNat).toNat = number.toNat :=
      UInt64.toNat_ofNat_of_lt' (by simp only [UInt64.size]; omega)
    rw [Number.found, hvalue, Int.toNat_of_nonneg hpos]
  · have hvalue : (Int64.ofInt number).toInt = number :=
      Int64.toInt_ofInt_of_le (by omega) (by omega)
    rw [Number.found, hvalue]

theorem integerToValue_eq_ok_iff {number : Int} {position : Nat} :
    integerToValue input number owner position = .ok value ↔
      (-2 ^ 63 ≤ number ∧ number < 2 ^ 64) ∧ value = .number (numberOf number) := by
  have heq : integerToValue input number owner position =
      if -2 ^ 63 ≤ number ∧ number < 2 ^ 64 then .ok (.number (numberOf number))
      else .error (configError input position s!"{owner}: integer '{number}' does not fit in 64 bits") := by
    unfold integerToValue numberOf
    by_cases hsigned : -2 ^ 63 ≤ number ∧ number < 2 ^ 63
    · have hfits : -2 ^ 63 ≤ number ∧ number < 2 ^ 64 := by omega
      rw [if_pos hsigned, if_pos hfits]
    · rw [if_neg hsigned]
      by_cases hunsigned : 0 ≤ number ∧ number < 2 ^ 64
      · have hfits : -2 ^ 63 ≤ number ∧ number < 2 ^ 64 := by omega
        rw [if_pos hunsigned, if_pos hfits, if_pos hunsigned.1]
      · have hfits : ¬(-2 ^ 63 ≤ number ∧ number < 2 ^ 64) := by omega
        rw [if_neg hunsigned, if_neg hfits]
  rw [heq]
  split_ifs with hfits
  · rw [Except.ok.injEq]
    exact ⟨fun h => ⟨hfits, h.symm⟩, fun h => h.2.symm⟩
  · exact iff_of_false nofun fun h => hfits h.1

/-- A scalar is mapped when a value can hold it, and is found as it was. -/
theorem scalarToValue_of_representable (h : entry.value.Representable) :
    ∃ value, scalarToValue input owner entry = .ok value := by
  unfold scalarToValue
  cases hvalue : entry.value with
  | string text => exact ⟨_, rfl⟩
  | bool flag => exact ⟨_, rfl⟩
  | integer number =>
    rw [hvalue] at h
    exact ⟨_, integerToValue_eq_ok_iff.mpr ⟨h, rfl⟩⟩
  | float bits =>
    rw [hvalue] at h
    exact ⟨_, if_pos h⟩
  | null =>
    rw [hvalue] at h
    cases h

theorem scalarToValue_eq_ok (h : scalarToValue input owner entry = .ok value) :
    entry.value.Representable ∧ value.spots = entry.places := by
  unfold scalarToValue at h
  unfold KdlEntry.places
  cases hvalue : entry.value with
  | string text =>
    rw [hvalue] at h
    cases h
    exact ⟨trivial, rfl⟩
  | bool flag =>
    rw [hvalue] at h
    cases h
    exact ⟨trivial, rfl⟩
  | integer number =>
    rw [hvalue] at h
    obtain ⟨hfits, rfl⟩ := integerToValue_eq_ok_iff.mp h
    refine ⟨hfits, ?_⟩
    rw [ConfigValue.spots, found_numberOf hfits.1 hfits.2]
    rfl
  | float bits =>
    rw [hvalue] at h
    dsimp only at h
    split_ifs at h with hfinite
    cases h
    exact ⟨hfinite, rfl⟩
  | null =>
    rw [hvalue] at h
    cases h

end

/-! ## Tables -/

section
variable {table table' : ConfigMap} {key : String} {value : ConfigValue}

theorem containsKey_iff : table.containsKey key = true ↔ key ∈ table.map Prod.fst := by
  simp [ConfigMap.containsKey]

theorem insert_of_fresh (h : key ∉ table.map Prod.fst) :
    table.insert key value = table ++ [(key, value)] :=
  if_neg fun hcontains => h (containsKey_iff.mp hcontains)

theorem fresh_of_nodup {keys : List String} (h : (table.map Prod.fst ++ key :: keys).Nodup) :
    key ∉ table.map Prod.fst := fun hmem =>
  (List.disjoint_of_nodup_append h) hmem List.mem_cons_self

/-- Keys that are added one after the other. -/
theorem keys_append (table : ConfigMap) (key : String) (value : ConfigValue) (keys : List String) :
    (table ++ [(key, value)]).map Prod.fst ++ keys = table.map Prod.fst ++ key :: keys := by
  simp

/-- Keys that are added to those of a table: the first is fresh, and the others are added next. -/
theorem nodup_cons_iff (value : ConfigValue) (keys : List String) :
    (table.map Prod.fst ++ key :: keys).Nodup ↔
      key ∉ table.map Prod.fst ∧ ((table ++ [(key, value)]).map Prod.fst ++ keys).Nodup := by
  rw [keys_append]
  exact ⟨fun h => ⟨fresh_of_nodup h, h⟩, And.right⟩

theorem nodup_insert (htable : (table.map Prod.fst).Nodup) (hkey : key ∉ table.map Prod.fst)
    (value : ConfigValue) : ((table ++ [(key, value)]).map Prod.fst).Nodup := by
  rw [List.map_append, List.map_singleton, ← List.concat_eq_append]
  exact htable.concat hkey

end

section
variable {input owner : String} {table table' : ConfigMap}

theorem splitEntries_eq_ok_iff {as : List KdlEntry} {ps : List (String × KdlEntry)}
    {entries : List KdlEntry} {r : List KdlEntry × List (String × KdlEntry)} :
    splitEntries input owner as ps entries = .ok r ↔
      (∀ entry ∈ entries, entry.ty = none) ∧ r = (as ++ arguments entries, ps ++ properties entries) := by
  induction entries generalizing as ps with
  | nil =>
    have hnil : (as ++ arguments [], ps ++ properties []) = (as, ps) := by
      simp [arguments, properties]
    rw [hnil]
    exact ⟨fun h => ⟨nofun, (Except.ok.inj h).symm⟩, fun h => congrArg Except.ok h.2.symm⟩
  | cons entry entries ih =>
    rw [splitEntries, List.forall_mem_cons]
    cases hty : entry.ty with
    | some ty => exact iff_of_false nofun fun h => nomatch h.1.1
    | none =>
      cases hname : entry.name with
      | none =>
        have hargs : arguments (entry :: entries) = entry :: arguments entries :=
          List.filter_cons_of_pos (by rw [hname]; rfl)
        have hprops : properties (entry :: entries) = properties entries :=
          List.filterMap_cons_none (by rw [hname]; rfl)
        dsimp only
        rw [ih, hargs, hprops, List.append_assoc, List.singleton_append]
        simp
      | some key =>
        have hargs : arguments (entry :: entries) = arguments entries :=
          List.filter_cons_of_neg (by rw [hname]; exact Bool.false_ne_true)
        have hprops : properties (entry :: entries) = (key, entry) :: properties entries :=
          List.filterMap_cons_some (by rw [hname]; rfl)
        dsimp only
        rw [ih, hargs, hprops, List.append_assoc, List.singleton_append]
        simp

/-- The properties of a node are added when no key of theirs is taken. -/
theorem insertProperties_eq_ok_iff {props : List (String × KdlEntry)}
    (htable : (table.map Prod.fst).Nodup) :
    insertProperties input owner table props = .ok table' ↔
      (table.map Prod.fst ++ props.map Prod.fst).Nodup ∧ ∃ values,
        List.Forall₂ (fun prop value => scalarToValue input owner prop.2 = .ok value) props values ∧
          table' = table ++ List.zipWith (fun prop value => (prop.1, value)) props values := by
  induction props generalizing table with
  | nil =>
    rw [insertProperties, List.map_nil, List.append_nil]
    refine ⟨fun h => ⟨htable, [], .nil, ?_⟩, fun ⟨_, values, hvalues, heq⟩ => ?_⟩
    · cases h
      exact (List.append_nil _).symm
    · cases hvalues
      rw [heq, List.zipWith_nil_left, List.append_nil]
  | cons prop props ih =>
    obtain ⟨key, entry⟩ := prop
    rw [insertProperties, List.map_cons]
    by_cases hkey : key ∈ table.map Prod.fst
    · rw [if_pos (containsKey_iff.mpr hkey)]
      exact iff_of_false nofun fun h => fresh_of_nodup h.1 hkey
    · rw [if_neg fun h => hkey (containsKey_iff.mp h), bind_eq_ok_iff]
      constructor
      · rintro ⟨value, hvalue, hrest⟩
        rw [insert_of_fresh hkey] at hrest
        obtain ⟨hkeys, values, hvalues, heq⟩ := (ih (nodup_insert htable hkey value)).mp hrest
        refine ⟨(nodup_cons_iff value _).mpr ⟨hkey, hkeys⟩, value :: values, .cons hvalue hvalues, ?_⟩
        rw [heq, List.append_assoc, List.zipWith_cons_cons, List.singleton_append]
      · rintro ⟨hkeys, values, hvalues, heq⟩
        cases hvalues with
        | @cons _ value _ values hvalue hvalues =>
          refine ⟨value, hvalue, ?_⟩
          rw [insert_of_fresh hkey]
          have hkeys := ((nodup_cons_iff value _).mp hkeys).2
          refine (ih (nodup_insert htable hkey value)).mpr ⟨hkeys, values, hvalues, ?_⟩
          rw [heq, List.append_assoc, List.zipWith_cons_cons, List.singleton_append]

/-- The groups of children are added when no name of theirs is taken. -/
theorem insertGroups_eq_ok_iff {groups : List Group} (htable : (table.map Prod.fst).Nodup) :
    insertGroups input owner table groups = .ok table' ↔
      (table.map Prod.fst ++ groups.map Prod.fst).Nodup ∧
        table' = table ++ groups.map fun group => (group.1, collapse group.2.1) := by
  induction groups generalizing table with
  | nil =>
    rw [insertGroups, List.map_nil, List.map_nil, List.append_nil, List.append_nil]
    exact ⟨fun h => ⟨htable, (Except.ok.inj h).symm⟩, fun h => congrArg Except.ok h.2.symm⟩
  | cons group groups ih =>
    obtain ⟨key, values, offset⟩ := group
    rw [insertGroups, List.map_cons, List.map_cons]
    by_cases hkey : key ∈ table.map Prod.fst
    · rw [if_pos (containsKey_iff.mpr hkey)]
      exact iff_of_false nofun fun h => fresh_of_nodup h.1 hkey
    · rw [if_neg fun h => hkey (containsKey_iff.mp h), insert_of_fresh hkey,
        ih (nodup_insert htable hkey _), nodup_cons_iff (collapse values), List.append_assoc,
        List.singleton_append]
      exact ⟨fun h => ⟨⟨hkey, h.1⟩, h.2⟩, fun h => ⟨h.1.2, h.2⟩⟩

/-- The groups without the offsets of their first nodes. -/
def grouped (groups : List Group) : List (String × List ConfigValue) :=
  groups.map fun group => (group.1, group.2.1)

theorem grouped_addToGroups (name : String) (value : ConfigValue) (offset : Nat) (groups : List Group) :
    grouped (addToGroups name value offset groups) = Grouping.add name value (grouped groups) := by
  induction groups with
  | nil => rfl
  | cons group groups ih =>
    obtain ⟨key, values, first⟩ := group
    change grouped (if key = name then _ else _) = if key = name then _ else _
    split_ifs
    · rfl
    · exact congrArg ((key, values) :: ·) ih

/-- The groups after nodes with their values were added. -/
def addNodes (groups : List Group) (nodes : List (KdlNode × ConfigValue)) : List Group :=
  nodes.foldl (fun groups node => addToGroups node.1.name node.2 node.1.offset groups) groups

theorem groupNodes_eq_ok_iff {nodes : List KdlNode} {groups groups' : List Group} :
    groupNodes input groups nodes = .ok groups' ↔ ∃ values,
      List.Forall₂ (fun node value => nodeToValue input node = .ok value) nodes values ∧
        groups' = addNodes groups (nodes.zip values) := by
  induction nodes generalizing groups with
  | nil =>
    change Except.ok groups = .ok groups' ↔ _
    refine ⟨fun h => ⟨[], .nil, (Except.ok.inj h).symm⟩, fun ⟨_, hvalues, heq⟩ => ?_⟩
    cases hvalues
    exact congrArg Except.ok heq.symm
  | cons node nodes ih =>
    change (nodeToValue input node >>= _) = .ok groups' ↔ _
    rw [bind_eq_ok_iff]
    constructor
    · rintro ⟨value, hvalue, hrest⟩
      obtain ⟨values, hvalues, heq⟩ := ih.mp hrest
      exact ⟨value :: values, .cons hvalue hvalues, heq⟩
    · rintro ⟨values, hvalues, heq⟩
      cases hvalues with
      | cons hvalue hvalues => exact ⟨_, hvalue, ih.mpr ⟨_, hvalues, heq⟩⟩

/-- The nodes of a document are grouped by their names, each with its value. -/
theorem grouped_addNodes (nodes : List (KdlNode × ConfigValue)) :
    grouped (addNodes [] nodes) = Grouping.groups (nodes.map fun node => (node.1.name, node.2)) := by
  have hall : ∀ groups, grouped (addNodes groups nodes) =
      (nodes.map fun node => (node.1.name, node.2)).foldl
        (fun groups pair => Grouping.add pair.1 pair.2 groups) (grouped groups) := by
    induction nodes with
    | nil => exact fun _ => rfl
    | cons node nodes ih =>
      intro groups
      rw [addNodes, List.foldl_cons, ← addNodes, ih, grouped_addToGroups]
      rfl
  exact (hall []).trans (Grouping.foldl_add [] _)

/-- The entries that the nodes of a document add to a table. -/
def documentEntries (nodes : List KdlNode) (values : List ConfigValue) : ConfigMap :=
  (Grouping.groups ((nodes.zip values).map fun node => (node.1.name, node.2))).map
    fun group => (group.1, collapse group.2)

theorem names_of_forall₂ {R : KdlNode → ConfigValue → Prop} {nodes : List KdlNode}
    {values : List ConfigValue} (h : List.Forall₂ R nodes values) :
    ((nodes.zip values).map fun node => (node.1.name, node.2)).map Prod.fst =
      nodes.map KdlNode.name := by
  induction h with
  | nil => rfl
  | cons _ _ ih => exact congrArg (_ :: ·) ih

/-- A document is added to a table when its nodes are mapped and no name of theirs is taken. -/
theorem extendWithDocument_eq_ok_iff {nodes : List KdlNode} (htable : (table.map Prod.fst).Nodup) :
    extendWithDocument input table nodes owner = .ok table' ↔ ∃ values,
      List.Forall₂ (fun node value => nodeToValue input node = .ok value) nodes values ∧
        (table.map Prod.fst ++ (nodes.map KdlNode.name).eraseDups).Nodup ∧
          table' = table ++ documentEntries nodes values := by
  have hinsert : ∀ {values : List ConfigValue},
      List.Forall₂ (fun node value => nodeToValue input node = .ok value) nodes values →
      (insertGroups input owner table (addNodes [] (nodes.zip values)) = .ok table' ↔
        (table.map Prod.fst ++ (nodes.map KdlNode.name).eraseDups).Nodup ∧
          table' = table ++ documentEntries nodes values) := by
    intro values hvalues
    have hgrouped := grouped_addNodes (nodes.zip values)
    have hkeys := congrArg (List.map Prod.fst) hgrouped
    rw [Grouping.fst_groups, Grouping.keys, names_of_forall₂ hvalues, grouped, List.map_map] at hkeys
    rw [insertGroups_eq_ok_iff htable, documentEntries, ← hgrouped, ← hkeys, grouped, List.map_map]
    rfl
  rw [extendWithDocument, bind_eq_ok_iff]
  constructor
  · rintro ⟨groups, hgroups, h⟩
    obtain ⟨values, hvalues, rfl⟩ := groupNodes_eq_ok_iff.mp hgroups
    exact ⟨values, hvalues, (hinsert hvalues).mp h⟩
  · rintro ⟨values, hvalues, h⟩
    exact ⟨_, groupNodes_eq_ok_iff.mpr ⟨values, hvalues, rfl⟩, (hinsert hvalues).mpr h⟩

/-! ## Nodes -/

/-- What a node with arguments only holds. -/
def plainValue : List ConfigValue → ConfigValue
  | [] => .object []
  | values => collapse values

theorem argumentsToValue_eq_ok_iff {arguments : List KdlEntry} {value : ConfigValue} :
    argumentsToValue input owner arguments = .ok value ↔ ∃ values,
      List.Forall₂ (fun entry value => scalarToValue input owner entry = .ok value) arguments values ∧
        value = plainValue values := by
  match arguments with
  | [] =>
    refine ⟨fun h => ⟨[], .nil, (Except.ok.inj h).symm⟩, fun ⟨_, hvalues, heq⟩ => ?_⟩
    cases hvalues
    exact congrArg Except.ok heq.symm
  | [argument] =>
    refine ⟨fun h => ⟨[value], .cons h .nil, rfl⟩, fun ⟨_, hvalues, heq⟩ => ?_⟩
    cases hvalues with
    | cons hvalue hnil =>
      cases hnil
      rw [heq]
      exact hvalue
  | first :: second :: rest =>
    have hmany : argumentsToValue input owner (first :: second :: rest) =
        (first :: second :: rest).mapM (scalarToValue input owner) >>= fun values =>
          .ok (.array values) := rfl
    rw [hmany, bind_eq_ok_iff]
    constructor
    · rintro ⟨values, hvalues, heq⟩
      have hall := forall₂_of_mapM_eq_ok hvalues
      refine ⟨values, hall, ?_⟩
      cases hall with
      | cons _ hall =>
        cases hall with
        | cons _ _ => exact (Except.ok.inj heq).symm
    · rintro ⟨values, hvalues, heq⟩
      refine ⟨values, mapM_eq_ok_of_forall₂ hvalues, ?_⟩
      cases hvalues with
      | cons _ hvalues =>
        cases hvalues with
        | cons _ _ => exact congrArg Except.ok heq.symm

/-- The leading argument of a table. -/
theorem insertId_eq_ok_iff {arguments : List KdlEntry} (hone : arguments.length ≤ 1) :
    insertId input owner arguments = .ok table ↔ ∃ ids,
      List.Forall₂ (fun entry value => scalarToValue input owner entry = .ok value) arguments ids ∧
        table = ids.map ("id", ·) := by
  match arguments with
  | [] =>
    refine ⟨fun h => ⟨[], .nil, (Except.ok.inj h).symm⟩, fun ⟨_, hids, heq⟩ => ?_⟩
    cases hids
    exact congrArg Except.ok heq.symm
  | [argument] =>
    rw [insertId, bind_eq_ok_iff]
    refine ⟨fun ⟨id, hid, h⟩ => ⟨[id], .cons hid .nil, (Except.ok.inj h).symm⟩, ?_⟩
    rintro ⟨_, hids, heq⟩
    cases hids with
    | cons hid hnil =>
      cases hnil
      exact ⟨_, hid, congrArg Except.ok heq.symm⟩
  | first :: second :: rest =>
    simp only [List.length_cons] at hone
    omega

end

namespace KdlNode

/-- How the errors of a node name it. -/
def owner (node : KdlNode) : String := "node \"" ++ node.name ++ "\""

/-- The entries of a node's table, from the values of its argument, its properties and children. -/
def tableEntries (node : KdlNode) (ids values children : List ConfigValue) : ConfigMap :=
  ids.map ("id", ·) ++
    List.zipWith (fun prop value => (prop.1, value)) (properties node.entries) values ++
    documentEntries node.document children

end KdlNode

/-- What a node without type annotations becomes. -/
inductive Mapped (input : String) (node : KdlNode) : ConfigValue → Prop
  | plain {values : List ConfigValue} (htable : ¬node.IsTable)
      (hvalues : List.Forall₂ (fun entry value => scalarToValue input node.owner entry = .ok value)
        (arguments node.entries) values) : Mapped input node (plainValue values)
  | table {ids values children : List ConfigValue} (htable : node.IsTable)
      (hone : (arguments node.entries).length ≤ 1)
      (hids : List.Forall₂ (fun entry value => scalarToValue input node.owner entry = .ok value)
        (arguments node.entries) ids)
      (hvalues : List.Forall₂ (fun prop value => scalarToValue input node.owner prop.2 = .ok value)
        (properties node.entries) values)
      (hchildren : List.Forall₂ (fun child value => nodeToValue input child = .ok value)
        node.document children)
      (hclaims : node.claims.Nodup) :
      Mapped input node (.object (node.tableEntries ids values children))

section
variable {input : String} {node : KdlNode} {value : ConfigValue}

/-- The end of `nodeToValue`. -/
def addChildren (input owner : String) (table : ConfigMap) :
    Option (List KdlNode) → SaciResult ConfigValue
  | none => return .object table
  | some document => do
    let groups ← groupNodes input [] document
    let table ← insertGroups input owner table groups
    return .object table

/-- The children of a node are a document that is added to its table. -/
theorem addChildren_eq_ok_iff {owner : String} {table : ConfigMap} {children : Option (List KdlNode)}
    (htable : (table.map Prod.fst).Nodup) :
    addChildren input owner table children = .ok value ↔ ∃ values,
      List.Forall₂ (fun node value => nodeToValue input node = .ok value) (children.getD []) values ∧
        (table.map Prod.fst ++ ((children.getD []).map KdlNode.name).eraseDups).Nodup ∧
          value = .object (table ++ documentEntries (children.getD []) values) := by
  cases children with
  | none =>
    constructor
    · intro h
      cases h
      refine ⟨[], .nil, ?_, ?_⟩
      · exact (List.append_nil _).symm ▸ htable
      · exact congrArg ConfigValue.object (List.append_nil _).symm
    · rintro ⟨values, hvalues, -, heq⟩
      cases hvalues
      rw [heq]
      exact congrArg (fun table => Except.ok (ConfigValue.object table)) (List.append_nil _).symm
  | some document =>
    have hextend : addChildren input owner table (some document) =
        extendWithDocument input table document owner >>= fun table => .ok (.object table) := by
      unfold extendWithDocument
      dsimp only [addChildren]
      cases groupNodes input [] document <;> rfl
    rw [hextend, bind_eq_ok_iff]
    constructor
    · rintro ⟨table', hextended, h⟩
      obtain ⟨values, hvalues, hkeys, rfl⟩ := (extendWithDocument_eq_ok_iff htable).mp hextended
      exact ⟨values, hvalues, hkeys, (Except.ok.inj h).symm⟩
    · rintro ⟨values, hvalues, hkeys, rfl⟩
      exact ⟨_, (extendWithDocument_eq_ok_iff htable).mpr ⟨values, hvalues, hkeys, rfl⟩, rfl⟩

theorem not_isTable_iff :
    ¬node.IsTable ↔ (properties node.entries).isEmpty ∧ node.children.isNone := by
  simp [KdlNode.IsTable]

theorem keys_zipWith {R : String × KdlEntry → ConfigValue → Prop} {props : List (String × KdlEntry)}
    {values : List ConfigValue} (h : List.Forall₂ R props values) :
    (List.zipWith (fun prop value => (prop.1, value)) props values).map Prod.fst =
      props.map Prod.fst := by
  induction h with
  | nil => rfl
  | cons _ _ ih => exact congrArg (_ :: ·) ih

variable {R : KdlEntry → ConfigValue → Prop} {entries : List KdlEntry} {ids : List ConfigValue}

theorem keys_ids (h : List.Forall₂ R entries ids) :
    (ids.map (("id", ·) : ConfigValue → String × ConfigValue)).map Prod.fst =
      entries.map fun _ => "id" := by
  induction h with
  | nil => rfl
  | cons _ _ ih => exact congrArg ("id" :: ·) ih

theorem nodup_ids (hone : entries.length ≤ 1) (h : List.Forall₂ R entries ids) :
    ((ids.map ("id", ·) : ConfigMap).map Prod.fst).Nodup := by
  rw [keys_ids h]
  match entries with
  | [] => exact List.nodup_nil
  | [_] => exact List.nodup_singleton _
  | _ :: _ :: rest =>
    simp only [List.length_cons] at hone
    omega

/-- A node without an annotation, on its entries and children. -/
theorem nodeToValue_untyped (hty : node.ty = none) : nodeToValue input node = (do
    let (arguments, properties) ← splitEntries input node.owner [] [] node.entries
    if properties.isEmpty ∧ node.children.isNone then
      argumentsToValue input node.owner arguments
    else if arguments.length > 1 then
      .error (configError input node.offset
        (s!"{node.owner}: a node with properties or children takes at " ++
          s!"most one leading argument, found {arguments.length}"))
    else do
      let table ← insertId input node.owner arguments
      let table ← insertProperties input node.owner table properties
      addChildren input node.owner table node.children) := by
  obtain ⟨ty, name, entries, children, offset⟩ := node
  cases hty
  cases children <;> rfl

theorem mapped_of_nodeToValue (hty : node.ty = none) (h : nodeToValue input node = .ok value) :
    (∀ entry ∈ node.entries, entry.ty = none) ∧ Mapped input node value := by
  rw [nodeToValue_untyped hty, bind_eq_ok_iff] at h
  obtain ⟨r, hsplit, hrest⟩ := h
  obtain ⟨htys, rfl⟩ := splitEntries_eq_ok_iff.mp hsplit
  refine ⟨htys, ?_⟩
  dsimp only [List.nil_append] at hrest
  split_ifs at hrest with hplain hmany
  · obtain ⟨values, hvalues, rfl⟩ := argumentsToValue_eq_ok_iff.mp hrest
    exact .plain (not_isTable_iff.mpr hplain) hvalues
  · have hone := Nat.le_of_not_lt hmany
    obtain ⟨table, hid, hrest⟩ := bind_eq_ok_iff.mp hrest
    obtain ⟨ids, hids, rfl⟩ := (insertId_eq_ok_iff hone).mp hid
    obtain ⟨table, hprops, hrest⟩ := bind_eq_ok_iff.mp hrest
    obtain ⟨hkeys, values, hvalues, rfl⟩ :=
      (insertProperties_eq_ok_iff (nodup_ids hone hids)).mp hprops
    rw [← keys_zipWith hvalues, ← List.map_append] at hkeys
    obtain ⟨values', hchildren, hclaims, rfl⟩ := (addChildren_eq_ok_iff hkeys).mp hrest
    rw [List.map_append, keys_zipWith hvalues, keys_ids hids] at hclaims
    exact .table (not_not.mp fun h => hplain (not_isTable_iff.mp h)) hone hids hvalues hchildren hclaims

theorem nodeToValue_of_mapped (hty : node.ty = none) (htys : ∀ entry ∈ node.entries, entry.ty = none)
    (h : Mapped input node value) : nodeToValue input node = .ok value := by
  rw [nodeToValue_untyped hty, bind_eq_ok_iff]
  refine ⟨(arguments node.entries, properties node.entries),
    splitEntries_eq_ok_iff.mpr ⟨htys, by rw [List.nil_append, List.nil_append]⟩, ?_⟩
  dsimp only
  cases h with
  | plain htable hvalues =>
    rw [if_pos (not_isTable_iff.mp htable)]
    exact argumentsToValue_eq_ok_iff.mpr ⟨_, hvalues, rfl⟩
  | @table ids values children' htable hone hids hvalues hchildren hclaims =>
    have hplain : ¬((properties node.entries).isEmpty ∧ node.children.isNone) :=
      fun h => not_isTable_iff.mpr h htable
    have hmany : ¬(arguments node.entries).length > 1 := Nat.not_lt_of_le hone
    rw [KdlNode.claims, ← keys_ids hids, ← keys_zipWith hvalues, ← List.map_append] at hclaims
    have hkeys := (List.nodup_append.mp hclaims).1
    rw [if_neg hplain, if_neg hmany, bind_eq_ok_iff]
    refine ⟨_, (insertId_eq_ok_iff hone).mpr ⟨ids, hids, rfl⟩, ?_⟩
    rw [bind_eq_ok_iff]
    refine ⟨_, (insertProperties_eq_ok_iff (nodup_ids hone hids)).mpr ⟨?_, values, hvalues, rfl⟩, ?_⟩
    · rw [List.map_append, keys_zipWith hvalues] at hkeys
      exact hkeys
    · exact (addChildren_eq_ok_iff hkeys).mpr ⟨children', hchildren, hclaims, rfl⟩

/-- When a node is mapped, and to what. -/
theorem nodeToValue_eq_ok_iff : nodeToValue input node = .ok value ↔
    node.ty = none ∧ (∀ entry ∈ node.entries, entry.ty = none) ∧ Mapped input node value := by
  obtain ⟨_ | ty, name, entries, children, offset⟩ := node
  · exact ⟨fun h => ⟨rfl, mapped_of_nodeToValue rfl h⟩, fun h => nodeToValue_of_mapped rfl h.2.1 h.2.2⟩
  · change Except.error _ = .ok value ↔ _
    exact iff_of_false nofun fun h => nomatch h.1

end

/-! ## Places -/

theorem map_eq_of_forall₂ {α β γ : Type} {f : α → γ} {g : β → γ} {l : List α} {l' : List β}
    (h : List.Forall₂ (fun a b => g b = f a) l l') : l'.map g = l.map f := by
  induction h with
  | nil => rfl
  | cons hab _ ih => rw [List.map_cons, List.map_cons, hab, ih]

theorem forall₂_of_mem {α β : Type} {R S : α → β → Prop} {l : List α} {l' : List β}
    (h : List.Forall₂ R l l') (hRS : ∀ a ∈ l, ∀ b, R a b → S a b) : List.Forall₂ S l l' := by
  induction h with
  | nil => exact .nil
  | cons hab _ ih =>
    obtain ⟨hhead, htail⟩ := List.forall_mem_cons.mp hRS
    exact .cons (hhead _ hab) (ih htail)

theorem spots_collapse (values : List ConfigValue) :
    (collapse values).spots = collapsed (values.map ConfigValue.spots) := by
  match values with
  | [] => exact spots_array []
  | [_] => rfl
  | first :: second :: rest => exact spots_array (first :: second :: rest)

section
variable {input owner : String} {node : KdlNode} {value : ConfigValue}

theorem spots_scalars {entries : List KdlEntry} {values : List ConfigValue}
    (h : List.Forall₂ (fun entry value => scalarToValue input owner entry = .ok value) entries values) :
    values.map ConfigValue.spots = entries.map KdlEntry.places :=
  map_eq_of_forall₂ (h.imp fun _ _ hvalue => (scalarToValue_eq_ok hvalue).2)

theorem spots_plainValue {values : List ConfigValue}
    (h : List.Forall₂ (fun entry value => scalarToValue input owner entry = .ok value)
      (arguments node.entries) values) : (plainValue values).spots = plainPlaces node.entries := by
  have hspots := spots_scalars h
  unfold plainPlaces
  cases harguments : arguments node.entries with
  | nil =>
    rw [harguments] at h
    cases h
    exact spots_object []
  | cons argument rest =>
    rw [harguments] at h hspots
    dsimp only
    rw [← hspots]
    cases h with
    | cons => exact spots_collapse _

/-- The places of the entries of a table. -/
def entrySpots (table : ConfigMap) : List (String × Spots) :=
  table.map fun entry => (entry.1, entry.2.spots)

theorem entrySpots_zipWith {props : List (String × KdlEntry)} {values : List ConfigValue}
    (h : List.Forall₂ (fun prop value => scalarToValue input owner prop.2 = .ok value) props values) :
    entrySpots (List.zipWith (fun prop value => (prop.1, value)) props values) =
      props.map fun prop => (prop.1, prop.2.places) := by
  induction h with
  | nil => rfl
  | @cons prop value _ _ hvalue _ ih =>
    have hspots := (scalarToValue_eq_ok hvalue).2
    exact congrArg₂ List.cons (congrArg (Prod.mk prop.1) hspots) ih

theorem entrySpots_documentEntries {nodes : List KdlNode} {values : List ConfigValue}
    (h : List.Forall₂ (fun node value => value.spots = node.places) nodes values) :
    entrySpots (documentEntries nodes values) =
      siblings (nodes.map fun node => (node.name, node.places)) := by
  have hpairs : ((nodes.zip values).map fun node => (node.1.name, node.2)).map
      (fun pair => (pair.1, pair.2.spots)) = nodes.map fun node => (node.name, node.places) := by
    induction h with
    | nil => rfl
    | cons hspots _ ih =>
      simp only [List.zip_cons_cons, List.map_cons]
      rw [ih, hspots]
  rw [siblings, ← hpairs, Grouping.groups_map, List.map_map, entrySpots, documentEntries, List.map_map]
  refine List.map_congr_left fun group _ => ?_
  exact congrArg (Prod.mk group.1) (spots_collapse group.2)

/-- A node's value has the places of the node, when its children have theirs. -/
theorem Mapped.spots (h : Mapped input node value)
    (hchildren : ∀ child ∈ node.document, ∀ value, nodeToValue input child = .ok value →
      value.spots = child.places) : value.spots = node.places := by
  cases h with
  | plain htable hvalues =>
    obtain ⟨hprops, hnone⟩ := not_isTable_iff.mp htable
    rw [places_of_plain (List.isEmpty_iff.mp hprops) (Option.isNone_iff_eq_none.mp hnone)]
    exact spots_plainValue hvalues
  | @table ids values children htable hone hids hvalues hvalues' hclaims =>
    have hnested := entrySpots_documentEntries (forall₂_of_mem hvalues' hchildren)
    have hids' : entrySpots (ids.map ("id", ·)) =
        (arguments node.entries).map fun argument => ("id", argument.places) := by
      have hspots := congrArg (List.map fun spots => ("id", spots)) (spots_scalars hids)
      rw [List.map_map, List.map_map] at hspots
      rw [entrySpots, List.map_map]
      exact hspots
    have hprops := entrySpots_zipWith hvalues
    rw [places_of_table htable, tablePlaces, placedEntries, ← hids', ← hprops, spots_object]
    change _ = ([], .table) :: keyed (_ ++ _ ++ siblings (node.document.map _))
    rw [← hnested, entrySpots, entrySpots, entrySpots, ← List.map_append, ← List.map_append]
    rfl

/-- Every node that is mapped has its places. -/
theorem spots_of_nodeToValue (node : KdlNode) : ∀ value, nodeToValue input node = .ok value →
    value.spots = node.places := by
  induction node using KdlNode.induct with
  | h node ih => exact fun value h => (nodeToValue_eq_ok_iff.mp h).2.2.spots ih

theorem distinct_plainPlaces (entries : List KdlEntry) : Distinct (plainPlaces entries) := by
  unfold plainPlaces
  split
  · exact distinct_singleton _
  · exact distinct_collapsed (List.forall_mem_map.mpr fun _ _ => distinct_singleton _)

/-- The places of a node are distinct when no key of its table is claimed twice. -/
theorem distinct_places (hclaims : node.IsTable → node.claims.Nodup)
    (hchildren : ∀ child ∈ node.document, Distinct child.places) : Distinct node.places := by
  by_cases htable : node.IsTable
  · rw [places_of_table htable]
    refine distinct_table ?_ fun entry hentry => ?_
    · have hkeys : (placedEntries node.entries
          (node.document.map fun child => (child.name, child.places))).map Prod.fst = node.claims := by
        rw [placedEntries, KdlNode.claims, List.map_append, List.map_append, fst_siblings,
          List.map_map, List.map_map, List.map_map]
        rfl
      rw [← hkeys] at hclaims
      exact hclaims htable
    · rcases List.mem_append.mp hentry with hentry | hentry
      · rcases List.mem_append.mp hentry with hentry | hentry
        · obtain ⟨argument, -, rfl⟩ := List.mem_map.mp hentry
          exact distinct_singleton _
        · obtain ⟨property, -, rfl⟩ := List.mem_map.mp hentry
          exact distinct_singleton _
      · exact distinct_siblings (List.forall_mem_map.mpr hchildren) entry hentry
  · obtain ⟨hprops, hnone⟩ := not_isTable_iff.mp htable
    rw [places_of_plain (List.isEmpty_iff.mp hprops) (Option.isNone_iff_eq_none.mp hnone)]
    exact distinct_plainPlaces _

/-! ## Faults -/

theorem forall_entries_iff {P : KdlEntry → Prop} {entries : List KdlEntry} :
    (∀ entry ∈ entries, P entry) ↔
      (∀ entry ∈ arguments entries, P entry) ∧ ∀ prop ∈ properties entries, P prop.2 := by
  refine ⟨fun h => ⟨fun entry hentry => h entry (List.mem_filter.mp hentry).1, ?_⟩, ?_⟩
  · intro prop hprop
    obtain ⟨entry, hentry, hkey⟩ := List.mem_filterMap.mp hprop
    obtain ⟨key, -, rfl⟩ := Option.map_eq_some_iff.mp hkey
    exact h entry hentry
  · rintro ⟨harguments, hprops⟩ entry hentry
    cases hname : entry.name with
    | none => exact harguments entry (List.mem_filter.mpr ⟨hentry, by rw [hname]; rfl⟩)
    | some key =>
      exact hprops (key, entry) (List.mem_filterMap.mpr ⟨entry, hentry, by rw [hname]; rfl⟩)

theorem exists_of_forall₂ {α β : Type} {R : α → β → Prop} {l : List α} {l' : List β}
    (h : List.Forall₂ R l l') : ∀ a ∈ l, ∃ b, R a b := by
  induction h with
  | nil => exact nofun
  | cons hab _ ih => exact List.forall_mem_cons.mpr ⟨⟨_, hab⟩, ih⟩

/-- Scalars that were mapped are ones a value can hold. -/
theorem representable_of_forall₂ {α : Type} {f : α → KdlEntry} {l : List α} {values : List ConfigValue}
    (h : List.Forall₂ (fun a value => scalarToValue input owner (f a) = .ok value) l values) :
    ∀ a ∈ l, (f a).value.Representable := by
  intro a ha
  obtain ⟨value, hvalue⟩ := exists_of_forall₂ h a ha
  exact (scalarToValue_eq_ok hvalue).1

/-- A node is mapped exactly when it has no fault and its children are mapped. -/
theorem exists_nodeToValue_iff : (∃ value, nodeToValue input node = .ok value) ↔
    ¬node.Fault ∧ ∀ child ∈ node.document, ∃ value, nodeToValue input child = .ok value := by
  constructor
  · rintro ⟨value, h⟩
    obtain ⟨hty, htys, hmapped⟩ := nodeToValue_eq_ok_iff.mp h
    cases hmapped with
    | plain htable hvalues =>
      obtain ⟨hprops, hnone⟩ := not_isTable_iff.mp htable
      have hrepresentable : ∀ entry ∈ node.entries, entry.value.Representable := by
        refine forall_entries_iff.mpr ⟨representable_of_forall₂ hvalues, ?_⟩
        rw [List.isEmpty_iff.mp hprops]
        exact nofun
      refine ⟨fun hfault => ?_, ?_⟩
      · cases hfault with
        | annotated h => exact h hty
        | entryAnnotated entry hentry h => exact h (htys entry hentry)
        | notRepresentable entry hentry h => exact h (hrepresentable entry hentry)
        | tooManyArguments h => exact htable h
        | claimedTwice h => exact htable h
      · rw [KdlNode.document, Option.isNone_iff_eq_none.mp hnone]
        exact nofun
    | table htable hone hids hvalues hchildren hclaims =>
      have hrepresentable : ∀ entry ∈ node.entries, entry.value.Representable :=
        forall_entries_iff.mpr ⟨representable_of_forall₂ hids, representable_of_forall₂ hvalues⟩
      refine ⟨fun hfault => ?_, exists_of_forall₂ hchildren⟩
      cases hfault with
      | annotated h => exact h hty
      | entryAnnotated entry hentry h => exact h (htys entry hentry)
      | notRepresentable entry hentry h => exact h (hrepresentable entry hentry)
      | tooManyArguments _ h => exact absurd hone (Nat.not_le_of_lt h)
      | claimedTwice _ h => exact h hclaims
  · rintro ⟨hfault, hchildren⟩
    have hty : node.ty = none := by
      by_contra h
      exact hfault (.annotated h)
    have htys : ∀ entry ∈ node.entries, entry.ty = none := by
      intro entry hentry
      by_contra h
      exact hfault (.entryAnnotated entry hentry h)
    have hrepresentable : ∀ entry ∈ node.entries, entry.value.Representable := by
      intro entry hentry
      by_contra h
      exact hfault (.notRepresentable entry hentry h)
    obtain ⟨harguments, hprops⟩ := forall_entries_iff.mp hrepresentable
    obtain ⟨ids, hids⟩ := exists_forall₂ fun entry hentry =>
      @scalarToValue_of_representable input node.owner entry (harguments entry hentry)
    by_cases htable : node.IsTable
    · have hone : (arguments node.entries).length ≤ 1 := by
        by_contra h
        exact hfault (.tooManyArguments htable (Nat.lt_of_not_le h))
      have hclaims : node.claims.Nodup := by
        by_contra h
        exact hfault (.claimedTwice htable h)
      obtain ⟨values, hvalues⟩ := exists_forall₂ fun prop hprop =>
        @scalarToValue_of_representable input node.owner prop.2 (hprops prop hprop)
      obtain ⟨children, hchildren⟩ := exists_forall₂ hchildren
      exact ⟨_, nodeToValue_eq_ok_iff.mpr
        ⟨hty, htys, .table htable hone hids hvalues hchildren hclaims⟩⟩
    · exact ⟨_, nodeToValue_eq_ok_iff.mpr ⟨hty, htys, .plain htable hids⟩⟩

end

/-! ## Documents -/

section
variable {input : String} {document : List KdlNode}

theorem nodup_empty : (([] : ConfigMap).map Prod.fst).Nodup := List.nodup_nil

/-- A document is mapped exactly when its nodes are, which never claim a key of each other. -/
theorem exists_fromDocument_iff : (∃ value, fromDocument input document = .ok value) ↔
    ∀ node ∈ document, ∃ value, nodeToValue input node = .ok value := by
  have hextend : ∀ {table : ConfigMap},
      extendWithDocument input [] document "document" = .ok table ↔ ∃ values,
        List.Forall₂ (fun node value => nodeToValue input node = .ok value) document values ∧
          ([] ++ (document.map KdlNode.name).eraseDups).Nodup ∧
            table = [] ++ documentEntries document values :=
    extendWithDocument_eq_ok_iff nodup_empty
  constructor
  · rintro ⟨value, h⟩
    obtain ⟨table, htable, -⟩ := bind_eq_ok_iff.mp h
    obtain ⟨values, hvalues, -⟩ := hextend.mp htable
    exact exists_of_forall₂ hvalues
  · intro h
    obtain ⟨values, hvalues⟩ := exists_forall₂ h
    exact ⟨_, bind_eq_ok_iff.mpr
      ⟨_, hextend.mpr ⟨values, hvalues, Grouping.nodup_eraseDups _, rfl⟩, rfl⟩⟩

/-- Nodes without a fault at any depth are mapped. -/
theorem exists_of_no_fault (node : KdlNode) (h : ∀ below, Within below [node] → ¬below.Fault) :
    ∃ value, nodeToValue input node = .ok value := by
  induction node using KdlNode.induct with
  | h node ih =>
    refine exists_nodeToValue_iff.mpr ⟨h node (.direct List.mem_cons_self), fun child hchild => ?_⟩
    refine ih child hchild fun below hbelow => h below (.deeper List.mem_cons_self ?_)
    cases hbelow with
    | direct hmem => exact .direct (List.mem_singleton.mp hmem ▸ hchild)
    | deeper hparent hdeeper => exact .deeper (List.mem_singleton.mp hparent ▸ hchild) hdeeper

/-- A document that is mapped has no fault at any depth. -/
theorem no_fault_of_mapped {node : KdlNode} (hwithin : Within node document)
    (h : ∀ node ∈ document, ∃ value, nodeToValue input node = .ok value) : ¬node.Fault := by
  induction hwithin with
  | direct hmem => exact (exists_nodeToValue_iff.mp (h node hmem)).1
  | deeper hparent _ ih => exact ih (exists_nodeToValue_iff.mp (h _ hparent)).2

theorem distinct_of_mapped (node : KdlNode) (h : ∃ value, nodeToValue input node = .ok value) :
    Distinct node.places := by
  induction node using KdlNode.induct with
  | h node ih =>
    obtain ⟨hfault, hchildren⟩ := exists_nodeToValue_iff.mp h
    refine distinct_places (fun htable => ?_) fun child hchild => ih child hchild (hchildren child hchild)
    by_contra hclaims
    exact hfault (.claimedTwice htable hclaims)

/-- Nothing of a document is dropped: the places of its value are those of its arguments, properties
and children, with what they are, and no two of them share a place. -/
structure Kept (document : List KdlNode) (value : ConfigValue) : Prop where
  places : value.spots.Perm (documentPlaces document)
  once : (value.spots.map Prod.fst).Nodup

theorem kept_of_fromDocument {value : ConfigValue} (h : fromDocument input document = .ok value) :
    Kept document value := by
  have hmapped := exists_fromDocument_iff.mp ⟨value, h⟩
  obtain ⟨table, htable, hvalue⟩ := bind_eq_ok_iff.mp h
  obtain ⟨values, hvalues, -, rfl⟩ := (extendWithDocument_eq_ok_iff nodup_empty).mp htable
  obtain rfl := Except.ok.inj hvalue
  have hspots : (ConfigValue.object ([] ++ documentEntries document values)).spots =
      documentPlaces document := by
    have hentries := entrySpots_documentEntries
      (forall₂_of_mem hvalues fun node _ value h => spots_of_nodeToValue node value h)
    rw [spots_object, documentPlaces, placesEach_eq, ← hentries]
    rfl
  refine ⟨.of_eq hspots, ?_⟩
  rw [hspots, documentPlaces, placesEach_eq]
  refine distinct_table ?_ (distinct_siblings (List.forall_mem_map.mpr fun node hnode => ?_))
  · rw [fst_siblings]
    exact Grouping.nodup_eraseDups _
  · exact distinct_of_mapped node (hmapped node hnode)

/-- A document is refused exactly when one of its nodes has a fault, and otherwise nothing of it is
dropped. -/
theorem fromDocument_law (input : String) (document : List KdlNode) :
    ((∃ e, fromDocument input document = .error e) ↔ ∃ node, Within node document ∧ node.Fault) ∧
      ∀ value, fromDocument input document = .ok value → Kept document value := by
  refine ⟨⟨fun ⟨e, h⟩ => ?_, fun ⟨node, hwithin, hfault⟩ => ?_⟩, fun _ => kept_of_fromDocument⟩
  · by_contra hnone
    have hmapped : ∀ node ∈ document, ∃ value, nodeToValue input node = .ok value := by
      intro node hnode
      refine exists_of_no_fault node fun below hbelow hfault => hnone ⟨below, ?_, hfault⟩
      cases hbelow with
      | direct hmem => exact .direct (List.mem_singleton.mp hmem ▸ hnode)
      | deeper hparent hdeeper => exact .deeper (List.mem_singleton.mp hparent ▸ hnode) hdeeper
    obtain ⟨value, hvalue⟩ := exists_fromDocument_iff.mpr hmapped
    rw [h] at hvalue
    cases hvalue
  · cases hresult : fromDocument input document with
    | error e => exact ⟨e, rfl⟩
    | ok value =>
      have hmapped := exists_fromDocument_iff.mp ⟨value, hresult⟩
      exact absurd hfault (no_fault_of_mapped hwithin hmapped)

end

namespace Sample

def entry (name : Option String) (value : KdlValue) : KdlEntry := ⟨none, name, value, 0⟩

def node (name : String) (entries : List KdlEntry) (children : Option (List KdlNode)) : KdlNode :=
  .mk none name entries children 0

/-- `source "a" type="File" { port 1 -2; tag "x" }` between two other nodes. -/
def document : List KdlNode :=
  [node "tick" [entry none (.float 0)] none,
    node "source" [entry none (.string "a"), entry (some "type") (.string "File")]
      (some [node "port" [entry none (.integer 1), entry none (.integer (-2))] none,
        node "tag" [entry none (.string "x")] none]),
    node "tick" [] none]

def value : ConfigValue :=
  .object [("tick", .array [.number (.float 0), .object []]),
    ("source", .object [("id", .string "a"), ("type", .string "File"),
      ("port", .array [.number (.posInt 1), .number (.negInt (-2))]), ("tag", .string "x")])]

/-- `source "a" id="b"`. -/
def claimed : List KdlNode :=
  [node "source" [entry none (.string "a"), entry (some "id") (.string "b")] none]

theorem document_kept : Kept document value ∧ ∃ e, fromDocument "" claimed = .error e := by
  refine ⟨(fromDocument_law "" document).2 value rfl, (fromDocument_law "" claimed).1.mpr ?_⟩
  exact ⟨_, .direct List.mem_cons_self, .claimedTwice (.inl (by decide)) (by decide)⟩

end Sample

end Saci.Kdl
