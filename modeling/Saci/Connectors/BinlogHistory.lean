import Saci.Connectors.Gtid

/-!
# The schema history of a binlog source

Which definition of the table was in force at which binlog position
(`saci-connector-mariadb/src/source/history.rs`): the order of positions, and the recorded definitions,
oldest first. The history table itself is left out.
-/

namespace Saci.Mariadb

/-- Where the reader stands in the binlog. -/
inductive Position
  /-- A binlog file and the byte position of the next event. -/
  | file (name : String) (pos : Nat)
  /-- The GTIDs executed so far. -/
  | gtid (set : GtidSet)
  deriving DecidableEq

/-! ## The order of positions -/

/-- `str::parse::<u64>`. -/
def parseU64 (text : List Char) : Option Nat :=
  let digits :=
    match text with
    | '+' :: rest => rest
    | _ => text
  if digits.isEmpty || !digits.all Char.isDigit then none
  else
    let n := digits.foldl (fun n c => 10 * n + (c.toNat - '0'.toNat)) 0
    if n < 2 ^ 64 then some n else none

/-- The number a binlog file name ends in. -/
def logIndex (name : String) : Option Nat :=
  if '.' ∈ name.toList then parseU64 (name.toList.reverse.takeWhile (· ≠ '.')).reverse else none

/-- Where `a` stands against `b` in the binlog, both being positions in a file. -/
def fileOrder (aName : String) (aPos : Nat) (bName : String) (bPos : Nat) : Ordering :=
  match logIndex aName, logIndex bName with
  | some a, some b => (compare a b).then ((compare aName bName).then (compare aPos bPos))
  | _, _ => (compare aName bName).then (compare aPos bPos)

/-- Whether a definition tagged with the first position holds at the second. -/
def reached : Position → Position → Bool
  | .file a ap, .file b bp => fileOrder a ap b bp ≠ .gt
  | .gtid a, .gtid b => a.isSubsetOf b
  | _, _ => false

/-- Where tags sort: by position in a file, by size for GTID sets. -/
def rank : Position → Position → Ordering
  | .file a ap, .file b bp => fileOrder a ap b bp
  | .gtid a, .gtid b => compare a.transactions b.transactions
  | _, _ => .eq

/-! ## The history -/

/-- One definition and the position from which it holds. -/
structure Entry (D : Type) where
  /-- The history table's `id`. -/
  id : Option Nat
  /-- `at`. -/
  tag : Position
  definition : D

/-- The index of the last element that meets a condition. -/
def rposition {α : Type} (p : α → Bool) (l : List α) : Option Nat :=
  (l.reverse.findIdx? p).map fun i => l.length - 1 - i

/-- Every entry of one source and table, oldest tag first. -/
structure History (D : Type) where
  entries : List (Entry D)

namespace History
variable {D : Type}

/-- Add an entry after every entry whose tag is no later. -/
def push (history : History D) (entry : Entry D) : History D :=
  ⟨history.entries.takeWhile (fun held => rank held.tag entry.tag ≠ .gt) ++
    entry :: history.entries.dropWhile fun held => rank held.tag entry.tag ≠ .gt⟩

/-- A history of entries in any order. -/
def new (entries : List (Entry D)) : History D := entries.foldl push ⟨[]⟩

def inForceIndex (history : History D) (position : Position) : Option Nat :=
  rposition (fun entry => reached entry.tag position) history.entries

/-- The definition in force at a position. -/
def inForce (history : History D) (position : Position) : Option (Entry D) :=
  (history.inForceIndex position).bind fun index => history.entries[index]?

/-- The entries after the one in force at a position, oldest first. -/
def after (history : History D) (position : Position) : List (Entry D) :=
  history.entries.drop (((history.inForceIndex position).map (· + 1)).getD 0)

/-- Drop the entries before the one in force at a position, which come first. -/
def prune (history : History D) (position : Position) : List (Entry D) × History D :=
  match history.inForceIndex position with
  | some keep => (history.entries.take keep, ⟨history.entries.drop keep⟩)
  | none => ([], history)

end History

/-! ## Chains of positions -/

theorem fileOrder_swap (aName bName : String) (aPos bPos : Nat) :
    fileOrder bName bPos aName aPos = (fileOrder aName aPos bName bPos).swap := by
  have hname : (compare bName aName).then (compare bPos aPos) =
      ((compare aName bName).then (compare aPos bPos)).swap := by
    rw [Ordering.swap_then, Std.OrientedOrd.eq_swap (a := bName), Std.OrientedOrd.eq_swap (a := bPos)]
  rw [fileOrder, fileOrder]
  cases logIndex aName with
  | none => cases logIndex bName <;> exact hname
  | some a =>
    cases logIndex bName with
    | none => exact hname
    | some b =>
      dsimp only
      rw [hname, Std.OrientedOrd.eq_swap (a := b), ← Ordering.swap_then]

/-- The positions in the files of these names are in one order: `file_order` goes by the number a name
ends in where both names have one, and by the names elsewhere. -/
def Ordered (names : String → Prop) : Prop :=
  ∀ a b c ap bp cp, names a → names b → names c → reached (.file a ap) (.file b bp) = true →
    reached (.file b bp) (.file c cp) = true → reached (.file a ap) (.file c cp) = true

theorem isLE_iff_ne_gt {o : Ordering} : o.isLE = true ↔ o ≠ .gt := by cases o <;> simp

/-- The files of a server, all numbered. -/
theorem ordered_numbered : Ordered fun name => (logIndex name).isSome = true := by
  intro a b c ap bp cp ha hb hc hab hbc
  obtain ⟨i, hi⟩ := Option.isSome_iff_exists.mp ha
  obtain ⟨j, hj⟩ := Option.isSome_iff_exists.mp hb
  obtain ⟨k, hk⟩ := Option.isSome_iff_exists.mp hc
  simp only [reached, fileOrder, hi, hj, hk, decide_eq_true_eq, ← isLE_iff_ne_gt] at hab hbc ⊢
  have htrans : Std.TransCmp (compareLex (compareOn fun x : Nat × String × Nat => x.1)
      (compareLex (compareOn fun x => x.2.1) (compareOn fun x => x.2.2))) := inferInstance
  exact htrans.isLE_trans (a := (i, a, ap)) (b := (j, b, bp)) (c := (k, c, cp)) hab hbc

/-- The position is a GTID set, or in a file of one of these names. -/
def Position.InFiles (names : String → Prop) : Position → Prop
  | .file name _ => names name
  | .gtid _ => True

theorem Ordered.trans {names : String → Prop} (h : Ordered names) {p q r : Position}
    (hp : p.InFiles names) (hq : q.InFiles names) (hr : r.InFiles names) (hpq : reached p q = true)
    (hqr : reached q r = true) : reached p r = true := by
  cases p with
  | file a ap =>
    cases q with
    | file b bp =>
      cases r with
      | file c cp => exact h a b c ap bp cp hp hq hr hpq hqr
      | gtid set => cases hqr
    | gtid set => cases hpq
  | gtid a =>
    cases q with
    | file b bp => cases hpq
    | gtid b =>
      cases r with
      | file c cp => cases hqr
      | gtid c => exact GtidSet.isSubsetOf_trans hpq hqr

/-- Of two tags of a chain, one that sorts no later is at or before the other. -/
theorem reached_of_rank {p q : Position} (h : reached p q = true ∨ reached q p = true)
    (hrank : rank p q ≠ .gt) : reached p q = true := by
  cases p with
  | file a ap =>
    cases q with
    | file b bp => exact decide_eq_true hrank
    | gtid set => cases h <;> contradiction
  | gtid a =>
    cases q with
    | file b bp => cases h <;> contradiction
    | gtid b => exact GtidSet.isSubsetOf_of_transactions_le h (Nat.isLE_compare.mp (isLE_iff_ne_gt.mpr hrank))

theorem reached_of_rank_gt {p q : Position} (h : reached p q = true ∨ reached q p = true)
    (hrank : rank p q = .gt) : reached q p = true := by
  cases p with
  | file a ap =>
    cases q with
    | file b bp =>
      refine decide_eq_true ?_
      rw [fileOrder_swap a b ap bp, show fileOrder a ap b bp = .gt from hrank]
      nofun
    | gtid set => cases h <;> contradiction
  | gtid a =>
    cases q with
    | file b bp => cases h <;> contradiction
    | gtid b =>
      refine GtidSet.isSubsetOf_of_transactions_le h.symm ?_
      exact (Nat.compare_eq_gt.mp hrank).le

/-! ## What is in force -/

section
variable {α : Type} {p : α → Bool} {l front back : List α} {e : α}

theorem rposition_eq_none (h : ∀ x ∈ l, p x = false) : rposition p l = none := by
  rw [rposition, List.findIdx?_eq_none_iff.mpr fun x hx => h x (List.mem_reverse.mp hx)]
  rfl

theorem rposition_split (he : p e = true) (hback : ∀ x ∈ back, p x = false) :
    rposition p (front ++ e :: back) = some front.length := by
  have hfind : (front ++ e :: back).reverse.findIdx? p = some back.length := by
    rw [List.reverse_append, List.reverse_cons, List.append_assoc, List.findIdx?_append,
      List.findIdx?_eq_none_iff.mpr fun x hx => hback x (List.mem_reverse.mp hx), Option.none_or,
      List.singleton_append, List.findIdx?_cons, if_pos he, Option.map_some, List.length_reverse,
      Nat.zero_add]
  rw [rposition, hfind, Option.map_some, List.length_append, List.length_cons]
  congr 1
  omega

/-- The last element that meets a condition, where there is one. -/
theorem exists_last (p : α → Bool) (l : List α) :
    (∀ x ∈ l, p x = false) ∨
      ∃ front e back, l = front ++ e :: back ∧ p e = true ∧ ∀ x ∈ back, p x = false := by
  induction l with
  | nil => exact .inl nofun
  | cons x l ih =>
    rcases ih with hnone | ⟨front, e, back, rfl, he, hback⟩
    · by_cases hx : p x = true
      · exact .inr ⟨[], x, l, rfl, hx, hnone⟩
      · refine .inl fun y hy => ?_
        rcases List.mem_cons.mp hy with rfl | hy
        · exact Bool.eq_false_iff.mpr hx
        · exact hnone y hy
    · exact .inr ⟨x :: front, e, back, rfl, he, hback⟩

end

namespace History
variable {D : Type} {history : History D} {position : Position} {front back : List (Entry D)}
  {e : Entry D}

/-- The history around the entry in force at a position. -/
structure InForceAt (history : History D) (position : Position) (front : List (Entry D)) (e : Entry D)
    (back : List (Entry D)) : Prop where
  entries : history.entries = front ++ e :: back
  reached : reached e.tag position = true
  ahead : ∀ b ∈ back, Mariadb.reached b.tag position = false

theorem InForceAt.index (h : history.InForceAt position front e back) :
    history.inForceIndex position = some front.length := by
  rw [inForceIndex, h.entries]
  exact rposition_split (p := fun entry : Entry D => Mariadb.reached entry.tag position) h.reached h.ahead

theorem InForceAt.inForce (h : history.InForceAt position front e back) :
    history.inForce position = some e := by
  rw [History.inForce, h.index, Option.bind_some, h.entries, List.getElem?_append_right le_rfl,
    Nat.sub_self, List.getElem?_cons_zero]

theorem InForceAt.after (h : history.InForceAt position front e back) :
    history.after position = back := by
  rw [History.after, h.index, Option.map_some, Option.getD_some, h.entries, ← List.drop_drop,
    List.drop_left, List.drop_one, List.tail_cons]

theorem InForceAt.prune (h : history.InForceAt position front e back) :
    history.prune position = (front, ⟨e :: back⟩) := by
  rw [History.prune, h.index, h.entries]
  dsimp only
  rw [List.take_left, List.drop_left]

theorem index_eq_none (h : ∀ e ∈ history.entries, reached e.tag position = false) :
    history.inForceIndex position = none :=
  rposition_eq_none h

theorem inForce_cases (history : History D) (position : Position) :
    (∀ e ∈ history.entries, reached e.tag position = false) ∨
      ∃ front e back, history.InForceAt position front e back := by
  rcases exists_last (fun entry => reached entry.tag position) history.entries with
    h | ⟨front, e, back, hentries, he, hback⟩
  · exact .inl h
  · exact .inr ⟨front, e, back, hentries, he, hback⟩

theorem exists_of_inForce (h : history.inForce position = some e) :
    ∃ front back, history.InForceAt position front e back := by
  rcases history.inForce_cases position with hnone | ⟨front, e', back, hat⟩
  · rw [inForce, index_eq_none hnone] at h
    cases h
  · cases hat.inForce.symm.trans h
    exact ⟨front, back, hat⟩

/-- **Pruning** at a position changes nothing there or later. -/
theorem prune_later {names : String → Prop} (hnames : Ordered names) {later : Position}
    (htags : ∀ e ∈ history.entries, e.tag.InFiles names) (hposition : position.InFiles names)
    (hlater : later.InFiles names) (hle : reached position later = true) :
    (history.prune position).2.inForce later = history.inForce later ∧
      (history.prune position).2.after later = history.after later := by
  rcases history.inForce_cases position with hnone | ⟨front, e, back, hat⟩
  · rw [prune, index_eq_none hnone]
    exact ⟨rfl, rfl⟩
  · rw [hat.prune]
    dsimp only
    have hmem : e ∈ history.entries := hat.entries ▸ List.mem_append_right _ List.mem_cons_self
    have hreached := hnames.trans (htags e hmem) hposition hlater hat.reached hle
    -- the entry in force later is the one in force at the position, or one after it
    rcases exists_last (fun entry => Mariadb.reached entry.tag later) back with
      hnone | ⟨front', e', back', rfl, he', hback'⟩
    · have hlong : history.InForceAt later front e back := ⟨hat.entries, hreached, hnone⟩
      have hshort : (⟨e :: back⟩ : History D).InForceAt later [] e back := ⟨rfl, hreached, hnone⟩
      rw [hlong.inForce, hshort.inForce, hlong.after, hshort.after]
      exact ⟨rfl, rfl⟩
    · have hlong : history.InForceAt later (front ++ e :: front') e' back' :=
        ⟨by rw [hat.entries, List.append_assoc, List.cons_append], he', hback'⟩
      have hshort : (⟨e :: (front' ++ e' :: back')⟩ : History D).InForceAt later (e :: front') e' back' :=
        ⟨rfl, he', hback'⟩
      rw [hlong.inForce, hshort.inForce, hlong.after, hshort.after]
      exact ⟨rfl, rfl⟩

/-! ## The entries of a chain -/

/-- The tags form a chain. -/
def Chain (entries : List (Entry D)) : Prop :=
  ∀ a ∈ entries, ∀ b ∈ entries, reached a.tag b.tag = true ∨ reached b.tag a.tag = true

/-- Every entry's tag is at or before those after it. -/
def Sorted (history : History D) : Prop :=
  history.entries.Pairwise fun a b => Mariadb.reached a.tag b.tag = true

theorem mem_push {entry : Entry D} : e ∈ (history.push entry).entries ↔ e = entry ∨ e ∈ history.entries := by
  rw [push, List.mem_append, List.mem_cons, or_left_comm, ← List.mem_append,
    List.takeWhile_append_dropWhile]

/-- An entry goes after those with a tag no later, and before the others. -/
theorem Sorted.push {names : String → Prop} (hnames : Ordered names) (h : history.Sorted)
    {entry : Entry D} (htags : ∀ e ∈ (history.push entry).entries, e.tag.InFiles names)
    (hchain : Chain (history.push entry).entries) : (history.push entry).Sorted := by
  have hentry : entry ∈ (history.push entry).entries := mem_push.mpr (.inl rfl)
  have hheld : ∀ e ∈ history.entries, e ∈ (history.push entry).entries := fun e he =>
    mem_push.mpr (.inr he)
  have hsplit := h
  rw [Sorted, ← List.takeWhile_append_dropWhile
    (p := fun held => decide (rank held.tag entry.tag ≠ .gt)) (l := history.entries),
    List.pairwise_append] at hsplit
  obtain ⟨hbefore, hafter, hacross⟩ := hsplit
  have hmem := List.dropWhile_sublist (l := history.entries)
    fun held => decide (rank held.tag entry.tag ≠ .gt)
  have hpast : ∀ e ∈ history.entries.dropWhile (fun held => rank held.tag entry.tag ≠ .gt),
      Mariadb.reached entry.tag e.tag = true := by
    cases hdrop : history.entries.dropWhile (fun held => rank held.tag entry.tag ≠ .gt) with
    | nil => nofun
    | cons first rest =>
      rw [hdrop] at hafter hmem
      have hfirst : first ∈ history.entries := hmem.subset List.mem_cons_self
      have hgt : rank first.tag entry.tag = .gt := by
        have := List.head?_dropWhile_not (fun held => decide (rank held.tag entry.tag ≠ .gt))
          history.entries
        rw [hdrop] at this
        simpa using this
      have hnext := reached_of_rank_gt (hchain first (hheld first hfirst) entry hentry) hgt
      intro e he
      rcases List.mem_cons.mp he with rfl | he
      · exact hnext
      · have he' : e ∈ history.entries := hmem.subset (List.mem_cons_of_mem _ he)
        exact hnames.trans (htags entry hentry) (htags first (hheld first hfirst))
          (htags e (hheld e he')) hnext ((List.pairwise_cons.mp hafter).1 e he)
  refine List.pairwise_append.mpr ⟨hbefore, List.pairwise_cons.mpr ⟨hpast, hafter⟩, fun a ha b hb => ?_⟩
  have hle : rank a.tag entry.tag ≠ .gt := by simpa using List.mem_takeWhile_imp ha
  rcases List.mem_cons.mp hb with rfl | hb
  · have ha' : a ∈ history.entries := (List.takeWhile_sublist _).subset ha
    exact reached_of_rank (hchain a (hheld a ha') b hentry) hle
  · exact hacross a ha b hb

theorem mem_new {entries : List (Entry D)} : e ∈ (new entries).entries ↔ e ∈ entries := by
  have hfold : ∀ (entries : List (Entry D)) (history : History D),
      e ∈ (entries.foldl History.push history).entries ↔ e ∈ history.entries ∨ e ∈ entries := by
    intro entries
    induction entries with
    | nil => simp
    | cons entry entries ih =>
      intro history
      rw [List.foldl_cons, ih, mem_push, List.mem_cons, or_left_comm, or_assoc]
  rw [new, hfold]
  simp

/-- Entries inserted in any order are sorted by their tags. -/
theorem sorted_new {names : String → Prop} (hnames : Ordered names) {entries : List (Entry D)}
    (htags : ∀ e ∈ entries, e.tag.InFiles names) (hchain : Chain entries) : (new entries).Sorted := by
  induction entries using List.reverseRecOn with
  | nil => exact List.Pairwise.nil
  | append_singleton entries entry ih =>
    have hpush : new (entries ++ [entry]) = (new entries).push entry := by
      rw [new, List.foldl_concat]
      rfl
    have hback : ∀ e ∈ ((new entries).push entry).entries, e ∈ entries ++ [entry] := fun e he => by
      rw [← hpush] at he
      exact mem_new.mp he
    rw [hpush]
    refine Sorted.push hnames (ih (fun e he => htags e (List.mem_append_left _ he)) fun a ha b hb =>
      hchain a (List.mem_append_left _ ha) b (List.mem_append_left _ hb))
      (fun e he => htags e (hback e he)) fun a ha b hb => hchain a (hback a ha) b (hback b hb)

end History
end Saci.Mariadb
