import Saci.Connectors.GtidText

/-!
# What a GTID set denotes

A set is determined by the transactions it holds (`eq_of_members_eq`), and what is accepted adds exactly the
transactions that it names (`Addition.apply_eq_ok`): so does a run of inserts and entries
(`Reaches.members_eq`).
-/

namespace Saci.Mariadb

open Intervals Text

namespace GtidSet

variable {set other : GtidSet} {group group' : GtidGroup} {n : Nat}

/-! ## One set for each set of transactions -/

theorem lookup_eq (set : GtidSet) (group : GtidGroup) :
    set.groups.lookup group = if set.intervals group = [] then none else some (set.intervals group) := by
  by_cases hmem : group ∈ set.groups
  · rw [lookup_of_mem hmem, if_neg (set.canonical group _ (lookup_of_mem hmem)).2]
  · rw [Finmap.lookup_eq_none.mpr hmem, if_pos (intervals_of_notMem hmem)]

/-- Sets that hold the same transactions are the same set. -/
theorem eq_of_members_eq (h : set.members = other.members) : set = other := by
  have hintervals : ∀ group, set.intervals group = other.intervals group := fun group => by
    refine (set.canonical_intervals group).eq_of_covered_eq (other.canonical_intervals group) ?_
    ext n
    rw [← mem_members, ← mem_members, h]
  have hgroups : set.groups = other.groups := Finmap.ext_lookup fun group => by
    rw [lookup_eq, lookup_eq, hintervals]
  cases set
  cases other
  cases hgroups
  rfl

/-! ## The transactions added -/

theorem mem_addRange {range : GnoRange} :
    ⟨group', n⟩ ∈ (set.addRange group range).members ↔
      (group' = group ∧ range.start ≤ n ∧ n ≤ range.stop) ∨ ⟨group', n⟩ ∈ set.members := by
  rw [mem_members, mem_members, intervals, addRange]
  by_cases heq : group' = group
  · subst heq
    rw [Finmap.lookup_insert, Option.getD_some, (set.canonical_intervals group').covered_addRange range.start_le,
      Finset.mem_union, Finset.mem_Icc]
    simp
  · rw [Finmap.lookup_insert_of_ne _ heq]
    simp [heq, intervals]

end GtidSet

/-- Transaction numbers under a group. -/
def under (group : GtidGroup) (numbers : Finset Nat) : Finset (Σ _ : GtidGroup, Nat) :=
  numbers.image fun n => ⟨group, n⟩

/-- The numbers that a segment `n` or `n-m` names. -/
def numbersOf (segment : List Char) : Finset Nat :=
  match splitOnce '-' segment with
  | none => (parseU64 segment).elim ∅ fun n => {n}
  | some (start, stop) =>
    (parseU64 start).elim ∅ fun start => (parseU64 stop).elim ∅ fun stop => Finset.Icc start stop

/-- The transactions that segments name: a segment that starts like a tag is the tag of the ranges behind
it. -/
def named (uuid : Uuid) : Option String → List (List Char) → Finset (Σ _ : GtidGroup, Nat)
  | _, [] => ∅
  | tag, segment :: segments =>
    if segment.head?.any startsTag then named uuid (some (String.ofList segment)) segments
    else under (uuid, tag) (numbersOf segment) ∪ named uuid tag segments

/-- The transactions that an entry names. -/
def entryMembers (entry : List Char) : Finset (Σ _ : GtidGroup, Nat) :=
  let segments := entry.splitOn ':'
  (parseUuid (segments.headD [])).toOption.elim ∅ fun uuid => named uuid none segments.tail

/-- What a set of transactions may hold. -/
def Admissible (x : Σ _ : GtidGroup, Nat) : Prop :=
  (∀ tag ∈ x.1.2, isTag tag = true) ∧ 1 ≤ x.2 ∧ x.2 ≤ MAX_GNO

section
variable {uuid : Uuid} {entry segment : List Char} {segments : List (List Char)} {tag : Option String}
  {state state' : EntryState} {set set' : GtidSet}

theorem mem_under {group group' : GtidGroup} {numbers : Finset Nat} {n : Nat} :
    (⟨group', n⟩ : Σ _ : GtidGroup, Nat) ∈ under group numbers ↔ group' = group ∧ n ∈ numbers := by
  rw [under, Finset.mem_image]
  constructor
  · rintro ⟨m, hm, heq⟩
    cases heq
    exact ⟨rfl, hm⟩
  · rintro ⟨rfl, hn⟩
    exact ⟨n, hn, rfl⟩

theorem parseNumber_eq_ok_iff {segment text : List Char} {n : { n // 1 ≤ n ∧ n ≤ MAX_GNO }} :
    parseNumber segment text = .ok n ↔ parseU64 text = some n.1 := by
  unfold parseNumber
  cases parseU64 text with
  | none => exact iff_of_false nofun nofun
  | some m =>
    dsimp only
    split
    · rename_i e herror
      refine iff_of_false nofun fun hm => ?_
      have hcheck : checkGno m = .ok () := checkGno_eq_ok_iff.mpr (Option.some.inj hm ▸ n.2)
      cases hcheck.symm.trans herror
    · rw [Except.ok.injEq, Option.some.injEq, Subtype.ext_iff]

/-- A segment is read as the range that it names. -/
theorem numbersOf_eq {range : GnoRange} (h : parseInterval segment = .ok range) :
    numbersOf segment = Finset.Icc range.start range.stop := by
  unfold parseInterval at h
  unfold numbersOf
  cases hsplit : splitOnce '-' segment with
  | none =>
    rw [hsplit] at h
    obtain ⟨n, hn, hrange⟩ := bind_eq_ok_iff.mp h
    cases hrange
    dsimp only
    rw [parseNumber_eq_ok_iff.mp hn, Option.elim_some, Finset.Icc_self]
  | some parts =>
    rw [hsplit] at h
    obtain ⟨n, hn, hrest⟩ := bind_eq_ok_iff.mp h
    obtain ⟨m, hm, hrange⟩ := bind_eq_ok_iff.mp hrest
    split_ifs at hrange
    cases hrange
    dsimp only
    rw [parseNumber_eq_ok_iff.mp hn, parseNumber_eq_ok_iff.mp hm, Option.elim_some, Option.elim_some]

theorem members_addRange {group : GtidGroup} {range : GnoRange} :
    (set.addRange group range).members = set.members ∪ under group (Finset.Icc range.start range.stop) := by
  ext ⟨group', n⟩
  rw [GtidSet.mem_addRange, Finset.mem_union, mem_under, Finset.mem_Icc, or_comm]

theorem checkTag_eq_ok_iff {tag tag' : String} : checkTag tag = .ok tag' ↔ isTag tag = true ∧ tag' = tag := by
  rw [checkTag]
  split_ifs with h
  · rw [and_iff_right h, Except.ok.injEq, eq_comm]
  · exact iff_of_false nofun fun hboth => h hboth.1

/-- A segment is a tag for what follows, or a range of transactions. -/
theorem parseSegment_cases (h : parseSegment uuid entry state segment = .ok state') :
    (segment.head?.any startsTag = true ∧ isTag (String.ofList segment) = true ∧
      state' = { state with tag := some (String.ofList segment), intervalSeen := false, any := true }) ∨
    (segment.head?.any startsTag = false ∧ ∃ range, parseInterval segment = .ok range ∧
      state' = { state with
        set := state.set.addRange (uuid, state.tag) range, intervalSeen := true, any := true }) := by
  rw [parseSegment] at h
  cases hhead : segment.head? with
  | none =>
    rw [hhead] at h
    cases h
  | some c =>
    rw [hhead] at h
    dsimp only at h
    rw [Option.any_some]
    split_ifs at h with htag hseen
    · obtain ⟨tag, hcheck, hstate⟩ := bind_eq_ok_iff.mp h
      obtain ⟨hvalid, rfl⟩ := checkTag_eq_ok_iff.mp hcheck
      exact .inl ⟨htag, hvalid, (Except.ok.inj hstate).symm⟩
    · obtain ⟨range, hrange, hstate⟩ := bind_eq_ok_iff.mp h
      exact .inr ⟨Bool.eq_false_iff.mpr htag, range, hrange, (Except.ok.inj hstate).symm⟩

/-- Segments add the transactions they name, and name none that a set may not hold. -/
theorem foldlM_parseSegment (h : segments.foldlM (parseSegment uuid entry) state = .ok state') :
    state'.set.members = state.set.members ∪ named uuid state.tag segments ∧
      ((∀ tag ∈ state.tag, isTag tag = true) → ∀ x ∈ named uuid state.tag segments, Admissible x) := by
  induction segments generalizing state with
  | nil =>
    cases h
    exact ⟨(Finset.union_empty _).symm, fun _ x hx => absurd hx (Finset.notMem_empty x)⟩
  | cons segment segments ih =>
    rw [List.foldlM_cons] at h
    obtain ⟨next, hstep, hrest⟩ := bind_eq_ok_iff.mp h
    obtain ⟨hmembers, hadmissible⟩ := ih hrest
    rw [named]
    rcases parseSegment_cases hstep with ⟨htag, hvalid, rfl⟩ | ⟨hrange, range, hparse, rfl⟩
    · rw [if_pos htag]
      refine ⟨hmembers, fun _ => hadmissible fun tag htag => ?_⟩
      cases htag
      exact hvalid
    · rw [if_neg (Bool.eq_false_iff.mp hrange), numbersOf_eq hparse]
      refine ⟨hmembers.trans ?_, fun htag x hx => ?_⟩
      · rw [members_addRange, Finset.union_assoc]
      · rcases Finset.mem_union.mp hx with hx | hx
        · obtain ⟨group, n⟩ := x
          obtain ⟨rfl, hn⟩ := mem_under.mp hx
          have hn := Finset.mem_Icc.mp hn
          exact ⟨htag, range.one_le.trans hn.1, hn.2.trans range.le_max⟩
        · exact hadmissible htag x hx

/-- An entry adds the transactions it names. -/
theorem parseEntry_eq_ok (h : parseEntry set entry = .ok set') :
    set'.members = set.members ∪ entryMembers entry ∧ ∀ x ∈ entryMembers entry, Admissible x := by
  obtain ⟨uuid, huuid, h⟩ := bind_eq_ok_iff.mp h
  obtain ⟨state, hsegments, hfinish⟩ := bind_eq_ok_iff.mp h
  obtain ⟨hmembers, hadmissible⟩ := foldlM_parseSegment hsegments
  have hset : state.set = set' := by
    rw [EntryState.finish] at hfinish
    split_ifs at hfinish
    exact Except.ok.inj hfinish
  rw [entryMembers, huuid]
  exact ⟨hset ▸ hmembers, hadmissible nofun⟩

end

section
variable {uuid : Uuid} {tag : Option String} {gno : Nat} {set set' : GtidSet}

/-- An insert adds its transaction. -/
theorem insert_eq_ok (h : set.insert uuid tag gno = .ok set') :
    set'.members = set.members ∪ {⟨(uuid, tag), gno⟩} ∧ Admissible ⟨(uuid, tag), gno⟩ := by
  obtain ⟨_, hgno, hrest⟩ := bind_eq_ok_iff.mp h
  obtain ⟨tag', htag, hset⟩ := bind_eq_ok_iff.mp hrest
  have hvalid : tag' = tag ∧ ∀ t ∈ tag, isTag t = true := by
    cases tag with
    | none =>
      cases htag
      exact ⟨rfl, nofun⟩
    | some t =>
      obtain ⟨t', ht, hsome⟩ := bind_eq_ok_iff.mp htag
      obtain ⟨hisTag, rfl⟩ := checkTag_eq_ok_iff.mp ht
      cases hsome
      refine ⟨rfl, fun u hu => ?_⟩
      cases hu
      exact hisTag
  obtain ⟨rfl, hvalid⟩ := hvalid
  cases hset
  refine ⟨?_, hvalid, checkGno_eq_ok_iff.mp hgno⟩
  ext ⟨group, n⟩
  rw [GtidSet.mem_add, Finset.mem_union, Finset.mem_singleton, or_comm, Sigma.mk.injEq, heq_eq_eq]

end

/-- What is added to a set. -/
inductive Addition
  | insert (uuid : Uuid) (tag : Option String) (gno : Nat)
  | entry (text : List Char)

namespace Addition

def apply (set : GtidSet) : Addition → Except String GtidSet
  | insert uuid tag gno => set.insert uuid tag gno
  | entry text => parseEntry set text

/-- Its transactions. -/
def members : Addition → Finset (Σ _ : GtidGroup, Nat)
  | insert uuid tag gno => {⟨(uuid, tag), gno⟩}
  | entry text => entryMembers text

theorem apply_eq_ok {set set' : GtidSet} {addition : Addition} (h : addition.apply set = .ok set') :
    set'.members = set.members ∪ addition.members ∧ ∀ x ∈ addition.members, Admissible x := by
  cases addition with
  | insert uuid tag gno =>
    obtain ⟨hmembers, hadmissible⟩ := insert_eq_ok h
    refine ⟨hmembers, fun x hx => ?_⟩
    rw [Finset.mem_singleton.mp hx]
    exact hadmissible
  | entry text => exact parseEntry_eq_ok h

def step (set : GtidSet) (addition : Addition) : Except String (GtidSet × Unit) := do
  return (← addition.apply set, ())

end Addition

/-- The transactions of all that is added. -/
def added (additions : List Addition) : Finset (Σ _ : GtidGroup, Nat) :=
  additions.foldl (fun members addition => members ∪ addition.members) ∅

/-- The set that additions lead to, where all are accepted. -/
def Reaches (additions : List Addition) (set : GtidSet) : Prop :=
  ∃ outputs, run Addition.step ∅ additions = .ok (set, outputs)

theorem members_empty : (∅ : GtidSet).members = ∅ := rfl

/-- A set holds what was added to it, and nothing that a set may not hold. -/
theorem Reaches.members_eq {additions : List Addition} {set : GtidSet} (h : Reaches additions set) :
    set.members = added additions ∧ ∀ x ∈ set.members, Admissible x := by
  obtain ⟨_, hrun⟩ := h
  refine run_induction (P := fun done set => set.members = added done ∧ ∀ x ∈ set.members, Admissible x)
    ⟨rfl, ?_⟩ ?_ hrun
  · rw [members_empty]
    exact fun x hx => absurd hx (Finset.notMem_empty x)
  · rintro done addition set set' o os - ⟨hmembers, hadmissible⟩ hstep
    obtain ⟨next, happly, hnext⟩ := bind_eq_ok_iff.mp hstep
    cases hnext
    obtain ⟨hmembers', hadmissible'⟩ := Addition.apply_eq_ok happly
    refine ⟨?_, fun x hx => ?_⟩
    · rw [hmembers', hmembers, added, added, List.foldl_append]
      rfl
    · rw [hmembers'] at hx
      exact (Finset.mem_union.mp hx).elim (hadmissible x) (hadmissible' x)

end Saci.Mariadb
