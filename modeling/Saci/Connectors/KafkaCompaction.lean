import Mathlib.Data.Prod.Lex
import Mathlib.Data.Finset.Max
import Saci.Library.BigEndian
import Saci.Library.LastWrite
import Saci.Library.Table

/-!
# The compacted snapshot of the Kafka source

`CompactedState` (`saci-connector-kafka/src/source.rs`): the reduction of a keyed log to the newest
value of each key, with tombstones deleting. A key's entry is a last-writer-wins cell
(`get_after`), and it forgets what a tombstone's offset was. So the snapshot is the newest records
of the log exactly when every value of a deleted key is followed by a tombstone that is newer
(`compacted_iff`), which holds of a log read in offset order but not of any order of
arrival.
-/

namespace Saci.Kafka

/-- One surviving record of a compacted snapshot. -/
structure CompactedEntry where
  /-- Position of the record's topic in the source's topics. -/
  topic : Nat
  partition : Int
  offset : Int
  key : Bytes
  value : Bytes
  deriving DecidableEq

/-- What the state keeps for a key that is still alive. -/
structure Latest where
  partition : Int
  offset : Int
  value : Bytes
  deriving DecidableEq

/-- The reduced log: one map per topic, by the topic's position. -/
structure CompactedState where
  perTopic : List (Table Bytes Latest)

/-- What `apply` is given: one record of the log, a tombstone when it has no value. -/
structure Record where
  topic : Nat
  partition : Int
  offset : Int
  key : Bytes
  value : Option Bytes
  deriving DecidableEq

namespace CompactedState

/-- An empty state covering `topics` topics. -/
def new (topics : Nat) : CompactedState := ⟨List.replicate topics ∅⟩

/-- What a record does to the map of its topic. -/
def applyTo (alive : Table Bytes Latest) (record : Record) : Table Bytes Latest :=
  match record.value with
  | some value =>
    match alive.get record.key with
    | some current =>
      if record.offset ≥ current.offset then
        alive.insert record.key ⟨record.partition, record.offset, value⟩
      else alive
    | none => alive.insert record.key ⟨record.partition, record.offset, value⟩
  | none =>
    if (alive.get record.key).any fun current => record.offset ≥ current.offset then
      alive.remove record.key
    else alive

/-- Fold one record in. -/
def apply (state : CompactedState) (record : Record) : CompactedState :=
  match state.perTopic[record.topic]? with
  | none => state
  | some alive => ⟨state.perTopic.set record.topic (applyTo alive record)⟩

/-- Fold the records in as they arrive. -/
def applyAll (state : CompactedState) (arrivals : List Record) : CompactedState :=
  arrivals.foldl apply state

/-- The entries of the maps, topic by topic. -/
def entries (state : CompactedState) : List CompactedEntry :=
  state.perTopic.zipIdx.flatMap fun (alive, topic) =>
    alive.rows.map fun (key, current) =>
      ⟨topic, current.partition, current.offset, key, current.value⟩

end CompactedState

/-- What the survivors are sorted by. -/
def CompactedEntry.coordinates (entry : CompactedEntry) : Nat ×ₗ Int ×ₗ Int :=
  toLex (entry.topic, toLex (entry.partition, entry.offset))

/-- In log order. -/
def InLogOrder (survivors : List CompactedEntry) : Prop :=
  survivors.Pairwise fun a b => a.coordinates ≤ b.coordinates

/-- What `into_survivors` may return: a map is iterated in any order and the sort is unstable, so
it is some list of the entries that is in log order. -/
structure IntoSurvivors (state : CompactedState) (survivors : List CompactedEntry) : Prop where
  perm : survivors.Perm state.entries
  sorted : InLogOrder survivors

/-! ## What a snapshot is for -/

/-- The records of one key of one topic. -/
def Record.SameKey (a b : Record) : Prop := a.topic = b.topic ∧ a.key = b.key

instance (a b : Record) : Decidable (a.SameKey b) := inferInstanceAs (Decidable (_ ∧ _))

/-- A key's records have distinct offsets. -/
def DistinctOffsets (log : List Record) : Prop :=
  log.Pairwise fun a b => a.SameKey b → a.offset ≠ b.offset

/-- The record with the largest offset of its key. -/
def Newest (log : List Record) (record : Record) : Prop :=
  record ∈ log ∧ ∀ other ∈ log, other.SameKey record → other.offset ≤ record.offset

/-- The entry of a record that has a value. -/
def Record.entry (record : Record) (value : Bytes) : CompactedEntry :=
  ⟨record.topic, record.partition, record.offset, record.key, value⟩

/-- The compacted log: in log order, the newest record of each key, unless that is a tombstone. It
says nothing of the order of arrival. -/
structure Compacted (log : List Record) (survivors : List CompactedEntry) : Prop where
  sorted : InLogOrder survivors
  nodup : survivors.Nodup
  mem : ∀ entry, entry ∈ survivors ↔
    ∃ record value, Newest log record ∧ record.value = some value ∧ entry = record.entry value

/-- When the snapshot is the compacted log: a key that lives is of a topic the state covers, and in
the order of arrival, each value of a key whose newest record is a tombstone comes before a
tombstone of that key that is newer. -/
structure ArrivesInTime (topics : Nat) (arrivals : List Record) : Prop where
  covered : ∀ record, Newest arrivals record → record.value ≠ none → record.topic < topics
  deleted : ∀ record later tombstone, record :: later <:+ arrivals → record.value ≠ none →
    record.topic < topics → Newest arrivals tombstone → tombstone.SameKey record →
    tombstone.value = none →
    ∃ other ∈ later, other.SameKey record ∧ other.value = none ∧ record.offset < other.offset

/-! ## A key's entry is a last-writer-wins cell -/

open LastWrite (Held Write)

namespace Latest

/-- What a cell holds when the map holds this. -/
def held (latest : Latest) : Held Int (Int × Bytes) :=
  ⟨latest.offset, latest.partition, latest.value⟩

theorem held_injective : Function.Injective held := by
  rintro ⟨partition, offset, value⟩ ⟨partition', offset', value'⟩ h
  simp only [held, Held.mk.injEq, Prod.mk.injEq] at h
  obtain ⟨rfl, rfl, rfl⟩ := h
  rfl

end Latest

/-- A record as a write to its key's cell. -/
def Record.write (record : Record) : Write Int (Int × Bytes) :=
  ⟨record.offset, record.value.map fun value => (record.partition, value)⟩

/-- The writes of one key, in the order they arrive. -/
def writesOf (topic : Nat) (key : Bytes) (arrivals : List Record) : List (Write Int (Int × Bytes)) :=
  (arrivals.filter fun record => record.topic = topic ∧ record.key = key).map Record.write

namespace CompactedState

/-- What the state holds for a key. -/
def get (state : CompactedState) (topic : Nat) (key : Bytes) : Option Latest :=
  state.perTopic[topic]?.bind fun alive => alive.get key

theorem get_applyTo_self (alive : Table Bytes Latest) (record : Record) :
    ((applyTo alive record).get record.key).map Latest.held =
      LastWrite.apply ((alive.get record.key).map Latest.held) record.write := by
  unfold applyTo
  cases hvalue : record.value with
  | some value =>
    cases hget : alive.get record.key with
    | none => simp [LastWrite.apply, Record.write, Latest.held, hvalue]
    | some current =>
      by_cases hle : current.offset ≤ record.offset
      · simp [LastWrite.apply, Record.write, Latest.held, hvalue, hle]
      · simp [LastWrite.apply, Record.write, Latest.held, hvalue, hle, hget]
  | none =>
    cases hget : alive.get record.key with
    | none => simp [LastWrite.apply, Record.write, hvalue, hget]
    | some current =>
      by_cases hle : current.offset ≤ record.offset
      · simp [LastWrite.apply, Record.write, Latest.held, hvalue, hle, Table.get_remove]
      · simp [LastWrite.apply, Record.write, Latest.held, hvalue, hle, hget]

theorem get_applyTo_of_ne (alive : Table Bytes Latest) {record : Record} {key : Bytes}
    (h : record.key ≠ key) : (applyTo alive record).get key = alive.get key := by
  have h' : key ≠ record.key := Ne.symm h
  unfold applyTo
  split
  · split
    · split_ifs
      · exact Table.get_insert_of_ne _ _ h'
      · rfl
    · exact Table.get_insert_of_ne _ _ h'
  · split_ifs
    · rw [Table.get_remove, if_neg h']
    · rfl

@[simp] theorem length_apply (state : CompactedState) (record : Record) :
    (state.apply record).perTopic.length = state.perTopic.length := by
  unfold apply
  split <;> simp

/-- The step lemma: a record is a write to the cell of its key, and to no other. -/
theorem get_apply {state : CompactedState} {topic : Nat} (h : topic < state.perTopic.length)
    (key : Bytes) (record : Record) :
    ((state.apply record).get topic key).map Latest.held =
      LastWrite.fold ((state.get topic key).map Latest.held) (writesOf topic key [record]) := by
  by_cases htopic : record.topic = topic
  · subst htopic
    have hget : state.perTopic[record.topic]? = some state.perTopic[record.topic] :=
      List.getElem?_eq_getElem h
    have happly : (state.apply record).get record.topic key =
        (applyTo state.perTopic[record.topic] record).get key := by
      simp [apply, get, h]
    rw [happly, get, hget, Option.bind_some]
    by_cases hkey : record.key = key
    · subst hkey
      simpa [writesOf] using get_applyTo_self _ record
    · simp [writesOf, hkey, get_applyTo_of_ne _ hkey]
  · have hother : (state.apply record).get topic key = state.get topic key := by
      unfold apply get
      split
      · rfl
      · rw [List.getElem?_set_ne htopic]
    simp [hother, writesOf, htopic]

theorem writesOf_cons (topic : Nat) (key : Bytes) (record : Record) (arrivals : List Record) :
    writesOf topic key (record :: arrivals) =
      writesOf topic key [record] ++ writesOf topic key arrivals := by
  rw [writesOf, writesOf, writesOf, ← List.map_append, ← List.filter_append, List.singleton_append]

/-- The run lemma: a key's entry is its cell after the writes of the key. -/
theorem get_applyAll {state : CompactedState} {topic : Nat} (h : topic < state.perTopic.length)
    (key : Bytes) (arrivals : List Record) :
    ((state.applyAll arrivals).get topic key).map Latest.held =
      LastWrite.fold ((state.get topic key).map Latest.held) (writesOf topic key arrivals) := by
  induction arrivals generalizing state with
  | nil => rfl
  | cons record arrivals ih =>
    have hlength : topic < (state.apply record).perTopic.length := by rwa [length_apply]
    calc ((state.applyAll (record :: arrivals)).get topic key).map Latest.held
        = (((state.apply record).applyAll arrivals).get topic key).map Latest.held := rfl
      _ = LastWrite.fold (((state.apply record).get topic key).map Latest.held)
            (writesOf topic key arrivals) := ih hlength
      _ = _ := by rw [get_apply h, writesOf_cons topic key record arrivals, LastWrite.fold_append]

theorem length_applyAll (state : CompactedState) (arrivals : List Record) :
    (state.applyAll arrivals).perTopic.length = state.perTopic.length := by
  induction arrivals generalizing state with
  | nil => rfl
  | cons record arrivals ih => exact (ih _).trans (length_apply state record)

/-- What a fresh state holds for a key after the arrivals. -/
theorem get_after {topics topic : Nat} (h : topic < topics) (key : Bytes) (arrivals : List Record) :
    (((new topics).applyAll arrivals).get topic key).map Latest.held =
      LastWrite.fold none (writesOf topic key arrivals) := by
  have hlength : topic < (new topics).perTopic.length := by simpa [new] using h
  have hempty : (new topics).get topic key = none := by simp [get, new, h]
  rw [get_applyAll hlength, hempty, Option.map_none]

theorem get_eq_none_of_ge {topics topic : Nat} (h : topics ≤ topic) (key : Bytes)
    (arrivals : List Record) : ((new topics).applyAll arrivals).get topic key = none := by
  have hlength : ((new topics).applyAll arrivals).perTopic.length ≤ topic := by
    simpa [length_applyAll, new] using h
  rw [get, List.getElem?_eq_none hlength, Option.bind_none]

theorem mem_entries {state : CompactedState} {entry : CompactedEntry} :
    entry ∈ state.entries ↔ state.get entry.topic entry.key =
      some ⟨entry.partition, entry.offset, entry.value⟩ := by
  simp only [entries, List.mem_flatMap, List.mem_map, Prod.exists, List.mem_zipIdx_iff_getElem?, get,
    Option.bind_eq_some_iff]
  constructor
  · rintro ⟨alive, topic, halive, key, current, hrow, rfl⟩
    exact ⟨alive, halive, Table.get_eq_some_iff.mpr hrow⟩
  · rintro ⟨alive, halive, hget⟩
    exact ⟨alive, entry.topic, halive, entry.key, _, Table.get_eq_some_iff.mp hget, rfl⟩

/-- A topic's map has one row for each key, and the entries of different topics differ. -/
theorem nodup_entries (state : CompactedState) : state.entries.Nodup := by
  refine List.nodup_flatMap.mpr ⟨fun (alive, topic) _ => ?_, ?_⟩
  · refine alive.rows_nodup.map fun a b h => ?_
    simp only [CompactedEntry.mk.injEq, true_and] at h
    obtain ⟨hpartition, hoffset, hkey, hvalue⟩ := h
    exact Prod.ext hkey (by rw [Latest.mk.injEq]; exact ⟨hpartition, hoffset, hvalue⟩)
  · have htopics : (state.perTopic.zipIdx.map Prod.snd).Nodup := by
      rw [List.zipIdx_map_snd]
      exact List.nodup_range'
    refine (List.pairwise_map.mp htopics).imp fun {a b} hne => ?_
    intro entry ha hb
    obtain ⟨_, _, rfl⟩ := List.mem_map.mp ha
    obtain ⟨_, _, heq⟩ := List.mem_map.mp hb
    exact hne (congrArg CompactedEntry.topic heq).symm

end CompactedState

theorem IntoSurvivors.mem_iff {state : CompactedState} {survivors : List CompactedEntry}
    (h : IntoSurvivors state survivors) (entry : CompactedEntry) :
    entry ∈ survivors ↔ state.get entry.topic entry.key =
      some ⟨entry.partition, entry.offset, entry.value⟩ := by
  rw [h.perm.mem_iff, CompactedState.mem_entries]

section
variable {arrivals : List Record}

/-- A key with a record has a newest one. -/
theorem exists_newest {record : Record} (h : record ∈ arrivals) :
    ∃ newest, Newest arrivals newest ∧ newest.SameKey record := by
  have hmem : ∀ other, other ∈ (arrivals.filter fun other => other.SameKey record).toFinset ↔
      other ∈ arrivals ∧ other.SameKey record := by simp
  obtain ⟨newest, hnewest, hmax⟩ := Finset.exists_max_image _ Record.offset
    ⟨record, (hmem record).mpr ⟨h, rfl, rfl⟩⟩
  obtain ⟨hin, hsame⟩ := (hmem newest).mp hnewest
  refine ⟨newest, ⟨hin, fun other hother hkey => ?_⟩, hsame⟩
  exact hmax other ((hmem other).mpr ⟨hother, hkey.1.trans hsame.1, hkey.2.trans hsame.2⟩)

/-- Distinct offsets tell the records of a key apart. -/
theorem DistinctOffsets.eq_of_offset (h : DistinctOffsets arrivals) {a b : Record}
    (ha : a ∈ arrivals) (hb : b ∈ arrivals) (hsame : a.SameKey b) (hoffset : a.offset = b.offset) :
    a = b := by
  have hsymm : Std.Symm fun a b : Record => a.SameKey b → a.offset ≠ b.offset :=
    ⟨fun x y hxy hyx heq => hxy ⟨hyx.1.symm, hyx.2.symm⟩ heq.symm⟩
  by_contra hne
  exact List.Pairwise.forall h ha hb hne hsame hoffset

theorem Newest.unique (hdistinct : DistinctOffsets arrivals) {a b : Record}
    (ha : Newest arrivals a) (hb : Newest arrivals b) (hsame : a.SameKey b) : a = b :=
  hdistinct.eq_of_offset ha.1 hb.1 hsame
    (le_antisymm (hb.2 a ha.1 hsame) (ha.2 b hb.1 ⟨hsame.1.symm, hsame.2.symm⟩))

theorem mem_writesOf {topic : Nat} {key : Bytes} {write : Write Int (Int × Bytes)} :
    write ∈ writesOf topic key arrivals ↔
      ∃ record ∈ arrivals, record.topic = topic ∧ record.key = key ∧ record.write = write := by
  simp only [writesOf, List.mem_map, List.mem_filter, decide_eq_true_eq, and_assoc]

theorem writesOf_append (topic : Nat) (key : Bytes) (before after : List Record) :
    writesOf topic key (before ++ after) = writesOf topic key before ++ writesOf topic key after := by
  rw [writesOf, List.filter_append, List.map_append, writesOf, writesOf]

/-- The newest record of a key is what the state holds for it, if it has a value. -/
theorem get_of_newest (hdistinct : DistinctOffsets arrivals) {topics : Nat} {record : Record}
    (hnewest : Newest arrivals record) {value : Bytes} (hvalue : record.value = some value)
    (htopic : record.topic < topics) :
    ((CompactedState.new topics).applyAll arrivals).get record.topic record.key =
      some ⟨record.partition, record.offset, value⟩ := by
  refine Option.map_injective Latest.held_injective ?_
  rw [CompactedState.get_after htopic]
  obtain ⟨before, after, rfl⟩ := List.append_of_mem hnewest.1
  have hsplit : writesOf record.topic record.key (before ++ record :: after) =
      writesOf record.topic record.key before ++
        record.write :: writesOf record.topic record.key after := by
    rw [writesOf_append, CompactedState.writesOf_cons]
    simp [writesOf]
  have hwrite : record.write.value = some (record.partition, value) := by
    simp [Record.write, hvalue]
  rw [hsplit, LastWrite.fold_eq_newest hwrite]
  · rfl
  · intro write hmem
    obtain ⟨other, hother, ht, hk, rfl⟩ := mem_writesOf.mp hmem
    exact hnewest.2 other (by simp [hother]) ⟨ht, hk⟩
  · intro write hmem
    obtain ⟨other, hother, ht, hk, rfl⟩ := mem_writesOf.mp hmem
    have hne : record.offset ≠ other.offset :=
      List.rel_of_pairwise_cons (List.pairwise_append.mp hdistinct).2.1 hother
        ⟨ht.symm, hk.symm⟩
    exact lt_of_le_of_ne (hnewest.2 other (by simp [hother]) ⟨ht, hk⟩) hne.symm

end

/-! ## Deleted keys -/

/-- A key's writes are all deleted exactly when each value of it comes before a tombstone of it
whose offset is no smaller. -/
theorem emptied_writesOf_iff {topic : Nat} {key : Bytes} {arrivals : List Record} :
    LastWrite.Emptied (writesOf topic key arrivals) ↔
      ∀ record later, record :: later <:+ arrivals → record.topic = topic → record.key = key →
        record.value ≠ none →
        ∃ other ∈ later, other.SameKey record ∧ other.value = none ∧
          record.offset ≤ other.offset := by
  induction arrivals with
  | nil =>
    refine ⟨fun _ record later h => ?_, fun _ => trivial⟩
    exact absurd (List.suffix_nil.mp h) (List.cons_ne_nil _ _)
  | cons first arrivals ih =>
    have htail : LastWrite.Emptied (writesOf topic key (first :: arrivals)) ↔
        (first.topic = topic → first.key = key → first.value ≠ none →
          LastWrite.Deletes (writesOf topic key arrivals) first.offset) ∧
        LastWrite.Emptied (writesOf topic key arrivals) := by
      by_cases hkey : first.topic = topic ∧ first.key = key
      · have hcons : writesOf topic key (first :: arrivals) =
            first.write :: writesOf topic key arrivals := by simp [writesOf, hkey]
        simp [hcons, LastWrite.Emptied, hkey, Record.write]
      · have hcons : writesOf topic key (first :: arrivals) = writesOf topic key arrivals := by
          simp [writesOf, hkey]
        rw [hcons, iff_and_self]
        exact fun _ ht hk => absurd ⟨ht, hk⟩ hkey
    have hdeletes : first.topic = topic → first.key = key →
        (LastWrite.Deletes (writesOf topic key arrivals) first.offset ↔
          ∃ other ∈ arrivals, other.SameKey first ∧ other.value = none ∧
            first.offset ≤ other.offset) := by
      rintro rfl rfl
      constructor
      · rintro ⟨write, hmem, hnone, hle⟩
        obtain ⟨other, hother, ht, hk, rfl⟩ := mem_writesOf.mp hmem
        exact ⟨other, hother, ⟨ht, hk⟩, Option.map_eq_none_iff.mp hnone, hle⟩
      · rintro ⟨other, hother, ⟨ht, hk⟩, hnone, hle⟩
        exact ⟨other.write, mem_writesOf.mpr ⟨other, hother, ht, hk, rfl⟩,
          by simp [Record.write, hnone], hle⟩
    rw [htail, ih]
    constructor
    · rintro ⟨hfirst, hrest⟩ record later hsuffix ht hk hvalue
      rcases List.suffix_cons_iff.mp hsuffix with heq | hsuffix
      · obtain ⟨rfl, rfl⟩ := List.cons.inj heq
        exact (hdeletes ht hk).mp (hfirst ht hk hvalue)
      · exact hrest record later hsuffix ht hk hvalue
    · refine fun h => ⟨fun ht hk hvalue => ?_, fun record later hsuffix => ?_⟩
      · exact (hdeletes ht hk).mpr (h first arrivals List.suffix_rfl ht hk hvalue)
      · exact h record later (hsuffix.trans (List.suffix_cons _ _))

section
variable {arrivals : List Record} {topics : Nat} {survivors : List CompactedEntry}

/-- A key of a covered topic is gone from the snapshot exactly when its values are all deleted. -/
theorem get_eq_none_iff {topic : Nat} (htopic : topic < topics) (key : Bytes) :
    ((CompactedState.new topics).applyAll arrivals).get topic key = none ↔
      LastWrite.Emptied (writesOf topic key arrivals) := by
  rw [← Option.map_eq_none_iff (f := Latest.held), CompactedState.get_after htopic,
    LastWrite.fold_eq_none_iff, and_iff_left nofun]

/-- Only a key with a record is in the snapshot. -/
theorem exists_record_of_get {topic : Nat} {key : Bytes} {latest : Latest}
    (h : ((CompactedState.new topics).applyAll arrivals).get topic key = some latest) :
    topic < topics ∧ ∃ record ∈ arrivals, record.topic = topic ∧ record.key = key := by
  have htopic : topic < topics := by
    by_contra hge
    rw [CompactedState.get_eq_none_of_ge (not_lt.mp hge)] at h
    cases h
  refine ⟨htopic, ?_⟩
  by_contra hnone
  have hempty : writesOf topic key arrivals = [] := by
    refine List.eq_nil_iff_forall_not_mem.mpr fun write hmem => hnone ?_
    obtain ⟨record, hrecord, ht, hk, _⟩ := mem_writesOf.mp hmem
    exact ⟨record, hrecord, ht, hk⟩
  rw [(get_eq_none_iff htopic key).mpr (by rw [hempty]; trivial)] at h
  cases h

/-- The snapshot is the compacted log exactly when the arrivals were in time. -/
theorem compacted_iff (hdistinct : DistinctOffsets arrivals)
    (h : IntoSurvivors ((CompactedState.new topics).applyAll arrivals) survivors) :
    Compacted arrivals survivors ↔ ArrivesInTime topics arrivals := by
  constructor
  · intro hcompacted
    refine ⟨fun record hnewest hvalue => ?_, ?_⟩
    · obtain ⟨value, hvalue⟩ := Option.ne_none_iff_exists'.mp hvalue
      have hmem := (hcompacted.mem (record.entry value)).mpr ⟨record, value, hnewest, hvalue, rfl⟩
      exact (exists_record_of_get ((h.mem_iff _).mp hmem)).1
    · intro record later tombstone hsuffix hvalue htopic htombstone hsame hnone
      have hrecord : record ∈ arrivals := hsuffix.mem List.mem_cons_self
      -- what the state holds for the key would be its newest record, which is the tombstone
      have hgone : ((CompactedState.new topics).applyAll arrivals).get record.topic record.key =
          none := by
        by_contra hsome
        obtain ⟨latest, hlatest⟩ := Option.ne_none_iff_exists'.mp hsome
        have hmem := (h.mem_iff ⟨record.topic, latest.partition, latest.offset, record.key,
          latest.value⟩).mpr hlatest
        obtain ⟨newest, value, hnewest, hsome, heq⟩ := (hcompacted.mem _).mp hmem
        simp only [Record.entry, CompactedEntry.mk.injEq] at heq
        have hkey : tombstone.SameKey newest := ⟨hsame.1.trans heq.1, hsame.2.trans heq.2.2.2.1⟩
        rw [htombstone.unique hdistinct hnewest hkey, hsome] at hnone
        cases hnone
      obtain ⟨other, hother, hkey, hdeletion, hle⟩ := emptied_writesOf_iff.mp
        ((get_eq_none_iff htopic record.key).mp hgone) record later hsuffix rfl rfl hvalue
      refine ⟨other, hother, hkey, hdeletion, lt_of_le_of_ne hle fun heq => hvalue ?_⟩
      rw [hdistinct.eq_of_offset hrecord (hsuffix.mem (List.mem_cons_of_mem _ hother))
        ⟨hkey.1.symm, hkey.2.symm⟩ heq, hdeletion]
  · intro hintime
    refine ⟨h.sorted, h.perm.nodup_iff.mpr (CompactedState.nodup_entries _), fun entry => ?_⟩
    rw [h.mem_iff]
    constructor
    · intro hget
      obtain ⟨htopic, record, hrecord, ht, hk⟩ := exists_record_of_get hget
      obtain ⟨newest, hnewest, hsame⟩ := exists_newest hrecord
      have ht' : newest.topic = entry.topic := hsame.1.trans ht
      have hk' : newest.key = entry.key := hsame.2.trans hk
      cases hvalue : newest.value with
      | some value =>
        have hheld := get_of_newest hdistinct hnewest hvalue (ht' ▸ htopic : newest.topic < topics)
        rw [ht', hk', hget, Option.some.injEq, Latest.mk.injEq] at hheld
        refine ⟨newest, value, hnewest, hvalue, ?_⟩
        simp [Record.entry, ht', hk', ← hheld.1, ← hheld.2.1, ← hheld.2.2]
      | none =>
        -- a deleted key holds nothing, since each of its values is deleted in time
        have hgone := (get_eq_none_iff htopic entry.key).mpr <|
          emptied_writesOf_iff.mpr fun value later hsuffix hvt hvk hsome => by
            obtain ⟨other, hother, hkey, hnone, hlt⟩ := hintime.deleted value later newest hsuffix
              hsome (hvt ▸ htopic) hnewest ⟨ht'.trans hvt.symm, hk'.trans hvk.symm⟩ hvalue
            exact ⟨other, hother, hkey, hnone, hlt.le⟩
        rw [hgone] at hget
        cases hget
    · rintro ⟨record, value, hnewest, hvalue, rfl⟩
      have htopic := hintime.covered record hnewest (by simp [hvalue])
      exact get_of_newest hdistinct hnewest hvalue htopic

/-- The compacted log is one list up to entries with the same coordinates. -/
theorem Compacted.perm {log log' : List Record} {survivors' : List CompactedEntry}
    (h : Compacted log survivors) (h' : Compacted log' survivors') (hlog : log'.Perm log) :
    survivors'.Perm survivors := by
  refine (List.perm_ext_iff_of_nodup h'.nodup h.nodup).mpr fun entry => ?_
  simp only [h.mem, h'.mem, Newest, hlog.mem_iff]

end

/-- Distinct offsets are a matter of the records, not of their order. -/
theorem DistinctOffsets.perm {log log' : List Record} (h : DistinctOffsets log)
    (hlog : log'.Perm log) : DistinctOffsets log' := by
  refine (hlog.pairwise_iff fun {a b} hab hba heq => ?_).mpr h
  exact hab ⟨hba.1.symm, hba.2.symm⟩ heq.symm

/-- What `apply` and `into_survivors` make of the arrivals is the compacted log exactly when they
were in time; arrivals of the same records that are all in time have one outcome. -/
theorem compacted_iff_arrivesInTime {topics : Nat} {arrivals : List Record}
    (hdistinct : DistinctOffsets arrivals) {survivors : List CompactedEntry}
    (h : IntoSurvivors ((CompactedState.new topics).applyAll arrivals) survivors) :
    (Compacted arrivals survivors ↔ ArrivesInTime topics arrivals) ∧
      ∀ arrivals' survivors', arrivals'.Perm arrivals →
        IntoSurvivors ((CompactedState.new topics).applyAll arrivals') survivors' →
        ArrivesInTime topics arrivals → ArrivesInTime topics arrivals' →
        survivors'.Perm survivors := by
  refine ⟨compacted_iff hdistinct h, fun arrivals' survivors' hperm h' hintime hintime' => ?_⟩
  have hcompacted' := (compacted_iff (hdistinct.perm hperm) h').mpr hintime'
  exact ((compacted_iff hdistinct h).mpr hintime).perm hcompacted' hperm

/-! ## A tombstone that comes early -/

namespace Sample

def value : Record := ⟨0, 0, 2, [97], some [1]⟩

def tombstone : Record := ⟨0, 0, 5, [97], none⟩

theorem intoSurvivors_early :
    IntoSurvivors ((CompactedState.new 1).applyAll [tombstone, value]) [value.entry [1]] :=
  ⟨.refl _, List.pairwise_singleton _ _⟩

theorem intoSurvivors_inOrder :
    IntoSurvivors ((CompactedState.new 1).applyAll [value, tombstone]) [] :=
  ⟨.refl _, .nil⟩

theorem distinctOffsets : DistinctOffsets [value, tombstone] := by
  simp [DistinctOffsets, value, tombstone]

theorem newest_tombstone {log : List Record} (h : ∀ record, record ∈ log ↔
    record = value ∨ record = tombstone) {record : Record} (hnewest : Newest log record) :
    record = tombstone := by
  rcases (h record).mp hnewest.1 with rfl | rfl
  · have hle := hnewest.2 tombstone ((h tombstone).mpr (.inr rfl)) ⟨rfl, rfl⟩
    exact absurd hle (by decide)
  · rfl

theorem arrivesInTime_inOrder : ArrivesInTime 1 [value, tombstone] := by
  refine ⟨?_, ?_⟩
  · intro record hnewest hvalue
    rw [newest_tombstone (by simp) hnewest] at hvalue
    exact absurd rfl hvalue
  · intro record later other hsuffix hvalue _ _ _ _
    rcases List.suffix_cons_iff.mp hsuffix with heq | hsuffix
    · obtain ⟨rfl, rfl⟩ := List.cons.inj heq
      exact ⟨tombstone, List.mem_singleton_self _, ⟨rfl, rfl⟩, rfl, by decide⟩
    · have hrecord := List.mem_singleton.mp (hsuffix.mem List.mem_cons_self)
      rw [hrecord] at hvalue
      exact absurd rfl hvalue

/-- In the order of their offsets the two records leave nothing. -/
theorem compacted_inOrder : Compacted [value, tombstone] [] ∧ List.Perm [] ([] : List CompactedEntry) :=
  have h := compacted_iff_arrivesInTime distinctOffsets intoSurvivors_inOrder
  ⟨h.1.mpr arrivesInTime_inOrder, h.2 [value, tombstone] [] (.refl _) intoSurvivors_inOrder
    arrivesInTime_inOrder arrivesInTime_inOrder⟩

/-- When the tombstone comes first, the value it deletes survives. -/
theorem early_tombstone_lost :
    DistinctOffsets [tombstone, value] ∧ [tombstone, value].Perm [value, tombstone] ∧
      IntoSurvivors ((CompactedState.new 1).applyAll [value, tombstone]) [] ∧
      IntoSurvivors ((CompactedState.new 1).applyAll [tombstone, value]) [value.entry [1]] ∧
      ¬Compacted [tombstone, value] [value.entry [1]] := by
  refine ⟨by simp [DistinctOffsets, value, tombstone], .swap _ _ _, intoSurvivors_inOrder,
    intoSurvivors_early, fun h => ?_⟩
  obtain ⟨record, bytes, hnewest, hvalue, _⟩ :=
    (h.mem (value.entry [1])).mp (List.mem_singleton_self _)
  rw [newest_tombstone (by simp [or_comm]) hnewest] at hvalue
  cases hvalue

end Sample

end Saci.Kafka
