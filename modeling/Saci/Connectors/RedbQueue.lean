import Saci.Library.Run
import Saci.Connectors.Redb

/-!
# The redb queue

One table of one redb file, used by sinks and consuming sources that are opened, driven and finished
in any order, next to keys of other writers. Beside the state of the code a run keeps a history:
which entries of the connector are unconsumed, in the order they were accepted, and which batches
every source has returned.
-/

namespace Saci

/-! ## Keys -/

theorem size_lt_pow_width : UInt64.size < 10 ^ SEQ_WIDTH := by decide

theorem toNat_lt_pow_width (seq : UInt64) : seq.toNat < 10 ^ SEQ_WIDTH :=
  seq.toNat_lt.trans size_lt_pow_width

/-- `parse_seq` reads back the generated keys and no others. -/
theorem parseSeq_eq_some_iff {key keyPrefix keySuffix : Bytes} {seq : UInt64} :
    parseSeq key keyPrefix keySuffix = some seq ↔ key = entryKey keyPrefix seq keySuffix := by
  simp only [parseSeq, Option.bind_eq_bind, Option.bind_eq_some_iff,
    List.isPrefixOf?_eq_some_iff_append_eq, List.isSuffixOf?_eq_some_iff_append_eq]
  constructor
  · rintro ⟨rest, rfl, middle, rfl, hmiddle⟩
    split_ifs at hmiddle with hdigits
    rw [parseU64] at hmiddle
    split_ifs at hmiddle with hlt
    obtain rfl := Option.some.inj hmiddle
    have hmiddle : decimal SEQ_WIDTH (decimalValue middle) = middle := by
      rw [← hdigits.1]
      exact decimal_decimalValue (List.all_eq_true.mp hdigits.2)
    rw [entryKey, UInt64.toNat_ofNat_of_lt' hlt, hmiddle, List.append_assoc]
  · rintro rfl
    refine ⟨_, (List.append_assoc ..).symm, _, rfl, ?_⟩
    have hdigits : (decimal SEQ_WIDTH seq.toNat).all isAsciiDigit = true :=
      List.all_eq_true.mpr fun b hb => isAsciiDigit_of_mem_decimal hb
    have hvalue : decimalValue (decimal SEQ_WIDTH seq.toNat) = seq.toNat := by
      rw [decimalValue_decimal, Nat.mod_eq_of_lt (toNat_lt_pow_width seq)]
    rw [if_pos ⟨length_decimal .., hdigits⟩, parseU64, hvalue, if_pos seq.toNat_lt,
      UInt64.ofNat_toNat]

theorem entryKey_lt_iff {keyPrefix keySuffix : Bytes} {m n : UInt64} :
    entryKey keyPrefix m keySuffix < entryKey keyPrefix n keySuffix ↔ m < n :=
  (append_decimal_lt_iff (toNat_lt_pow_width m) (toNat_lt_pow_width n) ..).trans
    UInt64.lt_iff_toNat_lt.symm

theorem entryKey_inj {keyPrefix keySuffix : Bytes} {m n : UInt64} :
    entryKey keyPrefix m keySuffix = entryKey keyPrefix n keySuffix ↔ m = n := by
  refine ⟨fun h => ?_, fun h => h ▸ rfl⟩
  have hm := parseSeq_eq_some_iff.mpr h
  exact Option.some.inj ((parseSeq_eq_some_iff.mpr rfl).symm.trans hm)

/-- The key of entry number `seq`. -/
def RedbConfig.key (config : RedbConfig) (seq : UInt64) : Bytes :=
  entryKey config.keyPrefix seq config.keySuffix

/-- The key is one this connector generates. -/
def RedbConfig.ours (config : RedbConfig) (key : Bytes) : Bool :=
  (parseSeq key config.keyPrefix config.keySuffix).isSome

variable {config : RedbConfig}

theorem parseSeq_key (seq : UInt64) :
    parseSeq (config.key seq) config.keyPrefix config.keySuffix = some seq :=
  parseSeq_eq_some_iff.mpr rfl

theorem RedbConfig.ours_iff {key : Bytes} : config.ours key = true ↔ ∃ seq, key = config.key seq := by
  rw [ours, Option.isSome_iff_exists]
  exact exists_congr fun seq => parseSeq_eq_some_iff

/-- A string is before every string it is a prefix of. -/
theorem le_of_isPrefix {l l' : Bytes} (h : l <+: l') : l ≤ l' := by
  obtain ⟨tail, rfl⟩ := h
  induction l with
  | nil => exact not_lt.mp (List.not_lt_nil _)
  | cons b l ih =>
    refine not_lt.mp fun hlt => ?_
    rw [List.cons_append, List.cons_lt_cons_iff] at hlt
    rcases hlt with hlt | ⟨-, hlt⟩
    · exact lt_irrefl b hlt
    · exact absurd hlt (not_lt.mpr ih)

/-- What lies between a string and one it is a prefix of has it as a prefix too. -/
theorem isPrefix_of_between {l a b : Bytes} (hla : l ≤ a) (hab : a ≤ b) (h : l <+: b) : l <+: a := by
  obtain ⟨tail, rfl⟩ := h
  induction l generalizing a with
  | nil => exact List.nil_prefix
  | cons x l ih =>
    cases a with
    | nil => exact absurd hla (not_le.mpr (List.nil_lt_cons ..))
    | cons y a =>
      rw [← not_lt, List.cons_lt_cons_iff, not_or, not_and] at hla
      rw [List.cons_append, ← not_lt, List.cons_lt_cons_iff, not_or, not_and] at hab
      obtain rfl : x = y := le_antisymm (not_lt.mp hla.1) (not_lt.mp hab.1)
      exact List.cons_prefix_cons.mpr
        ⟨rfl, ih (not_lt.mp (hla.2 rfl)) (not_lt.mp (hab.2 rfl))⟩

/-- From the prefix on, the keys with the prefix come first. -/
theorem takeWhile_isPrefixOf {keys : List Bytes} {keyPrefix : Bytes}
    (hsorted : keys.Pairwise (· < ·)) (hfrom : ∀ key ∈ keys, keyPrefix ≤ key) :
    keys.takeWhile (fun key => keyPrefix.isPrefixOf key) =
      keys.filter fun key => keyPrefix.isPrefixOf key := by
  induction keys with
  | nil => rfl
  | cons key keys ih =>
    obtain ⟨hhead, htail⟩ := List.pairwise_cons.mp hsorted
    obtain ⟨hkey, hkeys⟩ := List.forall_mem_cons.mp hfrom
    by_cases hstart : keyPrefix.isPrefixOf key = true
    · rw [List.takeWhile_cons_of_pos hstart, List.filter_cons_of_pos hstart, ih htail hkeys]
    · have hrest : ∀ other ∈ keys, ¬ keyPrefix.isPrefixOf other = true := fun other hother h =>
        hstart <| List.isPrefixOf_iff_prefix.mpr <|
          isPrefix_of_between hkey (hhead other hother).le (List.isPrefixOf_iff_prefix.mp h)
      rw [List.takeWhile_cons_of_neg hstart, List.filter_cons_of_neg hstart,
        List.filter_eq_nil_iff.mpr hrest]

theorem collectKeys_eq (table : RedbTable) :
    collectKeys config table = table.keys.filter fun key =>
      config.keyPrefix.isPrefixOf key && config.keySuffix.isSuffixOf key := by
  have hrange : (table.rangeFrom config.keyPrefix).map Prod.fst =
      table.keys.filter fun key => config.keyPrefix ≤ key :=
    (List.filter_map (f := Prod.fst) (p := fun key => decide (config.keyPrefix ≤ key))).symm
  rw [collectKeys, hrange, takeWhile_isPrefixOf (table.keys_sorted.filter _) fun key hkey =>
    of_decide_eq_true (List.mem_filter.mp hkey).2, List.filter_filter, List.filter_filter]
  refine List.filter_congr fun key _ => ?_
  rw [Bool.eq_iff_iff]
  simp only [Bool.and_eq_true, decide_eq_true_eq, List.isPrefixOf_iff_prefix]
  constructor
  · rintro ⟨⟨hend, hstart⟩, -⟩
    exact ⟨hstart, hend⟩
  · rintro ⟨hstart, hend⟩
    exact ⟨⟨hend, hstart⟩, le_of_isPrefix hstart⟩

/-- The keys of the connector's entries, in key order. -/
def queueOf (config : RedbConfig) (table : RedbTable) : List Bytes := table.keys.filter config.ours

theorem filter_collectKeys (table : RedbTable) :
    (collectKeys config table).filter config.ours = queueOf config table := by
  rw [collectKeys_eq, List.filter_filter, queueOf]
  refine List.filter_congr fun key _ => Bool.and_eq_left_iff_imp.mpr fun h => ?_
  obtain ⟨seq, rfl⟩ := RedbConfig.ours_iff.mp h
  simp only [RedbConfig.key, entryKey, Bool.and_eq_true, List.isPrefixOf_iff_prefix,
    List.isSuffixOf_iff_suffix]
  exact ⟨⟨_, (List.append_assoc ..).symm⟩, List.suffix_append ..⟩

theorem queueOf_sorted (table : RedbTable) : (queueOf config table).Pairwise (· < ·) :=
  table.keys_sorted.filter _

theorem saturatingSuccU64_le {n : UInt64} : n < saturatingSuccU64 n ∨ n.toNat = UInt64.size - 1 := by
  rw [saturatingSuccU64]
  split_ifs with h
  · refine .inl (UInt64.lt_iff_toNat_lt.mpr ?_)
    have hsucc : (n + 1).toNat = n.toNat + 1 := by
      rw [UInt64.toNat_add]
      exact Nat.mod_eq_of_lt h
    omega
  · exact .inr (by have := n.toNat_lt; rw [UInt64.size] at *; omega)

/-- The last number a sequence can give out. -/
def U64_MAX : UInt64 := 18446744073709551615

theorem le_U64_MAX (n : UInt64) : n ≤ U64_MAX := by
  rw [UInt64.le_iff_toNat_le]
  exact Nat.le_of_lt_succ n.toNat_lt

theorem eq_U64_MAX {n : UInt64} (h : n.toNat = UInt64.size - 1) : n = U64_MAX :=
  UInt64.toNat_inj.mp h

/-- Every entry is below the resumed sequence, unless the last number is taken. -/
theorem lt_resumeSeq {table : RedbTable} {seq : UInt64}
    (h : (table.get (config.key seq)).isSome) :
    seq < resumeSeq config table ∨ (table.get (config.key U64_MAX)).isSome := by
  obtain ⟨value, hvalue⟩ := Option.isSome_iff_exists.mp h
  have hrow : (config.key seq, value) ∈ table.rangeFrom config.keyPrefix := by
    refine Table.mem_rangeFrom.mpr ⟨hvalue, le_of_isPrefix ?_⟩
    exact ⟨_, (List.append_assoc ..).symm⟩
  cases hfind : (table.rangeFrom config.keyPrefix).reverse.findSome? fun entry =>
      parseSeq entry.1 config.keyPrefix config.keySuffix with
  | none =>
    have hnone := List.findSome?_eq_none_iff.mp hfind _ (List.mem_reverse.mpr hrow)
    cases (parseSeq_key seq).symm.trans hnone
  | some last =>
    obtain ⟨later, entry, earlier, hsplit, hparse, hlater⟩ := List.findSome?_eq_some_iff.mp hfind
    have hlast : entry.1 = config.key last := parseSeq_eq_some_iff.mp hparse
    have hentry : entry ∈ table.rangeFrom config.keyPrefix :=
      List.mem_reverse.mp (hsplit ▸ List.mem_append_right _ List.mem_cons_self)
    -- an entry above the one found would have been found first
    have hle : seq ≤ last := by
      have hmem : (config.key seq, value) ∈ later ++ entry :: earlier :=
        hsplit ▸ List.mem_reverse.mpr hrow
      rcases List.mem_append.mp hmem with hmem | hmem
      · have hnone := hlater _ hmem
        cases (parseSeq_key seq).symm.trans hnone
      rcases List.mem_cons.mp hmem with rfl | hmem
      · rw [entryKey_inj.mp hlast]
      · have hsorted : (later ++ entry :: earlier).Pairwise fun a b => b.1 < a.1 :=
          hsplit ▸ List.pairwise_reverse.mpr (table.sorted.filter _)
        have hlt := (List.pairwise_cons.mp (List.pairwise_append.mp hsorted).2.1).1 _ hmem
        rw [hlast] at hlt
        exact le_of_lt (entryKey_lt_iff.mp hlt)
    rw [resumeSeq, hfind]
    rcases saturatingSuccU64_le (n := last) with hlt | hmax
    · exact .inl (lt_of_le_of_lt hle hlt)
    · refine .inr (Option.isSome_iff_exists.mpr ⟨entry.2, ?_⟩)
      rw [← eq_U64_MAX hmax, ← hlast]
      exact (Table.mem_rangeFrom.mp hentry).1

/-! ## The system -/

/-- The table, the sink opened last, and the sources in the order they were built, without those that
were dropped. -/
structure RedbWorld where
  table : RedbTable
  sink : Option RedbSink
  sources : List (Option RedbSource)

inductive RedbEvent
  | openSink (fault : Option SaciError)
  | writeBatch (batch : RecordBatch) (fault : Option SaciError)
  | finishSink (fault : Option SaciError)
  | dropSink
  | newSource (consume : Bool)
  | nextBatch (source : Nat) (scanFault : Option SaciError)
      (faults : List (Option (Nat × SaciError)))
  | finishSource (source : Nat) (fault : Option SaciError)
  | dropSource (source : Nat)
  deriving DecidableEq

inductive RedbOutcome
  | ok
  | error (e : SaciError)
  | next (answer : NextBatch)
  /-- There is no such instance. -/
  | absent
  deriving DecidableEq

def RedbOutcome.ofResult : SaciResult Unit → RedbOutcome
  | .ok () => .ok
  | .error e => .error e

namespace RedbWorld

def sinkLocks (w : RedbWorld) : Bool := w.sink.any RedbSink.open_

/-- A source other than the `i`th holds its shared lock. -/
def othersLock (w : RedbWorld) (i : Nat) : Bool :=
  (w.sources.eraseIdx i).any fun source => source.any RedbSource.open_

def sourcesLock (w : RedbWorld) : Bool := w.sources.any fun source => source.any RedbSource.open_

def source? (w : RedbWorld) (i : Nat) : Option RedbSource := (w.sources[i]?).join

def setSource (w : RedbWorld) (i : Nat) (source : RedbSource) : RedbWorld :=
  { w with sources := w.sources.set i (some source) }

/-- One call on one of the instances. -/
def step (config : RedbConfig) (transformer : Transformer) (w : RedbWorld) :
    RedbEvent → RedbWorld × RedbOutcome
  | .openSink fault =>
    match RedbSink.openOn config w.table (w.sinkLocks || w.sourcesLock) fault with
    | .error e => (w, .error e)
    | .ok sink => ({ w with sink := some sink }, .ok)
  | .writeBatch batch fault =>
    match w.sink with
    | none => (w, .absent)
    | some sink =>
      let (sink, table, result) := sink.writeBatch config transformer w.table batch fault
      ({ w with sink := some sink, table := table }, .ofResult result)
  | .finishSink fault =>
    match w.sink with
    | none => (w, .absent)
    | some sink =>
      let (sink, result) := sink.finish fault
      ({ w with sink := some sink }, .ofResult result)
  | .dropSink => ({ w with sink := none }, .ok)
  | .newSource consume => ({ w with sources := w.sources ++ [some (.new consume)] }, .ok)
  | .nextBatch i scanFault faults =>
    match w.source? i with
    | none => (w, .absent)
    | some source =>
      let (source, answer) :=
        source.nextBatch config transformer w.table w.sinkLocks scanFault faults
      (w.setSource i source, .next answer)
  | .finishSource i fault =>
    match w.source? i with
    | none => (w, .absent)
    | some source =>
      let (source, table, result) :=
        source.finish config w.table (w.sinkLocks || w.othersLock i) fault
      ({ w.setSource i source with table := table }, .ofResult result)
  | .dropSource i => ({ w with sources := w.sources.set i none }, .ok)

end RedbWorld

/-! ## The history -/

/-- What a run has done so far. -/
structure RedbHistory where
  /-- The unconsumed entries of the connector, in the order they were accepted. -/
  queue : List Bytes
  /-- The batches a source has returned of the entry that is now under a key. -/
  returned : Nat → Bytes → List RecordBatch
  /-- The unconsumed entries when a source opened the file. -/
  opened : Nat → List Bytes

namespace RedbHistory

/-- Of the entries the connector had before the run, the acceptance order is taken to be their
sequence. -/
def start (config : RedbConfig) (table : RedbTable) : RedbHistory :=
  ⟨queueOf config table, fun _ _ => [], fun _ => []⟩

/-- What is gone from the table leaves the queue, and what is new in it joins at the end. -/
def observe (config : RedbConfig) (queue : List Bytes) (before after : RedbTable) : List Bytes :=
  queue.filter (fun key => (after.get key).isSome) ++
    (queueOf config after).filter fun key => (before.get key).isNone

/-- The batch a call returned of the entry under a key: a source returns batches of the entry at
the front of its list. -/
def gave (answer : NextBatch) (source : RedbSource) (key : Bytes) : List RecordBatch :=
  match answer with
  | .batch batch => if source.pending.bind List.head? = some key then [batch] else []
  | _ => []

def next (config : RedbConfig) (h : RedbHistory) (w : RedbWorld) (event : RedbEvent) (w' : RedbWorld)
    (outcome : RedbOutcome) : RedbHistory where
  queue := observe config h.queue w.table w'.table
  returned := fun i key =>
    if (w.table.get key).isNone ∧ (w'.table.get key).isSome then []
    else
      match event, outcome, w'.source? i with
      | .nextBatch j _ _, .next answer, some source =>
        if i = j then h.returned i key ++ gave answer source key else h.returned i key
      | _, _, _ => h.returned i key
  opened := fun i =>
    if (w.source? i).bind RedbSource.pending = none ∧
        (w'.source? i).bind RedbSource.pending ≠ none then h.queue
    else h.opened i

end RedbHistory

/-- A step of the world with its history. -/
def tracedStep (config : RedbConfig) (transformer : Transformer) (s : RedbWorld × RedbHistory)
    (event : RedbEvent) : Except Empty ((RedbWorld × RedbHistory) × RedbOutcome) :=
  let (w, outcome) := s.1.step config transformer event
  .ok ((w, s.2.next config s.1 event w outcome), outcome)

/-- The start of a run over a table. -/
def RedbWorld.start (table : RedbTable) : RedbWorld := ⟨table, none, []⟩

/-! ## The law -/

/-- The answers of that many calls of `next_batch` that nothing disturbs. -/
def RedbSource.calls (config : RedbConfig) (transformer : Transformer) (table : RedbTable) :
    Nat → RedbSource → List NextBatch
  | 0, _ => []
  | n + 1, source =>
    let (source, answer) := source.nextBatch config transformer table false none []
    answer :: calls config transformer table n source

/-- The batches of the entry under a key. -/
def batchesAt (transformer : Transformer) (table : RedbTable) (key : Bytes) : List RecordBatch :=
  (table.get key).elim [] fun value => (transformer.decode value).1

/-- The queue law in a state that a run has reached. -/
structure QueueLaw (config : RedbConfig) (transformer : Transformer) (w : RedbWorld) (h : RedbHistory) :
    Prop where
  /-- A write leaves every entry there is. -/
  kept : ∀ batch fault key value, w.table.get key = some value →
    (w.step config transformer (.writeBatch batch fault)).1.table.get key = some value
  /-- A source opened now lists this connector's unconsumed entries in acceptance order. -/
  order : (collectKeys config w.table).filter config.ours = h.queue
  /-- If what it lists decodes, it returns all of it in that order. -/
  yields : ∀ consume,
    (∀ key ∈ collectKeys config w.table, ∀ value, w.table.get key = some value →
      (transformer.decode value).2 = none) →
    let batches := (collectKeys config w.table).flatMap (batchesAt transformer w.table)
    (RedbSource.new consume).calls config transformer w.table (batches.length + 1) =
      batches.map .batch ++ [.eof]
  /-- What a source has still to read of the connector's entries is the end of what was unconsumed
  when it opened the file. -/
  listed : ∀ i source pending, w.source? i = some source → source.pending = some pending →
    pending.filter config.ours <:+ h.opened i
  /-- An entry goes only when a source finishes that has returned all of its batches, the last time
  it read it in one go. -/
  deleted : ∀ event key value, w.table.get key = some value →
    (w.step config transformer event).1.table.get key = none →
    ∃ i fault, event = .finishSource i fault ∧ (transformer.decode value).2 = none ∧
      (transformer.decode value).1 <:+ h.returned i key

/-- A write while the table holds the entry of the last number is one at that number, and no source
that is still to be finished has yielded the key it takes. -/
def KeyIsFree (config : RedbConfig) (w : RedbWorld) : RedbEvent → Prop
  | .writeBatch _ _ => ∀ sink ∈ w.sink,
    ((w.table.get (config.key U64_MAX)).isSome → sink.nextSeq = U64_MAX) ∧
      ∀ source ∈ w.sources.reduceOption, sink.nextKey config ∉ source.yielded
  | _ => True

instance (config : RedbConfig) (w : RedbWorld) (event : RedbEvent) :
    Decidable (KeyIsFree config w event) := by
  cases event <;> unfold KeyIsFree <;> infer_instance

end Saci
