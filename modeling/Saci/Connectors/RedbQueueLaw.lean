import Mathlib.Data.List.ReduceOption
import Saci.Connectors.RedbQueue

/-!
# The queue law

Every source keeps an invariant between its key list, the entry being decoded and what it returned;
the sink keeps its sequence above the table. From both the law of the queue holds in every state of
a run whose writes take free keys, and two runs show what happens where they do not.
-/

namespace Saci

variable {config : RedbConfig} {transformer : Transformer} {table : RedbTable}

/-! ## The queue -/

theorem eq_of_sorted {l l' : List Bytes} (h : l.Pairwise (· < ·)) (h' : l'.Pairwise (· < ·))
    (hmem : ∀ key, key ∈ l ↔ key ∈ l') : l = l' := by
  have hperm : l.Perm l' :=
    (List.perm_ext_iff_of_nodup (h.imp fun h => h.ne) (h'.imp fun h => h.ne)).mpr hmem
  exact hperm.eq_of_pairwise (fun _ _ _ _ hab hba => absurd hab hba.not_gt) h h'

theorem mem_queueOf_iff {key : Bytes} :
    key ∈ queueOf config table ↔ (table.get key).isSome = true ∧ config.ours key = true := by
  rw [queueOf, List.mem_filter, Table.mem_keys, Option.isSome_iff_exists]

/-- What a step leaves in the queue is what it leaves in the table, as long as a new entry is above
all that stay. -/
theorem observe_eq {after : RedbTable}
    (hnew : ∀ key ∈ queueOf config after, table.get key = none →
      ∀ old ∈ queueOf config table, (after.get old).isSome → old < key) :
    RedbHistory.observe config (queueOf config table) table after = queueOf config after := by
  refine eq_of_sorted ?_ (queueOf_sorted after) fun key => ?_
  · refine List.pairwise_append.mpr
      ⟨(queueOf_sorted table).filter _, (queueOf_sorted after).filter _, fun old hold key hkey => ?_⟩
    obtain ⟨hold, hstays⟩ := List.mem_filter.mp hold
    obtain ⟨hkey, hnone⟩ := List.mem_filter.mp hkey
    exact hnew key hkey (Option.isNone_iff_eq_none.mp hnone) old hold hstays
  · simp only [RedbHistory.observe, List.mem_append, List.mem_filter, mem_queueOf_iff,
      Option.isNone_iff_eq_none]
    cases hbefore : table.get key with
    | none => simp
    | some value => simp [and_comm]

/-! ## Sources -/

/-- What holds of a source between two calls, given what it has returned of each entry. -/
structure RedbSourceInv (config : RedbConfig) (transformer : Transformer) (table : RedbTable)
    (returned : Bytes → List RecordBatch) (opened : List Bytes) (source : RedbSource) : Prop where
  fresh : source.pending = none → source.yielded = [] ∧ source.current = none
  nodup : ∀ pending, source.pending = some pending → (source.yielded ++ pending).Nodup
  listed : ∀ pending, source.pending = some pending → pending.filter config.ours <:+ opened
  yielded : ∀ key ∈ source.yielded, ∀ value, table.get key = some value →
    (transformer.decode value).2 = none ∧ (transformer.decode value).1 <:+ returned key
  current : ∀ reader, source.current = some reader → source.open_ = true ∧
    ∃ key rest value given, source.pending = some (key :: rest) ∧ table.get key = some value ∧
      given <:+ returned key ∧ (reader.error = none → (transformer.decode value).2 = none ∧
        (transformer.decode value).1 = given ++ reader.batches)

namespace RedbSourceInv
variable {returned : Bytes → List RecordBatch} {opened : List Bytes} {source : RedbSource}

/-- No entry is being decoded any more. -/
theorem reset (h : RedbSourceInv config transformer table returned opened source) (open_ : Bool) :
    RedbSourceInv config transformer table returned opened
      { source with open_ := open_, current := none } :=
  ⟨fun hp => ⟨(h.fresh hp).1, rfl⟩, h.nodup, h.listed, h.yielded,
    fun _ hreader => absurd hreader (Option.some_ne_none _).symm⟩

/-- The front entry leaves the list once it has been returned whole. -/
theorem pop {key : Bytes} {rest : List Bytes}
    (h : RedbSourceInv config transformer table returned opened source)
    (hpending : source.pending = some (key :: rest))
    (hwhole : ∀ value, table.get key = some value →
      (transformer.decode value).2 = none ∧ (transformer.decode value).1 <:+ returned key) :
    RedbSourceInv config transformer table returned opened (source.pop key rest) := by
  have hnodup := h.nodup _ hpending
  have hlisted := h.listed _ hpending
  refine ⟨fun hp => absurd hp (Option.some_ne_none _), fun pending hp => ?_, fun pending hp => ?_,
    fun other hother => ?_, fun _ hreader => absurd hreader (Option.some_ne_none _).symm⟩
  · obtain rfl := Option.some.inj hp
    change ((if source.consume then source.yielded ++ [key] else source.yielded) ++ rest).Nodup
    split
    · rwa [List.append_assoc]
    · exact hnodup.sublist ((List.sublist_cons_self key rest).append_left _)
  · obtain rfl := Option.some.inj hp
    refine List.IsSuffix.trans ?_ hlisted
    exact (List.suffix_cons key rest).filter _
  · change other ∈ (if source.consume then source.yielded ++ [key] else source.yielded) at hother
    split at hother
    · rcases List.mem_append.mp hother with hother | hother
      · exact h.yielded other hother
      · exact List.mem_singleton.mp hother ▸ hwhole
    · exact h.yielded other hother

/-- A batch of the front entry is returned: the entry is not among the yielded ones. -/
theorem give {key : Bytes} {rest : List Bytes} {batch : RecordBatch} {reader : EntryReader}
    {value : Bytes} {given : List RecordBatch}
    (h : RedbSourceInv config transformer table returned opened source)
    (hpending : source.pending = some (key :: rest)) (hopen : source.open_ = true)
    (hvalue : table.get key = some value) (hgiven : given <:+ returned key)
    (hreader : reader.error = none → (transformer.decode value).2 = none ∧
      (transformer.decode value).1 = given ++ batch :: reader.batches) :
    RedbSourceInv config transformer table
      (fun other => returned other ++
        RedbHistory.gave (.batch batch) { source with current := some reader } other)
      opened { source with current := some reader } := by
  have hgave : ∀ other, RedbHistory.gave (.batch batch) { source with current := some reader } other =
      if key = other then [batch] else [] := fun other => by
    simp [RedbHistory.gave, hpending]
  refine ⟨fun hp => absurd (hpending.symm.trans hp) (Option.some_ne_none _), h.nodup, h.listed,
    fun other hother value' hvalue' => ?_, fun reader' hreader' => ?_⟩
  · have hne : key ≠ other := by
      rintro rfl
      have hnodup := h.nodup _ hpending
      exact (List.nodup_append.mp hnodup).2.2 key hother key List.mem_cons_self rfl
    rw [hgave, if_neg hne, List.append_nil]
    exact h.yielded other hother value' hvalue'
  · obtain rfl := Option.some.inj hreader'
    refine ⟨hopen, key, rest, value, given ++ [batch], hpending, hvalue, ?_, fun herror => ?_⟩
    · rw [hgave, if_pos rfl]
      obtain ⟨front, hfront⟩ := hgiven
      exact ⟨front, by rw [← List.append_assoc, hfront]⟩
    · obtain ⟨hclean, hdecode⟩ := hreader herror
      exact ⟨hclean, by rw [hdecode, List.append_assoc]; rfl⟩

end RedbSourceInv

theorem openEntry_clean {value : Bytes} {fault : Option (Nat × SaciError)}
    (h : (openEntry transformer value fault).error = none) :
    (transformer.decode value).2 = none ∧
      (transformer.decode value).1 = (openEntry transformer value fault).batches := by
  cases fault with
  | none => exact ⟨h, rfl⟩
  | some fault => cases h

/-- The answer gives no batch. -/
theorem RedbSourceInv.of_not_batch {returned : Bytes → List RecordBatch} {opened : List Bytes}
    {source : RedbSource} {answer : NextBatch}
    (h : RedbSourceInv config transformer table returned opened source)
    (hanswer : ∀ batch, answer ≠ .batch batch) :
    RedbSourceInv config transformer table
      (fun key => returned key ++ RedbHistory.gave answer source key) opened source := by
  have hnothing : ∀ key, RedbHistory.gave answer source key = [] := fun key => by
    cases answer with
    | batch batch => exact absurd rfl (hanswer batch)
    | _ => rfl
  simpa only [hnothing, List.append_nil] using h

/-- What a call of `next_batch` keeps. -/
structure NextKeeps (config : RedbConfig) (transformer : Transformer) (table : RedbTable)
    (returned : Bytes → List RecordBatch) (opened : List Bytes) (wasOpen : Bool)
    (next : RedbSource × NextBatch) : Prop where
  inv : RedbSourceInv config transformer table
    (fun key => returned key ++ RedbHistory.gave next.2 next.1 key) opened next.1
  isOpen : next.1.open_ = true → wasOpen = true
  scanned : next.1.pending ≠ none

theorem readOn_keeps {returned : Bytes → List RecordBatch} {opened : List Bytes}
    {source : RedbSource} {pending : List Bytes} {faults : List (Option (Nat × SaciError))}
    (h : RedbSourceInv config transformer table returned opened
      { source with pending := some pending, current := none }) :
    NextKeeps config transformer table returned opened source.open_
      (source.readOn config transformer table pending faults) := by
  induction pending generalizing source faults with
  | nil =>
    refine ⟨(h.reset false).of_not_batch fun batch heq => ?_, fun hopen => ?_,
      Option.some_ne_none _⟩
    · cases heq
    · cases hopen
  | cons key rest ih =>
    rw [RedbSource.readOn]
    dsimp only
    split
    · next hopen =>
      split
      · exact ⟨h.of_not_batch (by rintro _ ⟨⟩), fun _ => hopen, Option.some_ne_none _⟩
      · next value hvalue =>
        have hclean : (openEntry transformer value (faults.head?.getD none)).error = none → _ :=
          openEntry_clean
        split
        · next batch batches error hentry =>
          rw [hentry] at hclean
          refine ⟨h.give rfl hopen hvalue List.nil_suffix fun herror => ?_, fun _ => hopen,
            Option.some_ne_none _⟩
          exact hclean herror
        · exact ⟨h.of_not_batch (by rintro _ ⟨⟩), fun _ => hopen, Option.some_ne_none _⟩
        · next hentry =>
          rw [hentry] at hclean
          obtain ⟨hnone, hempty⟩ := hclean rfl
          have hpop := h.pop rfl fun value' hvalue' => by
            obtain rfl := Option.some.inj (hvalue.symm.trans hvalue')
            exact ⟨hnone, hempty ▸ List.nil_suffix⟩
          exact @ih (RedbSource.pop _ key rest) faults.tail hpop
    · exact ⟨h.of_not_batch (by rintro _ ⟨⟩), fun hopen => hopen, Option.some_ne_none _⟩

theorem nextOfPending_keeps {returned : Bytes → List RecordBatch} {opened : List Bytes}
    {source : RedbSource} {pending : List Bytes} {faults : List (Option (Nat × SaciError))}
    (h : RedbSourceInv config transformer table returned opened source)
    (hpending : source.pending = some pending) :
    NextKeeps config transformer table returned opened source.open_
      (source.nextOfPending config transformer table pending faults) := by
  have hreset : RedbSourceInv config transformer table returned opened
      { source with pending := some pending, current := none } := by
    rw [← hpending]
    exact h.reset source.open_
  unfold RedbSource.nextOfPending
  split
  · next batch batches error hcurrent =>
    obtain ⟨hopen, key, rest, value, given, hpending', hvalue, hgiven, hclean⟩ :=
      h.current _ hcurrent
    have hscanned : source.pending ≠ none := hpending' ▸ Option.some_ne_none _
    exact ⟨h.give hpending' hopen hvalue hgiven hclean, id, hscanned⟩
  · have hscanned : source.pending ≠ none := hpending ▸ Option.some_ne_none _
    exact ⟨(h.reset source.open_).of_not_batch (by rintro _ ⟨⟩), id, hscanned⟩
  · next hcurrent =>
    obtain ⟨hopen, key, rest, value, given, hpending', hvalue, hgiven, hclean⟩ :=
      h.current _ hcurrent
    obtain rfl := Option.some.inj (hpending.symm.trans hpending')
    have hpop := h.pop hpending fun value' hvalue' => by
      obtain rfl := Option.some.inj (hvalue.symm.trans hvalue')
      obtain ⟨hnone, hdecode⟩ := hclean rfl
      exact ⟨hnone, by rwa [hdecode, List.append_nil]⟩
    exact @readOn_keeps _ _ _ _ _ (source.pop key rest) rest faults hpop
  · exact readOn_keeps hreset

/-- A source built and not yet scanned. -/
theorem RedbSourceInv.unscanned {returned : Bytes → List RecordBatch} {opened : List Bytes}
    {source : RedbSource} (hpending : source.pending = none) (hyielded : source.yielded = [])
    (hcurrent : source.current = none) :
    RedbSourceInv config transformer table returned opened source := by
  refine ⟨fun _ => ⟨hyielded, hcurrent⟩, fun _ hp => ?_, fun _ hp => ?_, fun key hkey => ?_,
    fun _ hreader => ?_⟩
  · cases hpending.symm.trans hp
  · cases hpending.symm.trans hp
  · rw [hyielded] at hkey
    cases hkey
  · cases hcurrent.symm.trans hreader

theorem collectKeys_nodup (table : RedbTable) : (collectKeys config table).Nodup := by
  rw [collectKeys_eq]
  exact table.keys_nodup.filter _

/-- A call of `next_batch` goes on with the list, or it is the first one and the file cannot be
opened, or it is and the list is read. -/
theorem nextBatch_cases (config : RedbConfig) (transformer : Transformer) (source : RedbSource)
    (table : RedbTable) (locked : Bool)
    (scanFault : Option SaciError) (faults : List (Option (Nat × SaciError))) :
    (∃ pending, source.pending = some pending ∧
        source.nextBatch config transformer table locked scanFault faults =
          source.nextOfPending config transformer table pending faults) ∨
      (source.pending = none ∧ ∃ e,
        source.nextBatch config transformer table locked scanFault faults = (source, .error e)) ∨
      (source.pending = none ∧ locked = false ∧
        source.nextBatch config transformer table locked scanFault faults =
          RedbSource.nextOfPending config transformer table
            { source with open_ := true, pending := some (collectKeys config table) }
            (collectKeys config table) faults) := by
  unfold RedbSource.nextBatch RedbSource.scan
  cases hpending : source.pending with
  | some pending => exact .inl ⟨pending, rfl, rfl⟩
  | none =>
    cases scanFault with
    | some e => exact .inr (.inl ⟨rfl, e, rfl⟩)
    | none =>
      cases locked with
      | true => exact .inr (.inl ⟨rfl, _, rfl⟩)
      | false => exact .inr (.inr ⟨rfl, rfl, rfl⟩)

/-- A call of `next_batch`; the first one that opens the file takes note of the queue. -/
theorem nextBatch_keeps {returned : Bytes → List RecordBatch} {opened : List Bytes}
    {source : RedbSource} {locked : Bool} {scanFault : Option SaciError}
    {faults : List (Option (Nat × SaciError))} {next : RedbSource × NextBatch}
    (h : RedbSourceInv config transformer table returned opened source)
    (hnext : source.nextBatch config transformer table locked scanFault faults = next) :
    RedbSourceInv config transformer table
        (fun key => returned key ++ RedbHistory.gave next.2 next.1 key)
        (if source.pending = none ∧ next.1.pending ≠ none then queueOf config table else opened)
        next.1 ∧
      (next.1.open_ = true → source.open_ = true ∨ locked = false) := by
  subst hnext
  rcases nextBatch_cases config transformer source table locked scanFault faults with
    ⟨pending, hpending, hnext⟩ | ⟨hpending, e, hnext⟩ | ⟨hpending, hlocked, hnext⟩
  · have hkeeps := @nextOfPending_keeps _ _ _ _ _ _ _ faults h hpending
    rw [hnext, if_neg (by rw [hpending]; exact fun h => nomatch h.1)]
    exact ⟨hkeeps.inv, fun hopen => .inl (hkeeps.isOpen hopen)⟩
  · rw [hnext, if_neg (fun h => h.2 hpending)]
    exact ⟨h.of_not_batch (by rintro _ ⟨⟩), .inl⟩
  · obtain ⟨hyielded, hcurrent⟩ := h.fresh hpending
    have hscanned : RedbSourceInv config transformer table returned (queueOf config table)
        { source with open_ := true, pending := some (collectKeys config table) } := by
      refine ⟨fun hp => absurd hp (Option.some_ne_none _), fun pending hp => ?_,
        fun pending hp => ?_, fun key hkey => ?_, fun reader hreader => ?_⟩
      · obtain rfl := Option.some.inj hp
        rw [hyielded]
        exact collectKeys_nodup table
      · obtain rfl := Option.some.inj hp
        rw [filter_collectKeys]
      · exact absurd hkey (by rw [hyielded]; exact List.not_mem_nil)
      · cases hcurrent.symm.trans hreader
    have hkeeps := @nextOfPending_keeps _ _ _ _ _ _ _ faults hscanned rfl
    rw [hnext, if_pos ⟨hpending, hkeeps.scanned⟩]
    exact ⟨hkeeps.inv, fun _ => .inr hlocked⟩

/-- A source that holds no lock looks at the table only through the keys it yielded. -/
theorem RedbSourceInv.of_closed {returned returned' : Bytes → List RecordBatch} {opened : List Bytes}
    {source : RedbSource} {after : RedbTable}
    (h : RedbSourceInv config transformer table returned opened source)
    (hclosed : source.open_ = false)
    (hyielded : ∀ key ∈ source.yielded, ∀ value, after.get key = some value →
      table.get key = some value ∧ returned' key = returned key) :
    RedbSourceInv config transformer after returned' opened source := by
  refine ⟨h.fresh, h.nodup, h.listed, fun key hkey value hvalue => ?_, fun reader hreader => ?_⟩
  · obtain ⟨hbefore, hreturned⟩ := hyielded key hkey value hvalue
    rw [hreturned]
    exact h.yielded key hkey value hbefore
  · cases hclosed.symm.trans (h.current reader hreader).1

/-! ## The world -/

/-- What holds of the world and its history between two steps. -/
structure RedbWorldInv (config : RedbConfig) (transformer : Transformer) (w : RedbWorld) (h : RedbHistory) :
    Prop where
  queue : queueOf config w.table = h.queue
  sink : ∀ sink, w.sink = some sink → sink.open_ = true → w.sourcesLock = false ∧
    ∀ seq, (w.table.get (config.key seq)).isSome →
      seq < sink.nextSeq ∨ (w.table.get (config.key U64_MAX)).isSome
  sources : ∀ i source, w.source? i = some source →
    RedbSourceInv config transformer w.table (h.returned i) (h.opened i) source

namespace RedbWorld
variable {w : RedbWorld} {i : Nat} {source : RedbSource}

theorem source?_eq_some : w.source? i = some source ↔ w.sources[i]? = some (some source) :=
  Option.join_eq_some_iff

theorem source?_setSource (hi : w.source? i = some source) (next : RedbSource) (j : Nat) :
    (w.setSource i next).source? j = if i = j then some next else w.source? j := by
  obtain ⟨hlt, -⟩ := List.getElem?_eq_some_iff.mp (source?_eq_some.mp hi)
  rw [source?, setSource, List.getElem?_set]
  by_cases hij : i = j
  · rw [if_pos hij, if_pos hij, if_pos hlt]
    rfl
  · rw [if_neg hij, if_neg hij]
    rfl

theorem sourcesLock_eq_false : w.sourcesLock = false ↔
    ∀ i source, w.source? i = some source → source.open_ = false := by
  rw [sourcesLock, List.any_eq_false]
  constructor
  · intro h i source hi
    simpa using h _ (List.mem_of_getElem? (source?_eq_some.mp hi))
  · intro h entry hentry
    obtain ⟨i, hi⟩ := List.mem_iff_getElem?.mp hentry
    cases entry with
    | none => exact Bool.false_ne_true
    | some source => simpa using h i source (source?_eq_some.mpr hi)

theorem othersLock_eq_false (h : w.othersLock i = false) {j : Nat} (hj : w.source? j = some source)
    (hne : i ≠ j) : source.open_ = false := by
  refine Bool.eq_false_iff.mpr fun hopen => ?_
  have hmem : some source ∈ w.sources.eraseIdx i :=
    List.mem_eraseIdx_iff_getElem?.mpr ⟨j, hne.symm, source?_eq_some.mp hj⟩
  exact absurd hopen (by simpa using List.any_eq_false.mp h _ hmem)

end RedbWorld

namespace RedbHistory
variable {w w' : RedbWorld} {h : RedbHistory} {event : RedbEvent} {outcome : RedbOutcome} {i : Nat}

theorem opened_next (hsame : (w'.source? i).bind RedbSource.pending =
      (w.source? i).bind RedbSource.pending ∨ w'.source? i = none) :
    (h.next config w event w' outcome).opened i = h.opened i := by
  refine if_neg fun hnew => ?_
  rcases hsame with hsame | hnone
  · exact hnew.2 (hsame.trans hnew.1)
  · exact hnew.2 (by rw [hnone]; rfl)

/-- A call that is no `next_batch` returns nothing. -/
theorem returned_next {key : Bytes}
    (hevent : ∀ i scanFault faults, event ≠ .nextBatch i scanFault faults)
    (hold : ¬ ((w.table.get key).isNone ∧ (w'.table.get key).isSome)) :
    (h.next config w event w' outcome).returned i key = h.returned i key := by
  refine (if_neg hold).trans ?_
  cases event with
  | nextBatch j scanFault faults => exact absurd rfl (hevent j scanFault faults)
  | _ => rfl

theorem returned_next_of_table {key : Bytes}
    (hevent : ∀ i scanFault faults, event ≠ .nextBatch i scanFault faults)
    (htable : w'.table = w.table) :
    (h.next config w event w' outcome).returned i key = h.returned i key := by
  refine returned_next hevent fun hnew => ?_
  rw [htable, ← Option.not_isSome] at hnew
  simp [hnew.2] at hnew

theorem queue_next_of_table (hqueue : queueOf config w.table = h.queue)
    (htable : w'.table = w.table) :
    queueOf config w'.table = (h.next config w event w' outcome).queue := by
  change _ = observe ..
  rw [← hqueue, observe_eq, htable]
  intro key hkey hnone
  rw [htable, mem_queueOf_iff, hnone] at hkey
  cases hkey.1

end RedbHistory

/-- A step that changes neither the table nor a source, and opens no sink. -/
theorem RedbWorldInv.of_same {w w' : RedbWorld} {h : RedbHistory} {event : RedbEvent} {outcome : RedbOutcome}
    (hinv : RedbWorldInv config transformer w h)
    (hevent : ∀ i scanFault faults, event ≠ .nextBatch i scanFault faults)
    (htable : w'.table = w.table) (hsources : ∀ i, w'.source? i = w.source? i ∨ w'.source? i = none)
    (hsink : ∀ sink, w'.sink = some sink → sink.open_ = true → w.sink = some sink) :
    RedbWorldInv config transformer w' (h.next config w event w' outcome) := by
  refine ⟨RedbHistory.queue_next_of_table hinv.queue htable, fun sink hs hopen => ?_,
    fun i source hi => ?_⟩
  · obtain ⟨hclosed, hbelow⟩ := hinv.sink sink (hsink sink hs hopen) hopen
    refine ⟨RedbWorld.sourcesLock_eq_false.mpr fun i source hi => ?_, by rwa [htable]⟩
    refine RedbWorld.sourcesLock_eq_false.mp hclosed i source ?_
    exact ((hsources i).resolve_right (by rw [hi]; exact Option.some_ne_none _)) ▸ hi
  · have hsame := (hsources i).resolve_right (by rw [hi]; exact Option.some_ne_none _)
    have hold := hinv.sources i source (hsame ▸ hi)
    rw [RedbHistory.opened_next (.inl (by rw [hsame])), htable]
    have hreturned : (h.next config w event w' outcome).returned i = h.returned i :=
      funext fun key => RedbHistory.returned_next_of_table hevent htable
    rwa [hreturned]

theorem RedbWorldInv.start (config : RedbConfig) (transformer : Transformer) (table : RedbTable) :
    RedbWorldInv config transformer (.start table) (.start config table) := by
  refine ⟨rfl, fun _ hs => ?_, fun i source hi => ?_⟩
  · cases hs
  · cases RedbWorld.source?_eq_some.mp hi

/-- `openSink` fails and changes nothing, or no lock is held and a sink stands on the table. -/
theorem step_openSink (config : RedbConfig) (transformer : Transformer) (w : RedbWorld)
    (fault : Option SaciError) :
    (∃ e, w.step config transformer (.openSink fault) = (w, .error e)) ∨
      (w.sourcesLock = false ∧ w.step config transformer (.openSink fault) =
        ({ w with sink := some ⟨true, resumeSeq config w.table⟩ }, .ok)) := by
  unfold RedbWorld.step RedbSink.openOn
  cases fault with
  | some e => exact .inl ⟨e, rfl⟩
  | none =>
    cases hlock : w.sinkLocks || w.sourcesLock with
    | true => exact .inl ⟨_, rfl⟩
    | false => exact .inr ⟨(Bool.or_eq_false_iff.mp hlock).2, rfl⟩

theorem RedbWorldInv.openSink {w : RedbWorld} {h : RedbHistory} {fault : Option SaciError}
    (hinv : RedbWorldInv config transformer w h) :
    RedbWorldInv config transformer (w.step config transformer (.openSink fault)).1
      (h.next config w (.openSink fault) (w.step config transformer (.openSink fault)).1
        (w.step config transformer (.openSink fault)).2) := by
  have hother : ∀ i scanFault faults, RedbEvent.openSink fault ≠ .nextBatch i scanFault faults :=
    fun _ _ _ heq => nomatch heq
  rcases step_openSink config transformer w fault with ⟨e, hstep⟩ | ⟨hlock, hstep⟩
  · rw [hstep]
    exact hinv.of_same hother rfl (fun _ => .inl rfl) fun _ hs _ => hs
  · rw [hstep]
    -- the new sink is the only one; the rest is as before
    have hsame : RedbWorldInv config transformer { w with sink := none }
        (h.next config w (.openSink fault) { w with sink := none } .ok) :=
      hinv.of_same hother rfl (fun _ => .inl rfl) fun _ hs _ => nomatch hs
    refine ⟨hsame.queue, fun sink hs _ => ?_, hsame.sources⟩
    obtain rfl := Option.some.inj hs
    exact ⟨hlock, fun seq hseq => lt_resumeSeq hseq⟩

theorem step_nextBatch {w : RedbWorld} {i : Nat} {source : RedbSource} (hi : w.source? i = some source)
    (scanFault : Option SaciError) (faults : List (Option (Nat × SaciError))) :
    w.step config transformer (.nextBatch i scanFault faults) =
      (w.setSource i
        (source.nextBatch config transformer w.table w.sinkLocks scanFault faults).1,
        .next (source.nextBatch config transformer w.table w.sinkLocks scanFault faults).2) := by
  rw [RedbWorld.step, hi]

theorem RedbWorldInv.nextBatch {w : RedbWorld} {h : RedbHistory} {i : Nat} {source : RedbSource}
    {scanFault : Option SaciError} {faults : List (Option (Nat × SaciError))}
    {next : RedbSource × NextBatch} (hinv : RedbWorldInv config transformer w h)
    (hi : w.source? i = some source)
    (hnext : source.nextBatch config transformer w.table w.sinkLocks scanFault faults = next) :
    RedbWorldInv config transformer (w.setSource i next.1)
      (h.next config w (.nextBatch i scanFault faults) (w.setSource i next.1) (.next next.2)) := by
  obtain ⟨hsource, hopen⟩ := nextBatch_keeps (hinv.sources i source hi) hnext
  have hset := fun j => RedbWorld.source?_setSource hi next.1 j
  have hold : ∀ key, ¬ ((w.table.get key).isNone ∧ ((w.setSource i next.1).table.get key).isSome) := by
    rintro key ⟨hnone, hsome⟩
    rw [Option.isNone_iff_eq_none] at hnone
    cases hnone ▸ hsome
  refine ⟨RedbHistory.queue_next_of_table hinv.queue rfl, fun sink hs hsinkOpen => ?_,
    fun j other hj => ?_⟩
  · obtain ⟨hclosed, hbelow⟩ := hinv.sink sink hs hsinkOpen
    refine ⟨RedbWorld.sourcesLock_eq_false.mpr fun j other hj => ?_, hbelow⟩
    rw [hset] at hj
    split at hj
    · obtain rfl := Option.some.inj hj
      refine Bool.eq_false_iff.mpr fun hnow => ?_
      rcases hopen hnow with hwas | hfree
      · cases hwas.symm.trans (RedbWorld.sourcesLock_eq_false.mp hclosed i source hi)
      · rw [RedbWorld.sinkLocks, show w.sink = some sink from hs] at hfree
        cases hsinkOpen.symm.trans hfree
    · exact RedbWorld.sourcesLock_eq_false.mp hclosed j other hj
  · by_cases hij : i = j
    · subst hij
      have hnow : (w.setSource i next.1).source? i = some next.1 := by rw [hset, if_pos rfl]
      obtain rfl := Option.some.inj (hnow.symm.trans hj)
      have hreturned : (h.next config w (.nextBatch i scanFault faults) (w.setSource i next.1)
          (.next next.2)).returned i =
            fun key => h.returned i key ++ RedbHistory.gave next.2 next.1 key := by
        funext key
        refine (if_neg (hold key)).trans ?_
        rw [hnow]
        exact if_pos rfl
      have hopened : (h.next config w (.nextBatch i scanFault faults) (w.setSource i next.1)
          (.next next.2)).opened i =
            if source.pending = none ∧ next.1.pending ≠ none then queueOf config w.table
            else h.opened i := by
        rw [hinv.queue]
        change (if (w.source? i).bind RedbSource.pending = none ∧
          ((w.setSource i next.1).source? i).bind RedbSource.pending ≠ none then _ else _) = _
        rw [hi, hnow]
        rfl
      rw [hreturned, hopened]
      exact hsource
    · have hsame : (w.setSource i next.1).source? j = w.source? j := by rw [hset, if_neg hij]
      have hreturned : (h.next config w (.nextBatch i scanFault faults) (w.setSource i next.1)
          (.next next.2)).returned j = h.returned j := by
        funext key
        refine (if_neg (hold key)).trans ?_
        rw [hj]
        exact if_neg (Ne.symm hij)
      rw [hreturned, RedbHistory.opened_next (.inl (by rw [hsame]))]
      exact hinv.sources j other (hsame ▸ hj)

/-- `writeBatch` leaves the world as it was, or the batch is stored under the next key, which was
free. -/
theorem step_writeBatch (config : RedbConfig) (transformer : Transformer) (w : RedbWorld)
    (batch : RecordBatch) (fault : Option SaciError) :
    (w.step config transformer (.writeBatch batch fault)).1 = w ∨
      ∃ sink bytes, w.sink = some sink ∧ sink.open_ = true ∧
        w.table.get (sink.nextKey config) = none ∧
        (w.step config transformer (.writeBatch batch fault)).1 =
          { w with
            sink := some { sink with nextSeq := sink.nextSeq + 1 }
            table := w.table.insert (sink.nextKey config) bytes } := by
  obtain ⟨table, sink, sources⟩ := w
  unfold RedbWorld.step
  cases sink with
  | none => exact .inl rfl
  | some sink =>
    dsimp only
    unfold RedbSink.writeBatch
    split
    · next hopen =>
      split
      · exact .inl rfl
      cases transformer.encode batch with
      | error e => exact .inl rfl
      | ok bytes =>
        cases fault with
        | some e => exact .inl rfl
        | none =>
          cases hkey : table.get (sink.nextKey config) with
          | some value => exact .inl rfl
          | none => exact .inr ⟨sink, bytes, rfl, hopen, hkey, rfl⟩
    · exact .inl rfl

/-- The number behind the one of a free key is above all others, unless it wraps. -/
theorem lt_nextSeq {seq next : UInt64} (h : seq ≤ next) : seq < next + 1 ∨ next = U64_MAX := by
  by_cases hmax : next = U64_MAX
  · exact .inr hmax
  · have hlt : next < U64_MAX := lt_of_le_of_ne (le_U64_MAX next) hmax
    have hsucc : (next + 1).toNat = next.toNat + 1 := by
      rw [UInt64.toNat_add]
      exact Nat.mod_eq_of_lt (Nat.succ_lt_succ (UInt64.lt_iff_toNat_lt.mp hlt))
    have hle := UInt64.le_iff_toNat_le.mp h
    exact .inl (UInt64.lt_iff_toNat_lt.mpr (by omega))

theorem RedbWorldInv.writeBatch {w : RedbWorld} {h : RedbHistory} {batch : RecordBatch}
    {fault : Option SaciError} {outcome : RedbOutcome} (hinv : RedbWorldInv config transformer w h)
    (hfree : KeyIsFree config w (.writeBatch batch fault)) :
    RedbWorldInv config transformer (w.step config transformer (.writeBatch batch fault)).1
      (h.next config w (.writeBatch batch fault)
        (w.step config transformer (.writeBatch batch fault)).1 outcome) := by
  have hother : ∀ i scanFault faults,
      RedbEvent.writeBatch batch fault ≠ .nextBatch i scanFault faults :=
    fun _ _ _ heq => nomatch heq
  rcases step_writeBatch config transformer w batch fault with
    hstep | ⟨sink, bytes, hsink, hopen, hnone, hstep⟩
  · rw [hstep]
    exact hinv.of_same hother rfl (fun _ => .inl rfl) fun _ hs _ => hs
  obtain ⟨w', hw'⟩ : ∃ w', w' = (w.step config transformer (.writeBatch batch fault)).1 := ⟨_, rfl⟩
  rw [← hw']
  rw [← hw'] at hstep
  have htable : w'.table = w.table.insert (sink.nextKey config) bytes := congrArg RedbWorld.table hstep
  have hsources : ∀ i, w'.source? i = w.source? i := fun i => by rw [hstep]; rfl
  obtain ⟨hclosed, hbelow⟩ := hinv.sink sink hsink hopen
  obtain ⟨hmax, hyielded⟩ := hfree sink hsink
  -- the last number is not taken, so every number is below the next one
  have hlast : (w.table.get (config.key U64_MAX)).isSome ≠ true := fun hsome => by
    rw [RedbSink.nextKey, hmax hsome] at hnone
    cases hnone ▸ hsome
  have hlt : ∀ seq, (w.table.get (config.key seq)).isSome → seq < sink.nextSeq := fun seq hseq =>
    (hbelow seq hseq).resolve_right hlast
  have hself : w'.table.get (sink.nextKey config) = some bytes := by
    rw [htable]
    exact w.table.get_insert_self ..
  have hrest : ∀ key, key ≠ sink.nextKey config → w'.table.get key = w.table.get key := by
    intro key hne
    rw [htable]
    exact w.table.get_insert_of_ne bytes hne
  refine ⟨?_, fun sink' hs _ => ?_, fun i source hi => ?_⟩
  · change _ = RedbHistory.observe ..
    rw [← hinv.queue, observe_eq]
    intro key hkey hnew old hold _
    obtain rfl : key = sink.nextKey config := by
      by_contra hne
      rw [mem_queueOf_iff, hrest key hne, hnew] at hkey
      cases hkey.1
    obtain ⟨hold, hours⟩ := mem_queueOf_iff.mp hold
    obtain ⟨seq, rfl⟩ := RedbConfig.ours_iff.mp hours
    exact entryKey_lt_iff.mpr (hlt seq hold)
  · obtain rfl : { sink with nextSeq := sink.nextSeq + 1 } = sink' :=
      Option.some.inj ((congrArg RedbWorld.sink hstep).symm.trans hs)
    have hclosed' : w'.sourcesLock = false := by rw [hstep]; exact hclosed
    refine ⟨hclosed', fun seq hseq => ?_⟩
    have hle : seq ≤ sink.nextSeq := by
      by_cases hnew : config.key seq = sink.nextKey config
      · exact (entryKey_inj.mp hnew).le
      · rw [hrest _ hnew] at hseq
        exact (hlt seq hseq).le
    refine (lt_nextSeq hle).imp_right fun heq => ?_
    have hkey : sink.nextKey config = config.key U64_MAX := by rw [RedbSink.nextKey, heq]; rfl
    rw [← hkey, hself]
    rfl
  · have hsource : w.source? i = some source := hsources i ▸ hi
    rw [RedbHistory.opened_next (.inl (by rw [hsources]))]
    refine (hinv.sources i source hsource).of_closed
      (RedbWorld.sourcesLock_eq_false.mp hclosed i source hsource) fun key hkey value hvalue => ?_
    have hmem : source ∈ w.sources.reduceOption :=
      List.reduceOption_mem_iff.mpr (List.mem_of_getElem? (RedbWorld.source?_eq_some.mp hsource))
    have hne : key ≠ sink.nextKey config := fun heq => hyielded source hmem (heq ▸ hkey)
    have hvalue' : w.table.get key = some value := hrest key hne ▸ hvalue
    refine ⟨hvalue', RedbHistory.returned_next hother ?_⟩
    rw [hvalue']
    exact fun hnew => nomatch hnew.1

/-! ## Consumption -/

theorem get_foldl_remove (keys : List Bytes) (table : RedbTable) (key : Bytes) :
    (keys.foldl Table.remove table).get key = if key ∈ keys then none else table.get key := by
  induction keys generalizing table with
  | nil => rfl
  | cons head keys ih =>
    rw [List.foldl_cons, ih, Table.get_remove]
    simp only [List.mem_cons]
    split_ifs <;> tauto

/-- `finishSource` leaves the table and the lock flags of others alone, or no lock but the source's
own is held and the yielded entries go. -/
theorem step_finishSource (config : RedbConfig) (transformer : Transformer) {w : RedbWorld} {i : Nat}
    {source : RedbSource} (hi : w.source? i = some source) (fault : Option SaciError) :
    (∃ outcome, w.step config transformer (.finishSource i fault) =
        (w.setSource i source, outcome)) ∨
      (∃ outcome, w.step config transformer (.finishSource i fault) =
        (w.setSource i { source with open_ := false, current := none }, outcome)) ∨
      (w.sinkLocks = false ∧ w.othersLock i = false ∧
        ∃ outcome, w.step config transformer (.finishSource i fault) =
          ({ w.setSource i { source with open_ := false, current := none, yielded := [] } with
              table := source.yielded.foldl Table.remove w.table }, outcome)) := by
  rw [RedbWorld.step, hi]
  dsimp only
  unfold RedbSource.finish
  split
  · exact .inl ⟨_, rfl⟩
  cases fault with
  | some e => exact .inr (.inl ⟨_, rfl⟩)
  | none =>
    cases hlock : w.sinkLocks || w.othersLock i with
    | true => exact .inr (.inl ⟨_, rfl⟩)
    | false =>
      obtain ⟨hsink, hothers⟩ := Bool.or_eq_false_iff.mp hlock
      exact .inr (.inr ⟨hsink, hothers, _, rfl⟩)

/-- The `i`th source is replaced by one that holds its lock only if it did, over the same table. -/
theorem RedbWorldInv.setSource {w : RedbWorld} {h : RedbHistory} {i : Nat} {source next : RedbSource}
    {event : RedbEvent} {outcome : RedbOutcome} (hinv : RedbWorldInv config transformer w h)
    (hevent : ∀ i scanFault faults, event ≠ .nextBatch i scanFault faults)
    (hi : w.source? i = some source) (hpending : next.pending = source.pending)
    (hopen : next.open_ = true → source.open_ = true)
    (hnext : RedbSourceInv config transformer w.table (h.returned i) (h.opened i) next) :
    RedbWorldInv config transformer (w.setSource i next)
      (h.next config w event (w.setSource i next) outcome) := by
  have hset := fun j => RedbWorld.source?_setSource hi next j
  refine ⟨RedbHistory.queue_next_of_table hinv.queue rfl, fun sink hs hsinkOpen => ?_,
    fun j other hj => ?_⟩
  · obtain ⟨hclosed, hbelow⟩ := hinv.sink sink hs hsinkOpen
    rw [RedbWorld.sourcesLock_eq_false] at hclosed
    refine ⟨RedbWorld.sourcesLock_eq_false.mpr fun j other hj => ?_, hbelow⟩
    rw [hset] at hj
    split at hj
    · obtain rfl := Option.some.inj hj
      exact Bool.eq_false_iff.mpr fun h => Bool.eq_false_iff.mp (hclosed i source hi) (hopen h)
    · exact hclosed j other hj
  · have hreturned : (h.next config w event (w.setSource i next) outcome).returned j =
        h.returned j := funext fun key => RedbHistory.returned_next_of_table hevent rfl
    have hopened : (h.next config w event (w.setSource i next) outcome).opened j = h.opened j := by
      refine RedbHistory.opened_next (.inl ?_)
      rw [hset]
      split
      · next hij => rw [← hij, hi]; exact hpending
      · rfl
    rw [hreturned, hopened]
    rw [hset] at hj
    split at hj
    · next hij =>
      obtain rfl := Option.some.inj hj
      exact hij ▸ hnext
    · exact hinv.sources j other hj

theorem RedbWorldInv.finishSource {w : RedbWorld} {h : RedbHistory} {i : Nat} {source : RedbSource}
    {fault : Option SaciError} {outcome : RedbOutcome} (hinv : RedbWorldInv config transformer w h)
    (hi : w.source? i = some source) :
    RedbWorldInv config transformer (w.step config transformer (.finishSource i fault)).1
      (h.next config w (.finishSource i fault)
        (w.step config transformer (.finishSource i fault)).1 outcome) := by
  have hother : ∀ j scanFault faults,
      RedbEvent.finishSource i fault ≠ .nextBatch j scanFault faults := fun _ _ _ heq => nomatch heq
  have hsource := hinv.sources i source hi
  rcases step_finishSource config transformer hi fault with
    ⟨_, hstep⟩ | ⟨_, hstep⟩ | ⟨hsink, hothers, _, hstep⟩
  · rw [hstep]
    exact hinv.setSource hother hi rfl id hsource
  · rw [hstep]
    exact hinv.setSource hother hi rfl (fun h => nomatch h) (hsource.reset false)
  obtain ⟨w', hw'⟩ : ∃ w', w' = (w.step config transformer (.finishSource i fault)).1 := ⟨_, rfl⟩
  rw [← hw']
  rw [hstep] at hw'
  have htable : w'.table = source.yielded.foldl Table.remove w.table := congrArg RedbWorld.table hw'
  have hset : ∀ j, w'.source? j =
      if i = j then some { source with open_ := false, current := none, yielded := [] }
      else w.source? j := fun j => by
    rw [hw']
    exact RedbWorld.source?_setSource hi _ j
  -- what is left was there before
  have hstays : ∀ key value, w'.table.get key = some value → w.table.get key = some value := by
    intro key value hvalue
    rw [htable, get_foldl_remove] at hvalue
    split at hvalue
    · cases hvalue
    · exact hvalue
  refine ⟨?_, fun sink hs hopen => ?_, fun j other hj => ?_⟩
  · change _ = RedbHistory.observe ..
    rw [← hinv.queue, observe_eq]
    intro key hkey hnone
    obtain ⟨value, hvalue⟩ := Option.isSome_iff_exists.mp (mem_queueOf_iff.mp hkey).1
    cases hnone.symm.trans (hstays key value hvalue)
  · rw [RedbWorld.sinkLocks, show w.sink = some sink from (congrArg RedbWorld.sink hw') ▸ hs] at hsink
    cases hopen.symm.trans hsink
  · have hreturned : (h.next config w (.finishSource i fault) w' outcome).returned j =
        h.returned j := funext fun key => by
      refine RedbHistory.returned_next hother fun hnew => ?_
      obtain ⟨value, hvalue⟩ := Option.isSome_iff_exists.mp hnew.2
      rw [hstays key value hvalue] at hnew
      cases hnew.1
    have hopened : (h.next config w (.finishSource i fault) w' outcome).opened j = h.opened j := by
      refine RedbHistory.opened_next (.inl ?_)
      rw [hset]
      split
      · next hij => rw [← hij, hi]; rfl
      · rfl
    rw [hreturned, hopened]
    rw [hset] at hj
    split at hj
    · next hij =>
      obtain rfl := Option.some.inj hj
      subst hij
      refine ⟨fun hp => ⟨rfl, rfl⟩, fun pending hp => ?_, hsource.listed,
        fun key hkey => absurd hkey List.not_mem_nil, fun reader hreader => nomatch hreader⟩
      exact (hsource.nodup pending hp).of_append_right
    · next hij =>
      exact (hinv.sources j other hj).of_closed (RedbWorld.othersLock_eq_false hothers hj hij)
        fun key _ value hvalue => ⟨hstays key value hvalue, rfl⟩

/-- A call on an instance that is not there. -/
theorem RedbWorldInv.absent {w : RedbWorld} {h : RedbHistory} {event : RedbEvent}
    (hinv : RedbWorldInv config transformer w h) :
    RedbWorldInv config transformer w (h.next config w event w .absent) := by
  refine ⟨RedbHistory.queue_next_of_table hinv.queue rfl, hinv.sink, fun j source hj => ?_⟩
  have hreturned : (h.next config w event w .absent).returned j = h.returned j := funext fun key => by
    refine (if_neg fun hnew => ?_).trans (by cases event <;> rfl)
    rw [Option.isNone_iff_eq_none] at hnew
    cases hnew.1 ▸ hnew.2
  rw [RedbHistory.opened_next (.inl rfl), hreturned]
  exact hinv.sources j source hj

theorem RedbWorldInv.newSource {w : RedbWorld} {h : RedbHistory} {consume : Bool} {outcome : RedbOutcome}
    (hinv : RedbWorldInv config transformer w h) :
    RedbWorldInv config transformer { w with sources := w.sources ++ [some (.new consume)] }
      (h.next config w (.newSource consume)
        { w with sources := w.sources ++ [some (.new consume)] } outcome) := by
  have hsources : ∀ i source,
      RedbWorld.source? { w with sources := w.sources ++ [some (.new consume)] } i = some source →
      w.source? i = some source ∨ w.source? i = none ∧ source = .new consume := by
    intro i source hi
    rw [RedbWorld.source?_eq_some] at hi
    rcases lt_or_ge i w.sources.length with hlt | hge
    · rw [List.getElem?_append_left hlt] at hi
      exact .inl (RedbWorld.source?_eq_some.mpr hi)
    · rw [List.getElem?_append_right hge] at hi
      refine .inr ⟨?_, Option.some.inj (List.mem_singleton.mp (List.mem_of_getElem? hi))⟩
      rw [RedbWorld.source?, List.getElem?_eq_none hge]
      rfl
  have hother : ∀ i scanFault faults,
      RedbEvent.newSource consume ≠ .nextBatch i scanFault faults := fun _ _ _ heq => nomatch heq
  refine ⟨RedbHistory.queue_next_of_table hinv.queue rfl, fun sink hs hopen => ?_,
    fun i source hi => ?_⟩
  · obtain ⟨hclosed, hbelow⟩ := hinv.sink sink hs hopen
    refine ⟨RedbWorld.sourcesLock_eq_false.mpr fun i source hi => ?_, hbelow⟩
    rcases hsources i source hi with hi | ⟨-, rfl⟩
    · exact RedbWorld.sourcesLock_eq_false.mp hclosed i source hi
    · rfl
  · rcases hsources i source hi with hold | ⟨-, rfl⟩
    · have hreturned : (h.next config w (.newSource consume)
          { w with sources := w.sources ++ [some (.new consume)] } outcome).returned i =
            h.returned i := funext fun key => RedbHistory.returned_next_of_table hother rfl
      rw [hreturned, RedbHistory.opened_next (.inl (by rw [hi, hold]))]
      exact hinv.sources i source hold
    · exact .unscanned rfl rfl rfl

/-- **One step** of the world keeps the invariant, if a write takes a free key. -/
theorem RedbWorldInv.step {w : RedbWorld} {h : RedbHistory} {event : RedbEvent}
    (hinv : RedbWorldInv config transformer w h) (hfree : KeyIsFree config w event) :
    RedbWorldInv config transformer (w.step config transformer event).1
      (h.next config w event (w.step config transformer event).1
        (w.step config transformer event).2) := by
  cases event with
  | openSink fault => exact hinv.openSink
  | writeBatch batch fault => exact hinv.writeBatch hfree
  | finishSink fault =>
    rw [RedbWorld.step]
    cases hs : w.sink with
    | none => exact hinv.absent
    | some sink =>
      refine hinv.of_same (fun _ _ _ heq => nomatch heq) rfl (fun _ => .inl rfl)
        fun sink' hs' hopen => ?_
      obtain rfl : (sink.finish fault).1 = sink' := Option.some.inj hs'
      unfold RedbSink.finish at hopen
      split at hopen
      · cases hopen
      · next hclosed => exact absurd hopen hclosed
  | dropSink =>
    exact hinv.of_same (fun _ _ _ heq => nomatch heq) rfl (fun _ => .inl rfl)
      fun _ hs _ => nomatch hs
  | newSource consume => exact hinv.newSource
  | nextBatch i scanFault faults =>
    cases hi : w.source? i with
    | none =>
      rw [RedbWorld.step, hi]
      exact hinv.absent
    | some source =>
      rw [step_nextBatch hi]
      exact hinv.nextBatch hi rfl
  | finishSource i fault =>
    cases hi : w.source? i with
    | none =>
      rw [RedbWorld.step, hi]
      exact hinv.absent
    | some source => exact hinv.finishSource hi
  | dropSource i =>
    refine hinv.of_same (fun _ _ _ heq => nomatch heq) rfl (fun j => ?_) fun _ hs _ => hs
    by_cases hij : i = j
    · subst hij
      refine .inr (Option.eq_none_iff_forall_ne_some.mpr fun source hsource => ?_)
      obtain ⟨hlt, hget⟩ := List.getElem?_eq_some_iff.mp (RedbWorld.source?_eq_some.mp hsource)
      cases (List.getElem_set_self hlt).symm.trans hget
    · exact .inl (congrArg Option.join (List.getElem?_set_ne hij))

/-! ## Reading a whole table -/

/-- The keys name entries that decode to their end. -/
def Clean (transformer : Transformer) (table : RedbTable) (keys : List Bytes) : Prop :=
  ∀ key ∈ keys, ∃ value, table.get key = some value ∧ (transformer.decode value).2 = none

/-- What a source has still to return: the rest of the entry being decoded, and the entries behind
it. -/
structure Remaining (transformer : Transformer) (table : RedbTable) (source : RedbSource)
    (batches : List RecordBatch) : Prop where
  isOpen : source.open_ = true
  rest : ∃ keys, source.pending = some keys ∧ Clean transformer table keys ∧
    (source.current = none ∧ batches = keys.flatMap (batchesAt transformer table) ∨
      ∃ key keys' given, keys = key :: keys' ∧ source.current = some ⟨given, none⟩ ∧
        batches = given ++ keys'.flatMap (batchesAt transformer table))

/-- A call answers with the first of the batches that remain, or the end. -/
def Answers (transformer : Transformer) (table : RedbTable) (next : RedbSource × NextBatch) :
    List RecordBatch → Prop
  | [] => next.2 = .eof
  | batch :: batches => next.2 = .batch batch ∧ Remaining transformer table next.1 batches

theorem readOn_answers {source : RedbSource} {keys : List Bytes} (hopen : source.open_ = true)
    (hclean : Clean transformer table keys) :
    Answers transformer table (source.readOn config transformer table keys [])
      (keys.flatMap (batchesAt transformer table)) := by
  induction keys generalizing source with
  | nil => rfl
  | cons key keys ih =>
    obtain ⟨⟨value, hvalue, hend⟩, hkeys⟩ := List.forall_mem_cons.mp hclean
    have hentry : openEntry transformer value none = ⟨batchesAt transformer table key, none⟩ := by
      rw [batchesAt, hvalue]
      exact congrArg (EntryReader.mk (transformer.decode value).1) hend
    rw [RedbSource.readOn, List.flatMap_cons]
    dsimp only
    rw [if_pos hopen, hvalue]
    simp only [List.head?_nil, Option.getD_none, hentry]
    cases hbatches : batchesAt transformer table key with
    | nil => exact @ih (RedbSource.pop _ key keys) hopen hkeys
    | cons batch batches =>
      exact ⟨rfl, hopen, _, rfl, hclean, .inr ⟨key, keys, batches, rfl, rfl, rfl⟩⟩

theorem Remaining.nextBatch {source : RedbSource} {batches : List RecordBatch}
    (h : Remaining transformer table source batches) :
    Answers transformer table (source.nextBatch config transformer table false none [])
      batches := by
  obtain ⟨hopen, keys, hpending, hclean, hrest⟩ := h
  unfold RedbSource.nextBatch
  rw [hpending]
  dsimp only
  unfold RedbSource.nextOfPending
  rcases hrest with ⟨hcurrent, rfl⟩ | ⟨key, keys', given, rfl, hcurrent, rfl⟩
  · rw [hcurrent]
    exact readOn_answers hopen hclean
  · rw [hcurrent]
    cases given with
    | nil =>
      change Answers _ _ (RedbSource.readOn config transformer table (source.pop key keys') keys' [])
        (keys'.flatMap _)
      exact readOn_answers hopen (List.forall_mem_cons.mp hclean).2
    | cons batch given =>
      exact ⟨rfl, hopen, _, hpending, hclean, .inr ⟨key, keys', given, rfl, rfl, rfl⟩⟩

/-- The calls return what remains, and then the end. -/
theorem Answers.calls {source : RedbSource} {batches : List RecordBatch}
    (h : Answers transformer table (source.nextBatch config transformer table false none [])
      batches) :
    source.calls config transformer table (batches.length + 1) = batches.map .batch ++ [.eof] := by
  induction batches generalizing source with
  | nil => exact congrArg (· :: []) h
  | cons batch batches ih => exact congrArg₂ List.cons h.1 (ih h.2.nextBatch)

/-- A new source returns every entry it lists, if all of them decode. -/
theorem calls_new (consume : Bool) (hclean : Clean transformer table (collectKeys config table)) :
    let batches := (collectKeys config table).flatMap (batchesAt transformer table)
    (RedbSource.new consume).calls config transformer table (batches.length + 1) =
      batches.map .batch ++ [.eof] := by
  have hopened : Remaining transformer table
      { RedbSource.new consume with open_ := true, pending := some (collectKeys config table) }
      ((collectKeys config table).flatMap (batchesAt transformer table)) :=
    ⟨rfl, _, rfl, hclean, .inl ⟨rfl, rfl⟩⟩
  have hfirst := @Remaining.nextBatch config _ _ _ _ hopened
  exact @Answers.calls _ _ _ (RedbSource.new consume) _ hfirst

/-! ## The law over runs -/

/-- Only a write and the end of a source touch the table. -/
theorem step_table {w : RedbWorld} {event : RedbEvent}
    (hwrite : ∀ batch fault, event ≠ .writeBatch batch fault)
    (hfinish : ∀ i fault, event ≠ .finishSource i fault) :
    (w.step config transformer event).1.table = w.table := by
  cases event with
  | openSink fault =>
    rcases step_openSink config transformer w fault with ⟨e, hstep⟩ | ⟨-, hstep⟩ <;> rw [hstep]
  | writeBatch batch fault => exact absurd rfl (hwrite batch fault)
  | finishSink fault =>
    rw [RedbWorld.step]
    split <;> rfl
  | dropSink => rfl
  | newSource consume => rfl
  | nextBatch i scanFault faults =>
    rw [RedbWorld.step]
    split <;> rfl
  | finishSource i fault => exact absurd rfl (hfinish i fault)
  | dropSource i => rfl

/-- A write leaves every entry there is. -/
theorem get_step_writeBatch {w : RedbWorld} {batch : RecordBatch} {fault : Option SaciError}
    {key value : Bytes} (hvalue : w.table.get key = some value) :
    (w.step config transformer (.writeBatch batch fault)).1.table.get key = some value := by
  rcases step_writeBatch config transformer w batch fault with
    hstep | ⟨sink, bytes, -, -, hnone, hstep⟩
  · rwa [hstep]
  · have hne : key ≠ sink.nextKey config := by
      rintro rfl
      cases hnone.symm.trans hvalue
    rw [hstep]
    exact (w.table.get_insert_of_ne bytes hne).trans hvalue

theorem RedbWorldInv.law {w : RedbWorld} {h : RedbHistory} (hinv : RedbWorldInv config transformer w h) :
    QueueLaw config transformer w h where
  kept := fun _ _ _ _ hvalue => get_step_writeBatch hvalue
  order := by rw [filter_collectKeys, hinv.queue]
  yields := by
    intro consume hdecodes
    refine calls_new consume fun key hkey => ?_
    have hmem : key ∈ w.table.keys := (List.mem_filter.mp (collectKeys_eq w.table ▸ hkey)).1
    obtain ⟨value, hvalue⟩ := Table.mem_keys.mp hmem
    exact ⟨value, hvalue, hdecodes key hkey value hvalue⟩
  listed := fun i source pending hi hpending => (hinv.sources i source hi).listed pending hpending
  deleted := by
    intro event key value hvalue hgone
    by_cases hfinish : ∃ i fault, event = .finishSource i fault
    · obtain ⟨i, fault, rfl⟩ := hfinish
      have hstill : ∀ {w' : RedbWorld}, w'.table = w.table → w'.table.get key ≠ none := by
        intro w' htable hnone
        rw [htable, hvalue] at hnone
        cases hnone
      cases hi : w.source? i with
      | none =>
        rw [RedbWorld.step, hi] at hgone
        exact absurd hgone (hstill rfl)
      | some source =>
        rcases step_finishSource config transformer hi fault with
          ⟨_, hstep⟩ | ⟨_, hstep⟩ | ⟨-, -, _, hstep⟩
        · rw [hstep] at hgone
          exact absurd hgone (hstill rfl)
        · rw [hstep] at hgone
          exact absurd hgone (hstill rfl)
        · rw [hstep] at hgone
          have hyielded : key ∈ source.yielded := by
            by_contra hnot
            rw [get_foldl_remove, if_neg hnot, hvalue] at hgone
            cases hgone
          exact ⟨i, fault, rfl, (hinv.sources i source hi).yielded key hyielded value hvalue⟩
    · by_cases hwrite : ∃ batch fault, event = .writeBatch batch fault
      · obtain ⟨batch, fault, rfl⟩ := hwrite
        cases (get_step_writeBatch hvalue).symm.trans hgone
      · have htable : (w.step config transformer event).1.table = w.table :=
          step_table (fun batch fault heq => hwrite ⟨batch, fault, heq⟩)
            fun i fault heq => hfinish ⟨i, fault, heq⟩
        rw [htable, hvalue] at hgone
        cases hgone

/-- **The redb queue**: in every state of a run whose writes take free keys, from every content of
the table, nothing is overwritten, sources read the connector's unconsumed entries in the order
they were accepted, and an entry goes only once all of its batches were returned. -/
theorem redb_queue_law (config : RedbConfig) (transformer : Transformer) (table : RedbTable)
    {events : List RedbEvent} {s : RedbWorld × RedbHistory} {outcomes : List RedbOutcome}
    (hrun : run (tracedStep config transformer) (.start table, .start config table) events =
      .ok (s, outcomes))
    (hfree : EachStep (tracedStep config transformer) (fun s event => KeyIsFree config s.1 event)
      (.start table, .start config table) events) :
    QueueLaw config transformer s.1 s.2 := by
  refine RedbWorldInv.law (run_invariant_of_eachStep
    (I := fun s : RedbWorld × RedbHistory => RedbWorldInv config transformer s.1 s.2) ?_ hrun hfree
    (.start config transformer table))
  rintro ⟨w, h⟩ event s' outcome hinv hevent hstep
  obtain ⟨rfl, rfl⟩ := Prod.mk.inj (Except.ok.inj hstep)
  exact hinv.step hevent

end Saci

namespace Saci.RedbSample

def config : RedbConfig := ⟨"/data/q.redb", "records", [113], []⟩

/-- Documents of one byte, the number of rows. -/
def transformer : Transformer where
  encode := fun batch => .ok [UInt8.ofNat batch.numRows]
  decode := fun bytes => ([⟨⟨[]⟩, bytes.map fun _ => []⟩], none)

def batch : RecordBatch := ⟨⟨[]⟩, [[]]⟩

/-- One entry is written and drained; then another one, under the same key, is drained in part. -/
def turns : List RedbEvent :=
  [.openSink none, .writeBatch batch none, .writeBatch batch (some (.generic "disk")),
    .finishSink none, .newSource true, .nextBatch 0 none [], .nextBatch 0 none [],
    .finishSource 0 none, .dropSource 0, .openSink none, .writeBatch batch none, .finishSink none,
    .newSource true, .nextBatch 1 none [], .finishSource 1 none]

/-- The last number is given out and the sequence wraps. -/
def wrapped : List RedbEvent :=
  [.openSink none, .writeBatch batch none, .writeBatch batch none]

/-- Two sources drain the table; between their ends a sink takes the key of an entry the first one
deleted. -/
def stale : List RedbEvent :=
  [.openSink none, .writeBatch batch none, .finishSink none, .newSource true, .newSource true,
    .nextBatch 0 none [], .nextBatch 0 none [], .nextBatch 1 none [], .nextBatch 1 none [],
    .finishSource 0 none, .openSink none, .writeBatch batch none, .finishSink none]

/-- The state after a list of calls, and the answers. -/
def after (table : RedbTable) (events : List RedbEvent) : (RedbWorld × RedbHistory) × List RedbOutcome :=
  match run (tracedStep config transformer) (.start table, .start config table) events with
  | .ok s => s
  | .error e => nomatch e

theorem turns_law :
    QueueLaw config transformer (after ∅ turns).1.1 (after ∅ turns).1.2 ∧
      (after ∅ turns).1.2.queue = [config.key 0] :=
  have hrun : run (tracedStep config transformer) (.start ∅, .start config ∅) turns =
      .ok (after ∅ turns) := rfl
  ⟨redb_queue_law config transformer ∅ hrun (by decide +kernel), by decide +kernel⟩

/-- A table that a writer has left with the last entry but one. -/
def almostFull : RedbTable := Table.insert ∅ (config.key (U64_MAX - 1)) [1]

/-- Behind the last number the order is lost, and an entry goes that nobody has read when a second
source finishes. -/
theorem wrapped_and_stale_break :
    (run (tracedStep config transformer) (.start almostFull, .start config almostFull) wrapped =
        .ok (after almostFull wrapped) ∧
      ¬ QueueLaw config transformer (after almostFull wrapped).1.1
        (after almostFull wrapped).1.2) ∧
    (run (tracedStep config transformer) (.start ∅, .start config ∅) stale =
        .ok (after ∅ stale) ∧
      ¬ QueueLaw config transformer (after ∅ stale).1.1 (after ∅ stale).1.2) := by
  refine ⟨⟨rfl, fun law => ?_⟩, ⟨rfl, fun law => ?_⟩⟩
  · exact absurd law.order (by decide +kernel)
  · -- the second source returned a batch of the entry before the one that is there now
    have hgone : ((after ∅ stale).1.1.step config transformer (.finishSource 1 none)).1.table.get
        (config.key 0) = none := by decide +kernel
    obtain ⟨i, fault, heq, -, hreturned⟩ :=
      law.deleted _ (config.key 0) [1] (by decide +kernel) hgone
    obtain ⟨rfl, rfl⟩ := RedbEvent.finishSource.inj heq
    exact absurd hreturned (by decide +kernel)

end Saci.RedbSample
