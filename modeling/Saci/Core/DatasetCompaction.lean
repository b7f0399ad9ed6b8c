import Saci.Core.DatasetSteps

/-!
# What a compaction keeps

A compaction filters the components one after another, all of them by the bits of the whole dataset. A
component that holds fewer rows than there are bits stops it, and those before it have lost their dead rows
by then, while the bitmap is that of before.
-/

namespace Saci

/-! ## The live rows of a batch -/

namespace RecordBatch
variable {α : Type}

/-- The rows whose bit is set, in their order. -/
def liveRows (alive : List Bool) (rows : List α) : List α :=
  (rows.zipIdx.filter fun row => alive.getD row.2 false).map Prod.fst

/-- A batch with its live rows only. -/
def live (alive : List Bool) (batch : RecordBatch) : RecordBatch :=
  { batch with rows := liveRows alive batch.rows }

theorem maskFilter_drop (mask : List Bool) (rows : List α) (n : Nat) :
    maskFilter (mask.drop n) rows =
      ((rows.zipIdx n).filter fun row => mask.getD row.2 false).map Prod.fst := by
  induction rows generalizing n with
  | nil => exact List.sublist_nil.mp (maskFilter_sublist _ _)
  | cons row rows ih =>
    rw [List.zipIdx_cons, List.filter_cons, List.getD_eq_getElem?_getD]
    by_cases hn : n < mask.length
    · rw [List.drop_eq_getElem_cons hn, List.getElem?_eq_getElem hn, Option.getD_some]
      cases mask[n] with
      | true => rw [maskFilter, ih, if_pos rfl, List.map_cons]
      | false => rw [maskFilter, ih, if_neg Bool.false_ne_true]
    · have hnil : mask.drop n = [] := List.drop_eq_nil_of_le (not_lt.mp hn)
      have hrest := ih (n + 1)
      rw [List.drop_eq_nil_of_le (Nat.le_succ_of_le (not_lt.mp hn))] at hrest
      rw [List.getElem?_eq_none (not_lt.mp hn), Option.getD_none, if_neg Bool.false_ne_true, ← hrest, hnil]
      rfl

/-- The filter kernel keeps the live rows. -/
theorem maskFilter_eq (mask : List Bool) (rows : List α) : maskFilter mask rows = liveRows mask rows :=
  maskFilter_drop mask rows 0

/-- Where their bits are set, all of the rows are live. -/
theorem liveRows_eq_self_iff {alive : List Bool} {rows : List α} :
    liveRows alive rows = rows ↔ ∀ i < rows.length, alive.getD i false = true := by
  rw [← length_maskFilter_eq_iff, ← maskFilter_eq]
  exact ⟨congrArg List.length, (maskFilter_sublist alive rows).eq_of_length⟩

/-- Only the bits of the rows matter. -/
theorem liveRows_congr {alive alive' : List Bool} {rows : List α}
    (h : ∀ i < rows.length, alive'.getD i false = alive.getD i false) :
    liveRows alive' rows = liveRows alive rows := by
  refine congrArg _ (List.filter_congr fun row hrow => h row.2 ?_)
  have hlt := (List.mem_zipIdx hrow).2.1
  rwa [Nat.zero_add] at hlt

/-- Rows are lost where one dies and none comes to life. -/
theorem liveRows_ne {alive alive' : List Bool} {rows : List α} {i : Nat} (hi : i < rows.length)
    (hsub : ∀ i < rows.length, alive'.getD i false = true → alive.getD i false = true)
    (hold : alive.getD i false = true) (hdead : alive'.getD i false = false) :
    liveRows alive' rows ≠ liveRows alive rows := by
  have hlt : (liveRows alive' rows).length < (liveRows alive rows).length := by
    rw [liveRows, liveRows, List.length_map, List.length_map]
    have hfilter : rows.zipIdx.filter (fun row => alive'.getD row.2 false) =
        (rows.zipIdx.filter fun row => alive.getD row.2 false).filter fun row => alive'.getD row.2 false := by
      rw [List.filter_filter]
      refine List.filter_congr fun row hrow => ?_
      have hrow := (List.mem_zipIdx hrow).2.1
      rw [Nat.zero_add] at hrow
      cases halive : alive'.getD row.2 false with
      | false => rfl
      | true =>
        rw [hsub row.2 hrow halive]
        rfl
    have hmem : (rows[i], i) ∈ rows.zipIdx :=
      List.mk_mem_zipIdx_iff_getElem?.mpr (List.getElem?_eq_getElem hi)
    rw [hfilter]
    refine List.length_filter_lt_length_iff_exists.mpr ⟨(rows[i], i), List.mem_filter.mpr ⟨hmem, hold⟩, ?_⟩
    rw [hdead]
    exact Bool.false_ne_true
  exact fun heq => hlt.ne (congrArg List.length heq)

end RecordBatch

namespace Dataset
variable {R : Type} {data data' : Dataset R} {name : String} {mask : List Bool} {entry : Registered}

theorem live_merged (mask : List Bool) (entry : Registered) :
    (filtered mask entry).merged = entry.merged.live mask := by
  rw [RecordBatch.live, ← RecordBatch.maskFilter_eq]
  rfl

/-- What is read of an entry that is filtered in its place. -/
theorem find_filtered (entries : List Registered) (name : String) :
    ((entries.map (filtered mask)).find? fun entry => entry.name = name).map Registered.merged =
      ((entries.find? fun entry => entry.name = name).map Registered.merged).map (RecordBatch.live mask) := by
  rw [List.find?_map, Option.map_map, Option.map_map]
  refine congrArg (fun f => Option.map f _) (funext fun entry => ?_)
  exact live_merged mask entry

/-- All of the rows are alive where none is dead. -/
theorem Aligned.alive_of_deadCount (h : data.Aligned) (hdead : data.deadCount = 0) {i : Nat}
    (hi : i < data.rowCount) : data.isAlive i = true := by
  have hlive := h.live
  have hcount := h.dead
  have hbits := h.bits
  have hall : data.alive.count true = data.alive.length := by omega
  have hi : i < data.alive.length := hbits.symm ▸ hi
  rw [isAlive, List.getD_eq_getElem?_getD, List.getElem?_eq_getElem hi, Option.getD_some]
  exact (List.count_eq_length.mp hall _ (List.getElem_mem hi)).symm

/-- A component that is not shorter than the bitmap has a row for each bit. -/
theorem Aligned.covers_iff (h : data.Aligned) (hentry : entry ∈ data.components) :
    covers data.alive entry = true ↔ entry.numRows = data.rowCount := by
  rw [covers, decide_eq_true_iff, h.bits]
  exact ⟨fun hle => le_antisymm (h.rows entry hentry) hle, fun heq => heq.ge⟩

end Dataset

/-! ## Flushing -/

section
variable {refuses : Schema → List RecordBatch → Option String}

/-- What is read of the entries, before and after some of them are flushed. -/
theorem Flushed.find {entries entries' : List Registered} (h : List.Forall₂ Flushed entries entries')
    (name : String) :
    (entries'.find? fun entry => entry.name = name).map Registered.merged =
      (entries.find? fun entry => entry.name = name).map Registered.merged := by
  induction h with
  | nil => rfl
  | @cons entry entry' _ _ hentry _ ih =>
    rw [List.find?_cons, List.find?_cons, hentry.name]
    cases decide (entry.name = name) with
    | true => exact congrArg some hentry.merged_eq
    | false => exact ih

/-! ## Compacting -/

namespace CachedDataset
variable {R : Type} {ds ds' : CachedDataset R} {result : SaciResult Unit}

theorem FlushedTo.batchFor (h : FlushedTo refuses ds ds' result) (name : String) :
    ds'.data.batchFor name = ds.data.batchFor name :=
  Flushed.find h.flushed name

theorem FlushedTo.aligned (h : FlushedTo refuses ds ds' result) (hds : ds.data.Aligned) :
    ds'.data.Aligned := by
  have hrest := h.rest
  have hnames := h.names
  have hflushed := h.flushed
  generalize ds'.data.components = components at hrest hnames hflushed
  rw [hrest]
  refine ⟨hds.bits, hds.live, hds.dead, hnames ▸ hds.names, fun entry' hentry' => ?_⟩
  obtain ⟨entry, hentry, hfrom⟩ := exists_of_forall₂ hflushed.flip hentry'
  exact (numRows_flushed hfrom).trans_le (hds.rows entry hentry)

/-- A compaction that keeps the live rows of each component, all of them alive, or else answers an error and
has changed nothing that is read. -/
def Compacts (refuses : Schema → List RecordBatch → Option String) (ds : CachedDataset R) : Prop :=
  match ds.compact refuses with
  | (after, .ok ()) =>
    (∀ name, after.data.batchFor name = (ds.data.batchFor name).map (RecordBatch.live ds.data.alive)) ∧
      after.data.Aligned ∧ ∀ row < after.data.rowCount, after.data.isAlive row = true
  | (after, .error _) =>
    (∀ name, after.data.batchFor name = ds.data.batchFor name) ∧
      after.data.rowCount = ds.data.rowCount ∧ after.data.alive = ds.data.alive

/-- A merge that a compaction needs is refused. -/
def MergeRefused (refuses : Schema → List RecordBatch → Option String) (entries : List Registered) : Prop :=
  ∃ entry ∈ entries, ¬ entry.chunks.length ≤ 1 ∧ refuses entry.schema entry.chunks ≠ none

/-- No row is dead, a merge is refused, every component has all of the rows, or the one that is filtered
first has not. -/
def CompactsWhen (refuses : Schema → List RecordBatch → Option String) (ds : CachedDataset R) : Prop :=
  ds.data.deadCount = 0 ∨
    MergeRefused refuses ds.data.components ∨
    (∀ entry ∈ ds.data.components, entry.numRows = ds.data.rowCount) ∨
    ∃ first ∈ ds.data.components.head?, first.numRows < ds.data.rowCount

/-- Nothing is filtered where no row is dead, and all of the rows are live. -/
theorem batchFor_live (h : ds.data.Aligned) (hdead : ds.data.deadCount = 0) (name : String) :
    ds.data.batchFor name = (ds.data.batchFor name).map (RecordBatch.live ds.data.alive) := by
  rw [Dataset.batchFor]
  cases hfind : ds.data.find name with
  | none => rfl
  | some entry =>
    have hle := h.rows entry (Dataset.mem_of_find hfind).1
    rw [← Registered.numRows_merged] at hle
    have hall := RecordBatch.liveRows_eq_self_iff.mpr fun i (hi : i < entry.merged.rows.length) =>
      h.alive_of_deadCount hdead (hi.trans_le hle)
    rw [Option.map_some, Option.map_some, RecordBatch.live, hall]

/-- Filtering stops at a component that is too short, and has changed nothing exactly if it is the first. -/
theorem unchanged_iff {after : Dataset R} (hto : FlushedTo refuses ds ds' result) (h : ds.data.Aligned)
    (hdead : ds.data.deadCount ≠ 0) {first : Registered} (hfirst : first ∈ ds.data.components.head?)
    (hafter : after.components =
      (ds'.data.components.takeWhile (Dataset.covers ds'.data.alive)).map (Dataset.filtered ds'.data.alive) ++
        ds'.data.components.dropWhile (Dataset.covers ds'.data.alive)) :
    (∀ name, after.batchFor name = ds.data.batchFor name) ↔ first.numRows < ds.data.rowCount := by
  have haligned := hto.aligned h
  have hdead' : ds'.data.deadCount ≠ 0 := by rwa [hto.rest]
  have hrows : ds'.data.rowCount = ds.data.rowCount := by rw [hto.rest]
  obtain ⟨first', rest, hcomponents, hfrom⟩ : ∃ first' rest, ds'.data.components = first' :: rest ∧
      Flushed first first' := by
    have hflushed := hto.flushed
    cases hcomponents : ds.data.components with
    | nil => rw [hcomponents] at hfirst; cases hfirst
    | cons entry entries =>
      rw [hcomponents] at hfirst hflushed
      cases hfirst
      obtain ⟨first', rest, hfrom, _, hcons⟩ := List.forall₂_cons_left_iff.mp hflushed
      exact ⟨first', rest, hcons, hfrom⟩
  have hmem : first' ∈ ds'.data.components := hcomponents ▸ List.mem_cons_self
  have hcovers := haligned.covers_iff hmem
  rw [hrows, numRows_flushed hfrom] at hcovers
  rw [hcomponents] at hafter
  cases hfull : Dataset.covers ds'.data.alive first' with
  | true =>
    -- the first component has lost its dead rows
    have hlt := numRows_filtered haligned hdead' hfull
    refine iff_of_false (fun hall => ?_) (hcovers.mp hfull).not_lt
    have hread := (hall first.name).trans (hto.batchFor first.name).symm
    rw [List.takeWhile_cons_of_pos hfull, List.map_cons, List.cons_append] at hafter
    have hname : (Dataset.filtered ds'.data.alive first').name = first.name := hfrom.name
    rw [Dataset.batchFor, Dataset.batchFor, Dataset.find, Dataset.find, hafter, hcomponents,
      List.find?_cons, List.find?_cons, decide_eq_true hname, decide_eq_true hfrom.name] at hread
    have hread := Option.some.inj hread
    have hsame := congrArg RecordBatch.numRows hread
    rw [Registered.numRows_merged, Registered.numRows_merged] at hsame
    exact hlt.ne hsame
  | false =>
    rw [hfull] at hcovers
    have hshort : first.numRows < ds.data.rowCount := by
      refine lt_of_le_of_ne (h.rows first (List.mem_of_mem_head? hfirst)) fun heq => ?_
      exact Bool.false_ne_true (hcovers.mpr heq)
    refine iff_of_true (fun name => ?_) hshort
    have hne : ¬ Dataset.covers ds'.data.alive first' = true := by
      rw [hfull]
      exact Bool.false_ne_true
    rw [List.takeWhile_cons_of_neg hne, List.dropWhile_cons_of_neg hne, List.map_nil, List.nil_append] at hafter
    rw [← hto.batchFor, Dataset.batchFor, Dataset.batchFor, Dataset.find, Dataset.find, hafter, hcomponents]

/-- What a compaction leaves. -/
inductive CompactsTo (refuses : Schema → List RecordBatch → Option String) (ds : CachedDataset R) :
    CachedDataset R × SaciResult Unit → Prop
  | idle : ds.data.deadCount = 0 → CompactsTo refuses ds (ds, .ok ())
  | refused {after : CachedDataset R} {e : SaciError} : ds.data.deadCount ≠ 0 →
    MergeRefused refuses ds.data.components →
    (∀ name, after.data.batchFor name = ds.data.batchFor name) →
    after.data.rowCount = ds.data.rowCount → after.data.alive = ds.data.alive →
    CompactsTo refuses ds (after, .error e)
  | done {after : CachedDataset R} : ds.data.deadCount ≠ 0 → ¬ MergeRefused refuses ds.data.components →
    (∀ entry ∈ ds.data.components, entry.numRows = ds.data.rowCount) →
    (∀ name, after.data.batchFor name = (ds.data.batchFor name).map (RecordBatch.live ds.data.alive)) →
    after.data.Aligned → (∀ row < after.data.rowCount, after.data.isAlive row = true) →
    CompactsTo refuses ds (after, .ok ())
  /-- A component is too short, and those before it have been filtered. -/
  | stopped {flushed after : CachedDataset R} {short : Registered} {e : SaciError} : ds.data.deadCount ≠ 0 →
    ¬ MergeRefused refuses ds.data.components → FlushedTo refuses ds flushed (.ok ()) →
    short ∈ ds.data.components → short.numRows < ds.data.rowCount →
    after.data.components =
      (flushed.data.components.takeWhile (Dataset.covers flushed.data.alive)).map
          (Dataset.filtered flushed.data.alive) ++
        flushed.data.components.dropWhile (Dataset.covers flushed.data.alive) →
    after.data.rowCount = ds.data.rowCount → after.data.alive = ds.data.alive →
    CompactsTo refuses ds (after, .error e)

/-- The filters of a flushed dataset, where all of its components have all of the rows. -/
theorem compactsTo_filtered {after : CachedDataset R} (hto : FlushedTo refuses ds ds' result)
    (h : ds.data.Aligned) (hdead₀ : ds.data.deadCount ≠ 0) (hmerges : ¬ MergeRefused refuses ds.data.components)
    (hall : ∀ entry ∈ ds.data.components, entry.numRows = ds.data.rowCount)
    (hcomponents : after.data.components = ds'.data.components.map (Dataset.filtered ds'.data.alive))
    (halive : after.data.alive = List.replicate ds'.data.liveCount true)
    (hcounts : after.data.rowCount = ds'.data.liveCount ∧ after.data.liveCount = ds'.data.liveCount ∧
      after.data.deadCount = 0) :
    CompactsTo refuses ds (after, .ok ()) := by
  obtain ⟨hrows, hlive, hdead⟩ := hcounts
  have hbits : ds'.data.alive = ds.data.alive := by rw [hto.rest]
  have haligned : after.data.Aligned := by
    refine ⟨?_, ?_, ?_, ?_, fun entry' hentry' => ?_⟩
    · rw [halive, hrows, List.length_replicate]
    · rw [halive, hlive, List.count_replicate_self]
    · rw [hlive, hdead, hrows, Nat.add_zero]
    · rw [hcomponents, Dataset.names_filtered]
      exact (hto.aligned h).names
    · rw [hcomponents] at hentry'
      obtain ⟨entry, _, rfl⟩ := List.mem_map.mp hentry'
      rw [hrows, (hto.aligned h).live, Dataset.filtered, Registered.numRows_single]
      exact RecordBatch.length_maskFilter_le _ _
  refine .done hdead₀ hmerges hall (fun name => ?_) haligned fun row hrow => haligned.alive_of_deadCount hdead hrow
  rw [← hto.batchFor, ← hbits, Dataset.batchFor, Dataset.find, hcomponents, Dataset.find_filtered]
  rfl

theorem FlushedTo.mergeRefused_iff (h : FlushedTo refuses ds ds' result) :
    result ≠ .ok () ↔ MergeRefused refuses ds.data.components := by
  rw [Ne, h.done_iff, MergeRefused, not_forall]
  refine exists_congr fun entry => ?_
  rw [Classical.not_imp, not_or]

theorem compactsTo_compact (h : ds.data.Aligned) : CompactsTo refuses ds (ds.compact refuses) := by
  rw [CachedDataset.compact]
  by_cases hdead : ds.data.deadCount = 0
  · rw [if_pos hdead]
    exact .idle hdead
  rw [if_neg hdead]
  cases hflush : ds.flushAllPending refuses with
  | mk flushed result =>
  have hto := flushedTo_of_eq hflush
  have hrest := hto.rest
  have hrefused := hto.mergeRefused_iff
  cases result with
  | error e => exact .refused hdead (hrefused.mp (by rintro ⟨⟩)) hto.batchFor (by rw [hrest]) (by rw [hrest])
  | ok done =>
  have hmerges : ¬ MergeRefused refuses ds.data.components := fun hmerge => hrefused.mpr hmerge rfl
  have hrows : flushed.data.rowCount = ds.data.rowCount := by rw [hrest]
  have hfull {entry entry' : Registered} (hfrom : Flushed entry entry')
      (hentry' : entry' ∈ flushed.data.components) :
      Dataset.covers flushed.data.alive entry' = true ↔ entry.numRows = ds.data.rowCount := by
    rw [(hto.aligned h).covers_iff hentry', numRows_flushed hfrom, hrows]
  have hfilters := Dataset.filters_filterEntries flushed.data.alive flushed.data.components
  dsimp only
  generalize Dataset.filterEntries flushed.data.alive flushed.data.components = left at hfilters ⊢
  cases hfilters with
  | done hall =>
    refine compactsTo_filtered hto h hdead hmerges (fun entry hentry => ?_) rfl rfl ⟨rfl, rfl, rfl⟩
    obtain ⟨entry', hentry', hfrom⟩ := exists_of_forall₂ hto.flushed hentry
    exact (hfull hfrom hentry').mp (hall entry' hentry')
  | @stopped short e hmem hshort =>
    obtain ⟨entry, hentry, hfrom⟩ := exists_of_forall₂ hto.flushed.flip hmem
    refine .stopped hdead hmerges hto hentry (lt_of_le_of_ne (h.rows entry hentry) fun heq => ?_) rfl hrows
      (by rw [hrest])
    exact Bool.false_ne_true (hshort.symm.trans ((hfull hfrom hmem).mpr heq))

/-- **Compacting**: an aligned dataset is compacted, or left as it is under an error, exactly where no row is
dead, a merge is refused, every component has all of the rows, or the first one has not. -/
theorem compacts_iff (h : ds.data.Aligned) : Compacts refuses ds ↔ CompactsWhen refuses ds := by
  have hto := @compactsTo_compact refuses R ds h
  rw [Compacts, CompactsWhen]
  generalize ds.compact refuses = left at hto
  cases hto with
  | idle hdead =>
    exact iff_of_true ⟨batchFor_live h hdead, h, fun row hrow => h.alive_of_deadCount hdead hrow⟩ (.inl hdead)
  | refused _ hrefused hread hrows halive => exact iff_of_true ⟨hread, hrows, halive⟩ (.inr (.inl hrefused))
  | done _ _ hall hread haligned halive =>
    exact iff_of_true ⟨hread, haligned, halive⟩ (.inr (.inr (.inl hall)))
  | @stopped _ after short _ hdead hmerges hflushed hmem hshort hcomponents hrows halive =>
    obtain ⟨first, hfirst⟩ : ∃ first, first ∈ ds.data.components.head? :=
      ⟨_, List.head_mem_head? (List.ne_nil_of_mem hmem)⟩
    dsimp only
    rw [unchanged_iff hflushed h hdead hfirst hcomponents, and_iff_left ⟨hrows, halive⟩]
    constructor
    · exact fun hlt => .inr (.inr (.inr ⟨first, hfirst, hlt⟩))
    · rintro (hzero | hrefused | hall | ⟨first', hfirst', hlt⟩)
      · exact absurd hzero hdead
      · exact absurd hrefused hmerges
      · exact absurd (hall short hmem) hshort.ne
      · obtain rfl := Option.mem_unique hfirst hfirst'
        exact hlt

end CachedDataset
end

namespace CompactionSample

open CachedDataset

def merging : Schema → List RecordBatch → Option String := fun _ _ => none

def ids : Schema := ⟨[⟨"id", .int64, false⟩]⟩

/-- Two orders, of which the first is dead, and results with the rows that are given. -/
def orders (results : List (List Cell)) : CachedDataset Unit where
  data :=
    { components := [⟨"Order", 1, ids, [⟨ids, [[.int 1], [.int 2]]⟩], none⟩,
        ⟨"Result", 1, ids, [⟨ids, results⟩], none⟩]
      rowCount := 2
      alive := [false, true]
      liveCount := 1
      deadCount := 1
      resources := () }
  mergedCache := []

theorem aligned_orders {results : List (List Cell)} (h : results.length ≤ 2) : (orders results).data.Aligned := by
  refine ⟨rfl, rfl, rfl, (by decide : ["Order", "Result"].Nodup), fun entry hentry => ?_⟩
  rcases List.mem_cons.mp hentry with rfl | hentry
  · exact le_refl 2
  · rw [List.mem_singleton.mp hentry]
    exact h

/-- The error comes after the orders have lost their first row. -/
theorem short_results : (orders []).data.Aligned ∧ ¬ Compacts merging (orders []) := by
  refine ⟨aligned_orders (Nat.zero_le 2), fun h => ?_⟩
  have hstopped : ((orders []).compact merging).2.toOption = none := by decide +kernel
  have hread : ((orders []).compact merging).1.data.batchFor "Order" = some ⟨ids, [[.int 2]]⟩ := by decide +kernel
  rw [Compacts] at h
  cases hleft : (orders []).compact merging with
  | mk after result =>
  rw [hleft] at h hstopped hread
  cases result with
  | ok => cases hstopped
  | error e =>
    have hkept := hread.symm.trans (h.1 "Order")
    exact absurd hkept (by decide)

theorem all_results : Compacts merging (orders [[.int 10], [.int 20]]) :=
  (compacts_iff (aligned_orders (le_refl 2))).mpr (.inr (.inr (.inl (by decide))))

end CompactionSample
end Saci
