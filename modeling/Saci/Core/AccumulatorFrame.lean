import Saci.Core.DatasetForward
import Saci.Core.WindowedSystem

/-!
# What a flush of the accumulator does to the other components

`flush_accumulator` (`saci-core/src/windows/accumulator.rs`) marks the rows dead at which the accumulator holds
what it is about to write again, appends the new rows and compacts. A row is a position in every component:
what is marked dead there is dead in all of them.
-/

namespace Saci

variable {R : Type} {refuses : Schema → List RecordBatch → Option String}

namespace WindowedSystem
variable {sys : WindowedSystem}

section
variable (refuses : Schema → List RecordBatch → Option String) (sys : WindowedSystem)

/-- `WindowAccumulator`'s conversion to a batch. -/
def accumulatorConversion : Conversion Accumulator where
  toRecordBatch rows := .ok ⟨accumulatorSchema, rows.map Accumulator.toRow⟩
  numRows_eq rows batch h := by
    cases h
    exact List.length_map _

/-- The positions that a flush marks dead. -/
def supersededBy (read : Option RecordBatch) (results : List RecordBatch) (rowCount : Nat) : List Nat :=
  match read with
  | some acc => sys.superseded acc (results.flatMap batchGroups) rowCount
  | none => []

/-- The rows that a flush appends. -/
def newRows (results : List RecordBatch) : List Accumulator := results.filterMap sys.accumulatorOf

/-- The append of a flush, where there are new rows. -/
def appendNew (ds : CachedDataset R) (results : List RecordBatch) : CachedDataset R × SaciResult Unit :=
  if (sys.newRows results).isEmpty then (ds, .ok ())
  else
    match ds.append refuses accumulatorConversion ACCUMULATOR (sys.newRows results) with
    | (appended, .error e) => (appended, .error (.generic s!"WindowedSystem: accumulator append error: {e}"))
    | (appended, .ok _) => (appended, .ok ())

/-- `flush_accumulator` on a dataset with its cache, where merging chunks may be refused. -/
def flushCached (ds : CachedDataset R) (results : List RecordBatch) : CachedDataset R × SaciResult Unit :=
  if results.isEmpty then (ds, .ok ())
  else
    match ds.batchFor refuses ACCUMULATOR with
    | (read, .error e) => (read, .error e)
    | (read, .ok acc) =>
      let marked := (sys.supersededBy acc results read.data.rowCount).foldl CachedDataset.markDead read
      match sys.appendNew refuses marked results with
      | (appended, .error e) => (appended, .error e)
      | (appended, .ok ()) =>
        match appended.compact refuses with
        | (compacted, .error e) => (compacted, .error (.generic s!"WindowedSystem: compact error: {e}"))
        | (compacted, .ok ()) => (compacted, .ok ())

/-- Every other component has its live rows still, or else an error has changed nothing. -/
def LeavesOthers (ds : CachedDataset R) : CachedDataset R × SaciResult Unit → Prop
  | (after, .ok ()) => ∀ name, name ≠ ACCUMULATOR →
    (after.data.rowsOf name).map (RecordBatch.liveRows after.data.alive) =
      (ds.data.rowsOf name).map (RecordBatch.liveRows ds.data.alive)
  | (after, .error _) =>
    (∀ name, after.data.rowsOf name = ds.data.rowsOf name) ∧
      after.data.rowCount = ds.data.rowCount ∧ after.data.alive = ds.data.alive

/-- A flush that leaves the other components alone. -/
def KeepsOthers (ds : CachedDataset R) (results : List RecordBatch) : Prop :=
  LeavesOthers ds (sys.flushCached refuses ds results)

/-! ## When it does -/

/-- The batch that a flush appends. -/
def newBatch (results : List RecordBatch) : RecordBatch :=
  ⟨accumulatorSchema, (sys.newRows results).map Accumulator.toRow⟩

/-- A row that is alive holds what is written again. -/
def Supersedes (ds : CachedDataset R) (results : List RecordBatch) : Prop :=
  ∃ acc, (ds.batchFor refuses ACCUMULATOR).2 = .ok acc ∧
    ∃ row ∈ sys.supersededBy acc results ds.data.rowCount, ds.data.isAlive row = true

/-- There are new rows, and no accumulator of their schema. -/
def Rejected (data : Dataset R) (results : List RecordBatch) : Prop :=
  sys.newRows results ≠ [] ∧
    ∀ entry, data.find ACCUMULATOR = some entry → accumulatorSchema.fields ≠ entry.schema.fields

/-- There are new rows, and pushing them is refused. -/
def PushFails (data : Dataset R) (results : List RecordBatch) : Prop :=
  sys.newRows results ≠ [] ∧ ∃ entry, data.find ACCUMULATOR = some entry ∧
    CachedDataset.PushRefused refuses entry (sys.newBatch results)

/-- An entry after the append. -/
def grown (results : List RecordBatch) (entry : Registered) : Registered :=
  if entry.name = ACCUMULATOR ∧ sys.newRows results ≠ [] then entry.pushChunk (sys.newBatch results) else entry

/-- The row count after the append. -/
def grownCount (data : Dataset R) (results : List RecordBatch) : Nat :=
  max data.rowCount (((data.rowsOf ACCUMULATOR).map List.length).getD 0 + (sys.newRows results).length)

/-- The accumulator is filtered first and comes out with the rows it had before the append, and the next
component is too short. -/
def Regained (data : Dataset R) (results : List RecordBatch) : Prop :=
  ∃ acc second rest, data.components = acc :: second :: rest ∧ acc.name = ACCUMULATOR ∧
    (sys.grown results acc).numRows = data.rowCount ∧ second.numRows < data.rowCount ∧
    RecordBatch.liveRows data.alive (sys.grown results acc).merged.rows = acc.merged.rows

/-- The compaction has all that it needs. -/
structure Compactable (data : Dataset R) (results : List RecordBatch) : Prop where
  accepted : ¬ sys.Rejected data results
  pushed : ¬ sys.PushFails refuses data results
  merged : ¬ CachedDataset.MergeRefused refuses (data.components.map (sys.grown results))

/-- Nothing is superseded and the flush stops before it has changed anything, or has nothing to compact, or
what it filters comes out as it was; or else it compacts, and supersedes nothing unless the accumulator is all
there is. -/
inductive KeepsOthersWhen (ds : CachedDataset R) (results : List RecordBatch) : Prop
  | empty : results = [] → KeepsOthersWhen ds results
  | unread {e : SaciError} : (ds.batchFor refuses ACCUMULATOR).2 = .error e → KeepsOthersWhen ds results
  | rejected : ¬ sys.Supersedes refuses ds results → sys.Rejected ds.data results → KeepsOthersWhen ds results
  | idle : ¬ sys.Supersedes refuses ds results → ¬ sys.PushFails refuses ds.data results →
    ds.data.deadCount = 0 → KeepsOthersWhen ds results
  | refused : ¬ sys.Supersedes refuses ds results → sys.newRows results = [] →
    CachedDataset.MergeRefused refuses ds.data.components → KeepsOthersWhen ds results
  | short {first : Registered} : ¬ sys.Supersedes refuses ds results → sys.newRows results = [] →
    first ∈ ds.data.components.head? → first.numRows < ds.data.rowCount → KeepsOthersWhen ds results
  | regained : ¬ sys.Supersedes refuses ds results → sys.newRows results ≠ [] →
    sys.Compactable refuses ds.data results → sys.Regained ds.data results → KeepsOthersWhen ds results
  | compacted : sys.Compactable refuses ds.data results →
    (∀ entry ∈ ds.data.components, (sys.grown results entry).numRows = sys.grownCount ds.data results) →
    (sys.Supersedes refuses ds results → ∀ entry ∈ ds.data.components, entry.name = ACCUMULATOR) →
    KeepsOthersWhen ds results

end
end WindowedSystem

/-! ## Marking rows dead -/

namespace Dataset
variable {data data' : Dataset R} {name : String}

theorem find_of_components (h : data'.components = data.components) (name : String) :
    data'.find name = data.find name := by
  rw [find, find, h]

theorem isAlive_markDead_self (data : Dataset R) (row : Nat) : (data.markDead row).isAlive row = false := by
  rw [markDead]
  split_ifs with halive
  · rw [isAlive, List.getD_eq_getElem?_getD, List.getElem?_set_self']
    cases data.alive[row]? <;> rfl
  · exact Bool.of_not_eq_true halive

/-- Rows that are dead can be marked dead again. -/
theorem foldl_markDead_eq_self {dead : List Nat} (h : ∀ row ∈ dead, data.isAlive row = false) :
    dead.foldl markDead data = data := by
  induction dead with
  | nil => rfl
  | cons row dead ih =>
    obtain ⟨hrow, hdead⟩ := List.forall_mem_cons.mp h
    rw [List.foldl_cons, markDead, if_neg (by rw [hrow]; exact Bool.false_ne_true), ih hdead]

theorem isAlive_foldl_markDead {dead : List Nat} {row : Nat} (h : row ∈ dead) :
    (dead.foldl markDead data).isAlive row = false := by
  induction dead generalizing data with
  | nil => cases h
  | cons first dead ih =>
    rw [List.foldl_cons]
    rcases List.mem_cons.mp h with rfl | hrest
    · refine Bool.of_not_eq_true fun halive => ?_
      have hback := (markedDead_foldl (data.markDead row) dead).alive row halive
      exact Bool.false_ne_true ((isAlive_markDead_self data row).symm.trans hback)
    · exact ih hrest

theorem Aligned.foldl_markDead (h : data.Aligned) (dead : List Nat) : (dead.foldl Dataset.markDead data).Aligned := by
  induction dead generalizing data with
  | nil => exact h
  | cons row dead ih => exact ih (h.markDead row)

end Dataset

theorem CachedDataset.foldl_markDead (ds : CachedDataset R) (dead : List Nat) :
    dead.foldl CachedDataset.markDead ds = ⟨dead.foldl Dataset.markDead ds.data, ds.mergedCache⟩ := by
  induction dead generalizing ds with
  | nil => rfl
  | cons row dead ih => exact ih (ds.markDead row)

namespace WindowedSystem
variable {sys : WindowedSystem} {data data' : Dataset R} {ds : CachedDataset R} {results : List RecordBatch}

/-! ## Appending the new rows -/

/-- What an append that is accepted leaves. -/
structure Grown (sys : WindowedSystem) (data : Dataset R) (results : List RecordBatch) (data' : Dataset R) :
    Prop where
  components : data'.components = data.components.map (sys.grown results)
  rows : ∀ name, data'.rowsOf name =
    (data.rowsOf name).map (· ++ if name = ACCUMULATOR then (sys.newBatch results).rows else [])
  rowCount : data'.rowCount = sys.grownCount data results
  alive : data'.alive = data.alive ++ List.replicate (data'.rowCount - data.rowCount) true
  deadCount : data'.deadCount = data.deadCount
  aligned : data'.Aligned

/-- What the append of a flush leaves. -/
inductive AppendsTo (refuses : Schema → List RecordBatch → Option String) (sys : WindowedSystem)
    (ds : CachedDataset R) (results : List RecordBatch) : CachedDataset R × SaciResult Unit → Prop
  | rejected {e : SaciError} : sys.Rejected ds.data results → AppendsTo refuses sys ds results (ds, .error e)
  | refused {after : CachedDataset R} {e : SaciError} {held : List (List Cell)} :
    sys.PushFails refuses ds.data results → ¬ sys.Rejected ds.data results →
    ds.data.rowsOf ACCUMULATOR = some held →
    after.data.rowsOf ACCUMULATOR = some (held ++ (sys.newBatch results).rows) →
    AppendsTo refuses sys ds results (after, .error e)
  | grown {after : CachedDataset R} : ¬ sys.Rejected ds.data results → ¬ sys.PushFails refuses ds.data results →
    Grown sys ds.data results after.data → AppendsTo refuses sys ds results (after, .ok ())

/-- Without new rows nothing grows. -/
theorem Grown.refl (h : data.Aligned) (hnone : sys.newRows results = []) : Grown sys data results data := by
  have hgrown : sys.grown results = id := funext fun entry => if_neg fun hnew => hnew.2 hnone
  have hrows : (sys.newBatch results).rows = [] := by rw [newBatch, hnone, List.map_nil]
  refine ⟨by rw [hgrown, List.map_id], fun name => ?_, ?_, ?_, rfl, h⟩
  · rw [hrows, ite_self]
    simp
  · rw [grownCount, hnone, List.length_nil, Nat.add_zero]
    refine (max_eq_left ?_).symm
    cases hheld : data.rowsOf ACCUMULATOR with
    | none => exact Nat.zero_le _
    | some held => exact length_rowsOf_le h hheld
  · rw [Nat.sub_self, List.replicate_zero, List.append_nil]

theorem length_newBatch (results : List RecordBatch) :
    (sys.newBatch results).rows.length = (sys.newRows results).length := List.length_map _

/-- New rows that are pushed onto the accumulator. -/
theorem grown_of_push {entry : Registered} (h : data.Aligned) (hnew : sys.newRows results ≠ [])
    (hfind : data.find ACCUMULATOR = some entry) :
    Grown sys data results
      ((data.modify ACCUMULATOR fun _ => entry.pushChunk (sys.newBatch results)).extendTo entry.numRows
        (sys.newRows results).length).1 := by
  have hflushed := @CachedDataset.flushed_pushChunk entry (sys.newBatch results)
  obtain ⟨hmem, hentry⟩ := Dataset.mem_of_find hfind
  have hname : (entry.pushChunk (sys.newBatch results)).name = ACCUMULATOR := hflushed.name.trans hentry
  have hrows := (congrArg RecordBatch.rows hflushed.merged_eq).trans (Registered.rows_merged_pushed _)
  have happended := Dataset.appended_extendTo (f := fun _ => entry.pushChunk (sys.newBatch results)) hfind
    (fun _ _ => hname) hrows
  have hheld : data.rowsOf ACCUMULATOR = some entry.merged.rows := by
    rw [Dataset.rowsOf, Dataset.batchFor, hfind]
    rfl
  have hcount : max data.rowCount (entry.numRows + (sys.newRows results).length) =
      sys.grownCount data results := by
    rw [grownCount, hheld, Option.map_some, Option.getD_some, ← Registered.numRows_merged]
    rfl
  rw [length_newBatch] at happended
  refine ⟨?_, fun name => ?_, ?_, happended.alive, Dataset.deadCount_extendTo _ _ _, ?_⟩
  · rw [Dataset.components_extendTo, Dataset.modify]
    refine List.map_congr_left fun other hother => ?_
    rw [grown]
    by_cases heq : other.name = ACCUMULATOR
    · rw [if_pos heq, if_pos ⟨heq, hnew⟩, List.inj_on_of_nodup_map h.names hother hmem (heq.trans hentry.symm)]
    · rw [if_neg heq, if_neg fun hboth => heq hboth.1]
  · by_cases heq : name = ACCUMULATOR
    · subst heq
      rw [if_pos rfl]
      exact happended.rows
    · rw [rowsOf_congr (happended.others name heq), if_neg heq]
      simp
  · rw [Dataset.rowCount_extendTo]
    exact hcount
  · rw [Dataset.modify_extendTo]
    refine (h.extendTo _ _).modify (fun _ _ _ => hname) fun _ _ _ => ?_
    rw [← Registered.numRows_merged, RecordBatch.numRows, hrows, List.length_append, length_newBatch,
      Dataset.rowCount_extendTo, ← Registered.numRows_merged]
    exact le_max_right _ _

theorem appendsTo_appendNew (h : ds.data.Aligned) (results : List RecordBatch) :
    AppendsTo refuses sys ds results (sys.appendNew refuses ds results) := by
  rw [appendNew]
  by_cases hnone : sys.newRows results = []
  · rw [if_pos (List.isEmpty_iff.mpr hnone)]
    exact .grown (fun hrejected => hrejected.1 hnone) (fun hfails => hfails.1 hnone) (.refl h hnone)
  rw [if_neg (mt List.isEmpty_iff.mp hnone), CachedDataset.append]
  cases hfind : ds.data.find ACCUMULATOR with
  | none => exact .rejected ⟨hnone, fun entry hsome => by cases hfind.symm.trans hsome⟩
  | some entry =>
    have hentry := (Dataset.mem_of_find hfind).2
    dsimp only [accumulatorConversion]
    rw [if_neg (mt List.isEmpty_iff.mp hnone)]
    by_cases hfields : accumulatorSchema.fields ≠ entry.schema.fields
    · rw [if_pos hfields]
      refine .rejected ⟨hnone, fun entry' hsome => ?_⟩
      rwa [← Option.some.inj (hfind.symm.trans hsome)]
    rw [if_neg hfields]
    have haccepted : ¬ sys.Rejected ds.data results := fun hrejected => hfields (hrejected.2 entry hfind)
    have hheld : ds.data.rowsOf ACCUMULATOR = some entry.merged.rows := by
      rw [Dataset.rowsOf, Dataset.batchFor, hfind]
      rfl
    rcases @CachedDataset.pushBatch_cases refuses R ds entry (sys.newBatch results) (sys.newRows results).length with
      ⟨hrefused, e, hpush⟩ | ⟨hmerges, hpush⟩
    · rw [newBatch] at hpush
      rw [hpush]
      refine .refused ⟨hnone, entry, hfind, hrefused⟩ haccepted hheld ?_
      rw [hentry]
      exact Dataset.rowsOf_modify hfind (fun _ _ => hentry) (Registered.rows_merged_pushed _)
    · rw [newBatch] at hpush
      rw [hpush]
      refine .grown haccepted ?_ ?_
      · rintro ⟨_, entry', hsome, hrefused⟩
        rw [← Option.some.inj (hfind.symm.trans hsome)] at hrefused
        exact hmerges hrefused
      · rw [hentry]
        exact grown_of_push h hnone hfind

/-! ## What is marked, and what becomes of it -/

/-- A dataset in which the rows are marked dead that are written again. -/
structure Marked (refuses : Schema → List RecordBatch → Option String) (sys : WindowedSystem)
    (ds : CachedDataset R) (results : List RecordBatch) (marked : Dataset R) : Prop where
  dead : Dataset.MarkedDead ds.data marked
  aligned : marked.Aligned
  same : ¬ sys.Supersedes refuses ds results → marked = ds.data
  lost : sys.Supersedes refuses ds results →
    ∃ row < ds.data.rowCount, ds.data.isAlive row = true ∧ marked.isAlive row = false

theorem lt_of_isAlive (h : data.Aligned) {row : Nat} (halive : data.isAlive row = true) : row < data.rowCount := by
  rw [← h.bits]
  by_contra hle
  rw [Dataset.isAlive, List.getD_eq_getElem?_getD, List.getElem?_eq_none (not_lt.mp hle)] at halive
  cases halive

theorem marked_foldl {acc : Option RecordBatch} (h : ds.data.Aligned)
    (hread : (ds.batchFor refuses ACCUMULATOR).2 = .ok acc) (results : List RecordBatch) :
    Marked refuses sys ds results
      ((sys.supersededBy acc results ds.data.rowCount).foldl Dataset.markDead ds.data) where
  dead := Dataset.markedDead_foldl _ _
  aligned := h.foldl_markDead _
  same hnone := Dataset.foldl_markDead_eq_self fun row hrow =>
    Bool.of_not_eq_true fun halive => hnone ⟨acc, hread, row, hrow, halive⟩
  lost hsome := by
    obtain ⟨acc', hread', row, hrow, halive⟩ := hsome
    obtain rfl := Except.ok.inj (hread.symm.trans hread')
    exact ⟨row, lt_of_isAlive h halive, halive, Dataset.isAlive_foldl_markDead hrow⟩

variable {marked : Dataset R} {grownTo after : CachedDataset R}

/-- The bits of the rows that were there before the append. -/
theorem Grown.isAlive (hg : Grown sys data results data') (h : data.Aligned) {i : Nat} (hi : i < data.rowCount) :
    data'.isAlive i = data.isAlive i := by
  have hbits := h.bits
  rw [Dataset.isAlive, Dataset.isAlive, hg.alive, List.getD_eq_getElem?_getD, List.getD_eq_getElem?_getD,
    List.getElem?_append_left (hbits ▸ hi)]

theorem Grown.others (hg : Grown sys data results data') {name : String} (hne : name ≠ ACCUMULATOR) :
    data'.rowsOf name = data.rowsOf name := by
  rw [hg.rows, if_neg hne]
  simp

theorem Marked.rowsOf (hm : Marked refuses sys ds results marked) (name : String) :
    marked.rowsOf name = ds.data.rowsOf name :=
  rowsOf_congr (Dataset.find_of_components hm.dead.components name)

/-- Something has been marked dead where anything is superseded. -/
theorem Marked.deadCount (hm : Marked refuses sys ds results marked) (hzero : marked.deadCount = 0) :
    ¬ sys.Supersedes refuses ds results := by
  intro hsome
  obtain ⟨row, hrow, -, hdead⟩ := hm.lost hsome
  have halive := hm.aligned.alive_of_deadCount hzero (hm.dead.rowCount.symm ▸ hrow)
  exact Bool.false_ne_true (hdead.symm.trans halive)

/-- Where nothing is superseded, the live rows of the others are what they were. -/
theorem live_others (h : ds.data.Aligned) (hg : Grown sys ds.data results data') {name : String}
    {held : List (List Cell)} (hheld : held ∈ ds.data.rowsOf name) :
    RecordBatch.liveRows data'.alive held = RecordBatch.liveRows ds.data.alive held :=
  RecordBatch.liveRows_congr fun _ hi => hg.isAlive h (hi.trans_le (length_rowsOf_le h hheld))

theorem rowsOf_of_mem (h : data.Aligned) {entry : Registered} (hentry : entry ∈ data.components) :
    data.rowsOf entry.name = some entry.merged.rows := by
  have hfind : data.find entry.name = some entry := by
    cases hfind : data.find entry.name with
    | none => exact absurd (decide_eq_true rfl) (List.find?_eq_none.mp hfind entry hentry)
    | some found =>
      obtain ⟨hmem, hname⟩ := Dataset.mem_of_find hfind
      rw [List.inj_on_of_nodup_map h.names hmem hentry hname]
  rw [Dataset.rowsOf, Dataset.batchFor, hfind]
  rfl

/-- A compaction that goes through leaves the others their live rows, unless it takes superseded ones along. -/
theorem done_iff (h : ds.data.Aligned) (hm : Marked refuses sys ds results marked)
    (hg : Grown sys marked results grownTo.data)
    (hfull : ∀ entry ∈ grownTo.data.components, entry.numRows = grownTo.data.rowCount)
    (hread : ∀ name, after.data.batchFor name =
      (grownTo.data.batchFor name).map (RecordBatch.live grownTo.data.alive))
    (haligned : after.data.Aligned) (halive : ∀ row < after.data.rowCount, after.data.isAlive row = true) :
    (∀ name, name ≠ ACCUMULATOR → (after.data.rowsOf name).map (RecordBatch.liveRows after.data.alive) =
      (ds.data.rowsOf name).map (RecordBatch.liveRows ds.data.alive)) ↔
    (sys.Supersedes refuses ds results → ∀ entry ∈ ds.data.components, entry.name = ACCUMULATOR) := by
  have hafter {name : String} (hne : name ≠ ACCUMULATOR) :
      (after.data.rowsOf name).map (RecordBatch.liveRows after.data.alive) =
        (ds.data.rowsOf name).map (RecordBatch.liveRows grownTo.data.alive) := by
    have hrows : after.data.rowsOf name = (ds.data.rowsOf name).map (RecordBatch.liveRows grownTo.data.alive) := by
      rw [← hm.rowsOf, ← hg.others hne, Dataset.rowsOf, Dataset.rowsOf, hread, Option.map_map, Option.map_map]
      rfl
    rw [← hrows]
    cases hheld : after.data.rowsOf name with
    | none => rfl
    | some held =>
      rw [Option.map_some, RecordBatch.liveRows_eq_self_iff.mpr fun i hi => ?_]
      exact halive i (hi.trans_le (length_rowsOf_le haligned hheld))
  constructor
  · intro hkept hsome entry hentry
    by_contra hne
    have hlive := (hafter hne).symm.trans (hkept entry.name hne)
    rw [rowsOf_of_mem h hentry, Option.map_some, Option.map_some, Option.some.injEq] at hlive
    obtain ⟨row, hrow, hold, hdead⟩ := hm.lost hsome
    have hrow' : row < marked.rowCount := hm.dead.rowCount.symm ▸ hrow
    have hle : entry.merged.rows.length ≤ ds.data.rowCount := length_rowsOf_le h (rowsOf_of_mem h hentry)
    have hsame : sys.grown results entry = entry := if_neg fun hboth => hne hboth.1
    have hlength : entry.merged.rows.length = grownTo.data.rowCount := by
      have hmem : sys.grown results entry ∈ grownTo.data.components := by
        rw [hg.components, hm.dead.components]
        exact List.mem_map_of_mem hentry
      rw [← hfull _ hmem, hsame, ← Registered.numRows_merged]
      rfl
    have hcount : marked.rowCount ≤ grownTo.data.rowCount := by
      rw [hg.rowCount]
      exact le_max_left _ _
    refine RecordBatch.liveRows_ne (hlength ▸ hrow'.trans_le hcount) (fun i hi hbit => ?_) hold ?_ hlive
    · have hi : i < marked.rowCount := hm.dead.rowCount.symm ▸ hi.trans_le hle
      exact hm.dead.alive i ((hg.isAlive hm.aligned hi).symm.trans hbit)
    · exact (hg.isAlive hm.aligned hrow').trans hdead
  · intro honly name hne
    rw [hafter hne]
    cases hheld : ds.data.rowsOf name with
    | none => rfl
    | some held =>
      have hsome : ¬ sys.Supersedes refuses ds results := fun hsome => by
        rw [rowsOf_eq_none fun hin => ?_] at hheld
        · cases hheld
        · obtain ⟨entry, hentry, rfl⟩ := List.mem_map.mp hin
          exact hne (honly hsome entry hentry)
      rw [Option.map_some, Option.map_some, live_others h (hm.same hsome ▸ hg) hheld]

/-! ## Where the compaction stops -/

/-- The rows of the entry of a name. -/
def rowsIn (entries : List Registered) (name : String) : Option (List (List Cell)) :=
  (entries.find? fun entry => entry.name = name).map fun entry => entry.merged.rows

/-- What is read of the entries of a dataset, once some of them are flushed. -/
theorem rowsIn_flushed {entries' : List Registered} (h : List.Forall₂ Saci.Flushed data.components entries')
    (name : String) : rowsIn entries' name = data.rowsOf name := by
  rw [Dataset.rowsOf, Dataset.batchFor, Dataset.find, ← Saci.Flushed.find h name, Option.map_map]
  rfl

theorem rowsIn_cons (entry : Registered) (entries : List Registered) (name : String) :
    rowsIn (entry :: entries) name =
      if entry.name = name then some entry.merged.rows else rowsIn entries name := by
  rw [rowsIn, List.find?_cons]
  split_ifs with hname
  · rw [decide_eq_true hname]
    rfl
  · rw [decide_eq_false hname]
    rfl

/-- What filtering leaves of entries that it does not all get to. -/
def stopped (mask : List Bool) (entries : List Registered) : List Registered :=
  (entries.takeWhile (Dataset.covers mask)).map (Dataset.filtered mask) ++
    entries.dropWhile (Dataset.covers mask)

theorem stopped_cons_of_covers {mask : List Bool} {entry : Registered} {entries : List Registered}
    (h : Dataset.covers mask entry = true) :
    stopped mask (entry :: entries) = Dataset.filtered mask entry :: stopped mask entries := by
  rw [stopped, List.takeWhile_cons_of_pos h, List.dropWhile_cons_of_pos h, List.map_cons, List.cons_append]
  rfl

theorem stopped_cons_of_short {mask : List Bool} {entry : Registered} {entries : List Registered}
    (h : ¬ Dataset.covers mask entry = true) : stopped mask (entry :: entries) = entry :: entries := by
  rw [stopped, List.takeWhile_cons_of_neg h, List.dropWhile_cons_of_neg h, List.map_nil, List.nil_append]

/-- The rows of a filtered entry, in front of others. -/
theorem rowsIn_filtered {mask : List Bool} {entry entry' : Registered} (h : entry'.merged = entry.merged)
    (entries : List Registered) (name : String) :
    rowsIn (Dataset.filtered mask entry' :: entries) name =
      if entry'.name = name then some (RecordBatch.liveRows mask entry.merged.rows) else rowsIn entries name := by
  rw [rowsIn_cons, Dataset.live_merged, h]
  rfl

/-- An entry loses rows where it is filtered and one of them is dead. -/
theorem liveRows_ne_self (h : data.Aligned) (hdead : data.deadCount ≠ 0) {entry : Registered}
    (hfull : entry.numRows = data.rowCount) :
    RecordBatch.liveRows data.alive entry.merged.rows ≠ entry.merged.rows := by
  have hcovers : Dataset.covers data.alive entry = true := decide_eq_true (h.bits.trans hfull.symm).le
  have hlt := CachedDataset.numRows_filtered h hdead hcovers
  rw [← Registered.numRows_merged, ← Registered.numRows_merged, Dataset.live_merged] at hlt
  exact fun heq => hlt.ne (congrArg List.length heq)

theorem name_grown (results : List RecordBatch) (entry : Registered) :
    (sys.grown results entry).name = entry.name := by
  rw [grown]
  split_ifs
  · exact (CachedDataset.flushed_pushChunk (sys.newBatch results)).name
  · rfl

/-- The accumulator after the append. -/
theorem Grown.rows_acc (hg : Grown sys data results data') (h : data.Aligned) {acc : Registered}
    (hacc : acc ∈ data.components) (hname : acc.name = ACCUMULATOR) :
    (sys.grown results acc).merged.rows = acc.merged.rows ++ (sys.newBatch results).rows ∧
      data'.rowCount = max data.rowCount (sys.grown results acc).numRows := by
  have hheld := hname ▸ rowsOf_of_mem h hacc
  have hmem : sys.grown results acc ∈ data'.components := hg.components ▸ List.mem_map_of_mem hacc
  have hrows := rowsOf_of_mem hg.aligned hmem
  rw [name_grown, hname, hg.rows, hheld, if_pos rfl, Option.map_some, Option.some.injEq] at hrows
  refine ⟨hrows.symm, ?_⟩
  rw [hg.rowCount, grownCount, hheld, Option.map_some, Option.getD_some, ← length_newBatch, ← List.length_append,
    hrows, ← Registered.numRows_merged]
  rfl

/-- Where the accumulator is accepted, new rows change it. -/
theorem newRows_eq_nil (hg : Grown sys data results data') (haccepted : ¬ sys.Rejected data results)
    (hsame : data'.rowsOf ACCUMULATOR = data.rowsOf ACCUMULATOR) : sys.newRows results = [] := by
  by_contra hnew
  obtain ⟨entry, hfind⟩ : ∃ entry, data.find ACCUMULATOR = some entry := by
    by_contra hnone
    exact haccepted ⟨hnew, fun entry hfind => absurd ⟨entry, hfind⟩ hnone⟩
  have hheld : data.rowsOf ACCUMULATOR = some entry.merged.rows := by
    rw [Dataset.rowsOf, Dataset.batchFor, hfind]
    rfl
  rw [hg.rows, hheld, Option.map_some, if_pos rfl, Option.some.injEq, List.append_right_eq_self] at hsame
  exact hnew (List.map_eq_nil_iff.mp hsame)

/-- Without new rows, the append has left everything as it was. -/
theorem Grown.unchanged (hg : Grown sys data results data') (h : data.Aligned) (hnone : sys.newRows results = []) :
    data'.components = data.components ∧ (∀ name, data'.rowsOf name = data.rowsOf name) ∧
      data'.rowCount = data.rowCount ∧ data'.alive = data.alive := by
  have hrefl := Grown.refl h hnone
  have hrows : data'.rowCount = data.rowCount := hg.rowCount.trans hrefl.rowCount.symm
  refine ⟨hg.components.trans hrefl.components.symm, fun name => (hg.rows name).trans (hrefl.rows name).symm,
    hrows, ?_⟩
  rw [hg.alive, hrows, Nat.sub_self, List.replicate_zero, List.append_nil]

variable {entries' : List Registered} {first short : Registered} {rest : List Registered}

/-- The compaction stops at the first entry. -/
theorem stopped_first_iff (h : data.Aligned) (hg : Grown sys data results data')
    (haccepted : ¬ sys.Rejected data results) (hcomponents : data.components = first :: rest)
    (hshort : (sys.grown results first).numRows ≠ data'.rowCount) :
    ((∀ name, data'.rowsOf name = data.rowsOf name) ∧ data'.rowCount = data.rowCount ∧
      data'.alive = data.alive) ↔
    (sys.newRows results = [] ∧ ∃ first ∈ data.components.head?, first.numRows < data.rowCount) ∨
      (sys.newRows results ≠ [] ∧ sys.Regained data results) := by
  have hmem : first ∈ data.components := hcomponents ▸ List.mem_cons_self
  constructor
  · rintro ⟨hrows, hcount, -⟩
    have hnone := newRows_eq_nil hg haccepted (hrows ACCUMULATOR)
    have hsame : sys.grown results first = first := if_neg fun hboth => hboth.2 hnone
    rw [hsame, hcount] at hshort
    refine .inl ⟨hnone, first, ?_, lt_of_le_of_ne (h.rows first hmem) hshort⟩
    rw [hcomponents]
    rfl
  · rintro (⟨hnone, -⟩ | ⟨-, acc, second, rest', hcomponents', hname, hfull, -, -⟩)
    · exact (hg.unchanged h hnone).2
    · obtain ⟨rfl, rfl⟩ := List.cons.inj (hcomponents.symm.trans hcomponents')
      refine absurd ?_ hshort
      rw [(hg.rows_acc h hmem hname).2, hfull, max_self]

/-- The first entry is filtered, and is not an accumulator with new rows. -/
theorem stopped_other_iff (h : data.Aligned) (hg : Grown sys data results data') (hdead : data'.deadCount ≠ 0)
    (hcomponents : data.components = first :: rest)
    (hfull : (sys.grown results first).numRows = data'.rowCount)
    (hother : ¬ (first.name = ACCUMULATOR ∧ sys.newRows results ≠ [])) :
    (some (RecordBatch.liveRows data'.alive (sys.grown results first).merged.rows) = data.rowsOf first.name) ↔
    (sys.newRows results = [] ∧ ∃ first ∈ data.components.head?, first.numRows < data.rowCount) ∨
      (sys.newRows results ≠ [] ∧ sys.Regained data results) := by
  have hsame : sys.grown results first = first := if_neg hother
  have hmem : first ∈ data.components := hcomponents ▸ List.mem_cons_self
  rw [hsame] at hfull ⊢
  refine iff_of_false (fun heq => ?_) ?_
  · rw [rowsOf_of_mem h hmem, Option.some.injEq] at heq
    exact liveRows_ne_self hg.aligned hdead hfull heq
  · rintro (⟨hnone, first', hfirst', hlt⟩ | ⟨hnew, acc, second, rest', hcomponents', hname, -⟩)
    · rw [hcomponents] at hfirst'
      cases hfirst'
      rw [hfull, (hg.unchanged h hnone).2.2.1] at hlt
      exact lt_irrefl _ hlt
    · obtain ⟨rfl, rfl⟩ := List.cons.inj (hcomponents.symm.trans hcomponents')
      exact hother ⟨hname, hnew⟩

/-- The accumulator is filtered first, with new rows in it, and then the next one. -/
theorem stopped_acc_iff {second first' second' : Registered} {rest' : List Registered} (h : data.Aligned)
    (hg : Grown sys data results data') (hdead : data'.deadCount ≠ 0)
    (hcomponents : data.components = first :: second :: rest) (hname : first.name = ACCUMULATOR)
    (hfull : (sys.grown results first).numRows = data'.rowCount)
    (hflushed : List.Forall₂ Saci.Flushed data'.components (first' :: second' :: rest'))
    (hcovers : Dataset.covers data'.alive first' = true) :
    ((∀ name, rowsIn (stopped data'.alive (first' :: second' :: rest')) name = data.rowsOf name) ∧
      data'.rowCount = data.rowCount ∧ data'.alive = data.alive) ↔ sys.Regained data results := by
  have hnames := h.names
  rw [hcomponents] at hnames
  have hne : second.name ≠ ACCUMULATOR := fun heq =>
    (List.nodup_cons.mp hnames).1 (List.mem_map.mpr ⟨second, List.mem_cons_self, heq.trans hname.symm⟩)
  have hsame : sys.grown results second = second := if_neg fun hboth => hne hboth.1
  have hmem : second ∈ data.components := hcomponents ▸ List.mem_cons_of_mem _ List.mem_cons_self
  have hflushed' := hflushed
  rw [hg.components, hcomponents, List.map_cons, List.map_cons, List.forall₂_cons, List.forall₂_cons] at hflushed'
  obtain ⟨hfirst, hsecond, -⟩ := hflushed'
  rw [hsame] at hsecond
  have hname' : first'.name = ACCUMULATOR := hfirst.name.trans ((name_grown results first).trans hname)
  rw [stopped_cons_of_covers hcovers]
  have hcovers' : Dataset.covers data'.alive second' = true ↔ second.numRows = data'.rowCount := by
    rw [Dataset.covers, CachedDataset.numRows_flushed hsecond]
    exact hg.aligned.covers_iff (hsame ▸ hg.components ▸ List.mem_map_of_mem hmem)
  have hle : data.rowCount ≤ data'.rowCount := by
    rw [hg.rowCount]
    exact le_max_left _ _
  by_cases hlong : second.numRows = data'.rowCount
  · refine iff_of_false (fun hkept => ?_) ?_
    · have hrows := hkept.1 second.name
      rw [stopped_cons_of_covers (hcovers'.mpr hlong), rowsIn_filtered hfirst.merged_eq,
        if_neg (hname'.trans_ne hne.symm), rowsIn_filtered hsecond.merged_eq, if_pos hsecond.name,
        rowsOf_of_mem h hmem, Option.some.injEq] at hrows
      exact liveRows_ne_self hg.aligned hdead hlong hrows
    · rintro ⟨acc, second₀, rest₀, hcomponents', -, -, hlt, -⟩
      obtain ⟨rfl, htail⟩ := List.cons.inj (hcomponents.symm.trans hcomponents')
      obtain ⟨rfl, rfl⟩ := List.cons.inj htail
      rw [hlong] at hlt
      exact absurd hlt (not_lt.mpr hle)
  · rw [stopped_cons_of_short (mt hcovers'.mp hlong)]
    have hheld := hname ▸ rowsOf_of_mem h (hcomponents ▸ List.mem_cons_self)
    constructor
    · rintro ⟨hrows, hcount, halive⟩
      refine ⟨first, second, rest, hcomponents, hname, hfull.trans hcount, ?_, ?_⟩
      · exact lt_of_le_of_ne (h.rows second hmem) (hcount ▸ hlong)
      · have hacc := hrows ACCUMULATOR
        rw [rowsIn_filtered hfirst.merged_eq, if_pos hname', hheld, halive, Option.some.injEq] at hacc
        exact hacc
    · rintro ⟨acc, second₀, rest₀, hcomponents', -, hfull', -, hlive⟩
      obtain ⟨rfl, -⟩ := List.cons.inj (hcomponents.symm.trans hcomponents')
      have hcount : data'.rowCount = data.rowCount := hfull.symm.trans hfull'
      have halive : data'.alive = data.alive := by
        rw [hg.alive, hcount, Nat.sub_self, List.replicate_zero, List.append_nil]
      refine ⟨fun name => ?_, hcount, halive⟩
      rw [rowsIn_filtered hfirst.merged_eq]
      split_ifs with heq
      · obtain rfl : ACCUMULATOR = name := hname'.symm.trans heq
        rw [halive, hlive, hheld]
      · have hother : name ≠ ACCUMULATOR := fun hacc => heq (hname'.trans hacc.symm)
        rw [← hg.others hother, ← rowsIn_flushed hflushed, rowsIn_cons first', if_neg heq]

/-- A compaction that stops has changed nothing where nothing is superseded and either there was nothing new
and it stops at the first component, or the accumulator comes out of it as it was. -/
theorem stopped_iff (h : data.Aligned) (hg : Grown sys data results data') (hdead : data'.deadCount ≠ 0)
    (haccepted : ¬ sys.Rejected data results) (hflushed : List.Forall₂ Saci.Flushed data'.components entries')
    (hmem : short ∈ data'.components) (hlt : short.numRows < data'.rowCount) :
    ((∀ name, rowsIn (stopped data'.alive entries') name = data.rowsOf name) ∧
      data'.rowCount = data.rowCount ∧ data'.alive = data.alive) ↔
    (sys.newRows results = [] ∧ ∃ first ∈ data.components.head?, first.numRows < data.rowCount) ∨
      (sys.newRows results ≠ [] ∧ sys.Regained data results) := by
  rw [hg.components] at hmem
  cases hcomponents : data.components with
  | nil =>
    rw [hcomponents] at hmem
    cases hmem
  | cons first rest =>
    have hflushed' := hflushed
    rw [hg.components, hcomponents, List.map_cons] at hflushed'
    obtain ⟨first', rest', hfirst, hrest, rfl⟩ := List.forall₂_cons_left_iff.mp hflushed'
    have hin : first ∈ data.components := hcomponents ▸ List.mem_cons_self
    have hcovers : Dataset.covers data'.alive first' = true ↔
        (sys.grown results first).numRows = data'.rowCount := by
      rw [Dataset.covers, CachedDataset.numRows_flushed hfirst]
      exact hg.aligned.covers_iff (hg.components ▸ List.mem_map_of_mem hin)
    have hname' : first'.name = first.name := hfirst.name.trans (name_grown results first)
    rw [← hcomponents]
    by_cases hfull : (sys.grown results first).numRows = data'.rowCount
    · by_cases hacc : first.name = ACCUMULATOR ∧ sys.newRows results ≠ []
      · rw [hcomponents] at hmem
        cases rest with
        | nil =>
          rw [List.map_singleton, List.mem_singleton] at hmem
          rw [hmem, hfull] at hlt
          exact absurd hlt (lt_irrefl _)
        | cons second tail =>
          obtain ⟨second', tail', -, -, rfl⟩ := List.forall₂_cons_left_iff.mp hrest
          rw [stopped_acc_iff h hg hdead hcomponents hacc.1 hfull hflushed (hcovers.mpr hfull)]
          exact ⟨fun hregained => .inr ⟨hacc.2, hregained⟩, fun hor => hor.elim
            (fun hnone => absurd hnone.1 hacc.2) And.right⟩
      · have hother := stopped_other_iff h hg hdead hcomponents hfull hacc
        rw [stopped_cons_of_covers (hcovers.mpr hfull)]
        constructor
        · intro hkept
          refine hother.mp ?_
          rw [← hkept.1 first.name, rowsIn_filtered hfirst.merged_eq, if_pos hname']
        · intro hwhen
          have hrows := hother.mpr hwhen
          have hsame : sys.grown results first = first := if_neg hacc
          rw [hsame] at hfull
          rw [hsame, rowsOf_of_mem h hin, Option.some.injEq] at hrows
          exact absurd hrows (liveRows_ne_self hg.aligned hdead hfull)
    · rw [stopped_cons_of_short (mt hcovers.mp hfull), ← stopped_first_iff h hg haccepted hcomponents hfull]
      refine and_congr_left fun _ => forall_congr' fun name => ?_
      rw [rowsIn_flushed hflushed]

/-! ## The flush -/

/-- Marking rows dead changes nothing of what an append asks for. -/
theorem Marked.conditions (hm : Marked refuses sys ds results marked) :
    (sys.Rejected marked results ↔ sys.Rejected ds.data results) ∧
      (sys.PushFails refuses marked results ↔ sys.PushFails refuses ds.data results) ∧
      sys.grownCount marked results = sys.grownCount ds.data results := by
  have hfind := Dataset.find_of_components hm.dead.components ACCUMULATOR
  rw [Rejected, Rejected, PushFails, PushFails, grownCount, grownCount, hfind, hm.dead.rowCount, hm.rowsOf]
  exact ⟨.rfl, .rfl, rfl⟩

/-- Superseded rows change the bits. -/
theorem Marked.alive_ne (hm : Marked refuses sys ds results marked) (hg : Grown sys marked results data')
    (hsame : data'.alive = ds.data.alive) : ¬ sys.Supersedes refuses ds results := by
  intro hsome
  obtain ⟨row, hrow, hold, hdead⟩ := hm.lost hsome
  have hbit := hg.isAlive hm.aligned (hm.dead.rowCount.symm ▸ hrow)
  rw [Dataset.isAlive, hsame, hdead] at hbit
  exact Bool.false_ne_true (hbit.symm.trans hold)

/-- What is left of the condition once the append has gone through. -/
def KeepsGrown (refuses : Schema → List RecordBatch → Option String) (sys : WindowedSystem)
    (ds : CachedDataset R) (results : List RecordBatch) : Prop :=
  (¬ sys.Supersedes refuses ds results ∧ (ds.data.deadCount = 0 ∨
    (sys.newRows results = [] ∧ (CachedDataset.MergeRefused refuses ds.data.components ∨
      ∃ first ∈ ds.data.components.head?, first.numRows < ds.data.rowCount)) ∨
    (sys.newRows results ≠ [] ∧
      ¬ CachedDataset.MergeRefused refuses (ds.data.components.map (sys.grown results)) ∧
      sys.Regained ds.data results))) ∨
  (¬ CachedDataset.MergeRefused refuses (ds.data.components.map (sys.grown results)) ∧
    (∀ entry ∈ ds.data.components, (sys.grown results entry).numRows = sys.grownCount ds.data results) ∧
    (sys.Supersedes refuses ds results → ∀ entry ∈ ds.data.components, entry.name = ACCUMULATOR))

theorem keepsOthersWhen_iff {acc : Option RecordBatch} (hne : results ≠ [])
    (hread : (ds.batchFor refuses ACCUMULATOR).2 = .ok acc) (haccepted : ¬ sys.Rejected ds.data results)
    (hpushed : ¬ sys.PushFails refuses ds.data results) :
    sys.KeepsOthersWhen refuses ds results ↔ KeepsGrown refuses sys ds results := by
  constructor
  · rintro (hempty | hunread | ⟨_, hrejected⟩ | ⟨hnot, _, hzero⟩ | ⟨hnot, hnone, hrefused⟩ |
      ⟨hnot, hnone, hfirst, hlt⟩ | ⟨hnot, hnew, hcompactable, hregained⟩ | ⟨hcompactable, hfull, honly⟩)
    · exact absurd hempty hne
    · cases hunread.symm.trans hread
    · exact absurd hrejected haccepted
    · exact .inl ⟨hnot, .inl hzero⟩
    · exact .inl ⟨hnot, .inr (.inl ⟨hnone, .inl hrefused⟩)⟩
    · exact .inl ⟨hnot, .inr (.inl ⟨hnone, .inr ⟨_, hfirst, hlt⟩⟩)⟩
    · exact .inl ⟨hnot, .inr (.inr ⟨hnew, hcompactable.merged, hregained⟩)⟩
    · exact .inr ⟨hcompactable.merged, hfull, honly⟩
  · rintro (⟨hnot, hzero | ⟨hnone, hrefused | ⟨first, hfirst, hlt⟩⟩ | ⟨hnew, hmerged, hregained⟩⟩ |
      ⟨hmerged, hfull, honly⟩)
    · exact .idle hnot hpushed hzero
    · exact .refused hnot hnone hrefused
    · exact .short hnot hnone hfirst hlt
    · exact .regained hnot hnew ⟨haccepted, hpushed, hmerged⟩ hregained
    · exact .compacted ⟨haccepted, hpushed, hmerged⟩ hfull honly

/-- A compaction that stops leaves everything as it was where nothing is superseded and what it has filtered
comes out as it was. -/
theorem stoppedAt_iff {flushed : CachedDataset R} (h : ds.data.Aligned) (hm : Marked refuses sys ds results marked)
    (hg : Grown sys marked results grownTo.data) (hdead : grownTo.data.deadCount ≠ 0)
    (haccepted : ¬ sys.Rejected ds.data results)
    (hto : CachedDataset.FlushedTo refuses grownTo flushed (.ok ())) (hmem : short ∈ grownTo.data.components)
    (hlt : short.numRows < grownTo.data.rowCount)
    (hcomponents : after.data.components = stopped flushed.data.alive flushed.data.components)
    (hrows : after.data.rowCount = grownTo.data.rowCount) (halive : after.data.alive = grownTo.data.alive) :
    ((∀ name, after.data.rowsOf name = ds.data.rowsOf name) ∧ after.data.rowCount = ds.data.rowCount ∧
      after.data.alive = ds.data.alive) ↔
    ¬ sys.Supersedes refuses ds results ∧
      ((sys.newRows results = [] ∧ ∃ first ∈ ds.data.components.head?, first.numRows < ds.data.rowCount) ∨
        (sys.newRows results ≠ [] ∧ sys.Regained ds.data results)) := by
  have hbits : flushed.data.alive = grownTo.data.alive := by rw [hto.rest]
  have hread (name : String) :
      after.data.rowsOf name = rowsIn (stopped grownTo.data.alive flushed.data.components) name := by
    rw [Dataset.rowsOf, Dataset.batchFor, Dataset.find, hcomponents, hbits, Option.map_map]
    rfl
  rw [hrows, halive]
  simp only [hread]
  constructor
  · intro hkept
    have hnot := hm.alive_ne hg hkept.2.2
    rw [hm.same hnot] at hg
    exact ⟨hnot, (stopped_iff h hg hdead haccepted hto.flushed hmem hlt).mp hkept⟩
  · rintro ⟨hnot, hwhen⟩
    rw [hm.same hnot] at hg
    exact (stopped_iff h hg hdead haccepted hto.flushed hmem hlt).mpr hwhen

/-- What the flush keeps, once the append has gone through. -/
theorem compacted_iff {result : CachedDataset R × SaciResult Unit} (h : ds.data.Aligned)
    (hm : Marked refuses sys ds results marked) (hg : Grown sys marked results grownTo.data)
    (haccepted : ¬ sys.Rejected ds.data results) (hto : CachedDataset.CompactsTo refuses grownTo result) :
    LeavesOthers ds result ↔ KeepsGrown refuses sys ds results := by
  have hcomponents : grownTo.data.components = ds.data.components.map (sys.grown results) :=
    hg.components.trans (congrArg _ hm.dead.components)
  have hcount : grownTo.data.rowCount = sys.grownCount ds.data results := hg.rowCount.trans hm.conditions.2.2
  have hzero (hnot : ¬ sys.Supersedes refuses ds results) : grownTo.data.deadCount = ds.data.deadCount := by
    rw [hg.deadCount, hm.same hnot]
  have hsame (hnot : ¬ sys.Supersedes refuses ds results) (hnone : sys.newRows results = []) :=
    (hm.same hnot ▸ hg : Grown sys ds.data results grownTo.data).unchanged h hnone
  rw [KeepsGrown, ← hcomponents, ← hcount]
  cases hto with
  | idle hdead =>
    have hnot := hm.deadCount (hg.deadCount.symm.trans hdead)
    refine iff_of_true (fun name hne => ?_) (.inl ⟨hnot, .inl ((hzero hnot).symm.trans hdead)⟩)
    have hg : Grown sys ds.data results grownTo.data := hm.same hnot ▸ hg
    rw [hg.others hne]
    cases hheld : ds.data.rowsOf name with
    | none => rfl
    | some held => rw [Option.map_some, Option.map_some, live_others h hg hheld]
  | @refused after _ hdead hrefused hread hrows halive =>
    have hafter (name : String) : after.data.rowsOf name = grownTo.data.rowsOf name := by
      rw [Dataset.rowsOf, Dataset.rowsOf, hread]
    constructor
    · rintro ⟨hkept, -, hbits⟩
      have hnot := hm.alive_ne hg (halive.symm.trans hbits)
      have hnone := newRows_eq_nil (hm.same hnot ▸ hg : Grown sys ds.data results grownTo.data) haccepted
        ((hafter ACCUMULATOR).symm.trans (hkept ACCUMULATOR))
      exact .inl ⟨hnot, .inr (.inl ⟨hnone, .inl ((hsame hnot hnone).1 ▸ hrefused)⟩)⟩
    · rintro (⟨hnot, hdead' | ⟨hnone, -⟩ | ⟨-, hmerged, -⟩⟩ | ⟨hmerged, -⟩)
      · exact absurd ((hzero hnot).trans hdead') hdead
      · obtain ⟨-, hkept, hrows', hbits⟩ := hsame hnot hnone
        exact ⟨fun name => (hafter name).trans (hkept name), hrows.trans hrows', halive.trans hbits⟩
      · exact absurd hrefused hmerged
      · exact absurd hrefused hmerged
  | done hdead hmerged hfull hread haligned halive =>
    rw [LeavesOthers, done_iff h hm hg hfull hread haligned halive]
    constructor
    · refine fun honly => .inr ⟨hmerged, fun entry hentry => hfull _ ?_, honly⟩
      exact hcomponents ▸ List.mem_map_of_mem hentry
    · rintro (⟨hnot, -⟩ | ⟨-, -, honly⟩)
      · exact fun hsome => absurd hsome hnot
      · exact honly
  | stopped hdead hmerged hflushed hmem hlt hstopped hrows halive =>
    rw [LeavesOthers, stoppedAt_iff h hm hg hdead haccepted hflushed hmem hlt hstopped hrows halive]
    constructor
    · rintro ⟨hnot, ⟨hnone, hfirst⟩ | ⟨hnew, hregained⟩⟩
      · exact .inl ⟨hnot, .inr (.inl ⟨hnone, .inr hfirst⟩)⟩
      · exact .inl ⟨hnot, .inr (.inr ⟨hnew, hmerged, hregained⟩)⟩
    · rintro (⟨hnot, hdead' | ⟨hnone, hrefused | hfirst⟩ | ⟨hnew, -, hregained⟩⟩ | ⟨-, hfull, -⟩)
      · exact absurd ((hzero hnot).trans hdead') hdead
      · exact absurd ((hsame hnot hnone).1 ▸ hrefused) hmerged
      · exact ⟨hnot, .inl ⟨hnone, hfirst⟩⟩
      · exact ⟨hnot, .inr ⟨hnew, hregained⟩⟩
      · rw [hcomponents] at hmem
        obtain ⟨entry, hentry, rfl⟩ := List.mem_map.mp hmem
        exact absurd (hfull entry hentry) hlt.ne

/-- An error that has come before anything was changed. -/
theorem leavesOthers_error (e : SaciError) (hsame : after.data = ds.data) : LeavesOthers ds (after, .error e) := by
  rw [LeavesOthers, hsame]
  exact ⟨fun _ => rfl, rfl, rfl⟩

/-- **The frame of a flush**: the other components keep their live rows, or an error changes nothing, exactly
where `KeepsOthersWhen` says. -/
theorem keepsOthers_iff (h : ds.data.Aligned) :
    sys.KeepsOthers refuses ds results ↔ sys.KeepsOthersWhen refuses ds results := by
  rw [KeepsOthers, flushCached]
  by_cases hempty : results = []
  · rw [if_pos (List.isEmpty_iff.mpr hempty)]
    exact iff_of_true (fun _ _ => rfl) (.empty hempty)
  rw [if_neg (mt List.isEmpty_iff.mp hempty)]
  have hdata := @CachedDataset.data_batchFor R refuses ds ACCUMULATOR
  rcases hbatch : ds.batchFor refuses ACCUMULATOR with ⟨read, e | acc⟩
  · rw [hbatch] at hdata
    exact iff_of_true (leavesOthers_error e hdata) (.unread (congrArg Prod.snd hbatch))
  have hread : (ds.batchFor refuses ACCUMULATOR).2 = .ok acc := congrArg Prod.snd hbatch
  rw [hbatch] at hdata
  dsimp only at hdata ⊢
  rw [CachedDataset.foldl_markDead, hdata]
  have hm := @marked_foldl R refuses sys ds acc h hread results
  generalize (sys.supersededBy acc results ds.data.rowCount).foldl Dataset.markDead ds.data = marked at hm ⊢
  obtain ⟨hrejects, hfails, -⟩ := hm.conditions
  have happends := @appendsTo_appendNew R refuses sys ⟨marked, read.mergedCache⟩ hm.aligned results
  generalize sys.appendNew refuses ⟨marked, read.mergedCache⟩ results = left at happends ⊢
  cases happends with
  | rejected hrejected =>
    constructor
    · rintro ⟨-, -, hbits⟩
      refine .rejected (fun hsome => ?_) (hrejects.mp hrejected)
      obtain ⟨row, -, hold, hdead⟩ := hm.lost hsome
      have hbits : marked.alive = ds.data.alive := hbits
      rw [Dataset.isAlive, hbits] at hdead
      exact Bool.false_ne_true (hdead.symm.trans hold)
    · intro hwhen
      have hnot : ¬ sys.Supersedes refuses ds results := by
        cases hwhen with
        | empty hnil => exact absurd hnil hempty
        | unread hunread => cases hunread.symm.trans hread
        | rejected hnot | idle hnot | refused hnot | short hnot | regained hnot => exact hnot
        | compacted hcompactable => exact absurd (hrejects.mp hrejected) hcompactable.accepted
      exact leavesOthers_error _ (hm.same hnot)
  | @refused after e held hpush haccepted hheld hafter =>
    have hnew := hpush.1
    refine iff_of_false (fun hkept => ?_) fun hwhen => ?_
    · have hsame := hafter.symm.trans ((hkept.1 ACCUMULATOR).trans ((hm.rowsOf ACCUMULATOR).symm.trans hheld))
      rw [Option.some.injEq, List.append_right_eq_self] at hsame
      exact hnew (List.map_eq_nil_iff.mp hsame)
    · have hpush := hfails.mp hpush
      cases hwhen with
      | empty hnil => exact hempty hnil
      | unread hunread => cases hunread.symm.trans hread
      | rejected _ hrejected => exact haccepted (hrejects.mpr hrejected)
      | idle _ hpushed => exact hpushed hpush
      | refused _ hnone | short _ hnone => exact hnew hnone
      | regained _ _ hcompactable | compacted hcompactable => exact hcompactable.pushed hpush
  | @grown grownTo haccepted hpushed hg =>
    have haccepted := mt hrejects.mpr haccepted
    rw [keepsOthersWhen_iff hempty hread haccepted (mt hfails.mpr hpushed)]
    have hto := @CachedDataset.compactsTo_compact refuses R grownTo hg.aligned
    dsimp only
    generalize grownTo.compact refuses = result at hto ⊢
    rw [← compacted_iff h hm hg haccepted hto]
    rcases result with ⟨compacted, _ | _⟩ <;> rfl

end WindowedSystem
namespace FrameSample

open WindowedSystem

def merging : Schema → List RecordBatch → Option String := fun _ _ => none

def sums : WindowedSystem := ⟨"Trade", "ts", [], .tumbling 1000 0, .reduce "price" .sum⟩

def prices : Schema := ⟨[⟨"ts", .int64, true⟩, ⟨"price", .float64, true⟩]⟩

/-- What the accumulator holds of the first window. -/
def held : List Cell :=
  [.int 1, .text "Trade", .int 0, .int 0, .int 1, .float 3, .null, .null, .null, .null, .null]

/-- Two trades, and the accumulator with the rows that are given. -/
def trades (accs : List (List Cell)) : CachedDataset Unit where
  data :=
    { components := [⟨"Trade", 1, prices, [⟨prices, [[.int 0, .float 3], [.int 1, .float 4]]⟩], none⟩,
        ⟨ACCUMULATOR, 1, accumulatorSchema, [⟨accumulatorSchema, accs⟩], none⟩]
      rowCount := 2
      alive := [true, true]
      liveCount := 2
      deadCount := 0
      resources := () }
  mergedCache := []

/-- The first window again, with both of the trades. -/
def again : List RecordBatch :=
  [⟨⟨[⟨"window_id", .int64, false⟩, ⟨"key_hash", .int64, false⟩, ⟨"sum_price", .float64, true⟩]⟩,
    [[.int 0, .int 0, .float 7]]⟩]

theorem aligned_trades {accs : List (List Cell)} (h : accs.length ≤ 2) : (trades accs).data.Aligned := by
  refine ⟨rfl, rfl, rfl, (by decide : ["Trade", ACCUMULATOR].Nodup), fun entry hentry => ?_⟩
  rcases List.mem_cons.mp hentry with rfl | hentry
  · exact le_refl 2
  · rw [List.mem_singleton.mp hentry]
    exact h

/-- The first trade is where the accumulator held the first window, and goes with it. -/
theorem trade_lost : (trades [held]).data.Aligned ∧ ¬ sums.KeepsOthers merging (trades [held]) again := by
  refine ⟨aligned_trades one_le_two, fun h => ?_⟩
  have hok : (sums.flushCached merging (trades [held]) again).2.toOption = some () := by decide +kernel
  have hlive : ((sums.flushCached merging (trades [held]) again).1.data.rowsOf "Trade").map
      (RecordBatch.liveRows (sums.flushCached merging (trades [held]) again).1.data.alive) =
        some [[.int 1, .float 4]] := by decide +kernel
  rw [KeepsOthers] at h
  rcases hleft : sums.flushCached merging (trades [held]) again with ⟨after, e | _⟩
  · rw [hleft] at hok
    cases hok
  · rw [hleft] at h hlive
    have hkept := hlive.symm.trans (h "Trade" (by decide))
    exact absurd hkept (by decide +kernel)

/-- A window that the accumulator does not hold yet. -/
theorem trades_kept : sums.KeepsOthers merging (trades []) again := by
  have hread : ((trades []).batchFor merging ACCUMULATOR).2 = .ok (some ⟨accumulatorSchema, []⟩) := by
    decide +kernel
  refine (keepsOthers_iff (@aligned_trades [] (Nat.zero_le 2))).mpr (.idle ?_ ?_ rfl)
  · rintro ⟨acc, hacc, row, hrow, -⟩
    cases hread.symm.trans hacc
    exact List.not_mem_nil hrow
  · rintro ⟨-, entry, hfind, hrefused⟩
    exact hrefused.2 rfl

end FrameSample
end Saci
