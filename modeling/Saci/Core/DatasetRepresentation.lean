import Saci.Core.DatasetCache
import Saci.Core.DatasetRows

/-!
# The representation of a dataset

The fields of a dataset that say the same thing twice agree: the bitmap has a bit for each row, the counts
are those of its bits, no component is longer, its chunks have its schema, and a cached merge is that of the
chunks.
-/

namespace Saci

/-- An entry that fits into a dataset of so many rows. -/
structure Registered.Fits (rowCount : Nat) (entry : Registered) : Prop where
  rows : entry.numRows ≤ rowCount
  schema : ∀ chunk ∈ entry.chunks, chunk.schema = entry.schema
  template : ∀ template, entry.emptyTemplate = some template → template = .newEmpty entry.schema

/-- The documented invariant: the bitmap has a bit for each row, the counters are those of its bits, and a
component may hold fewer rows than there are, but not more. -/
structure Dataset.Aligned {R : Type} (data : Dataset R) : Prop where
  bits : data.alive.length = data.rowCount
  live : data.liveCount = data.alive.count true
  dead : data.liveCount + data.deadCount = data.rowCount
  names : (data.components.map Registered.name).Nodup
  rows : ∀ entry ∈ data.components, entry.numRows ≤ data.rowCount

namespace CachedDataset

structure Represented {R : Type} (ds : CachedDataset R) : Prop where
  bits : ds.data.alive.length = ds.data.rowCount
  live : ds.data.liveCount = ds.data.alive.count true
  dead : ds.data.liveCount + ds.data.deadCount = ds.data.rowCount
  names : (ds.data.components.map Registered.name).Nodup
  fits : ∀ entry ∈ ds.data.components, entry.Fits ds.data.rowCount
  cache : ∀ name batch, (name, batch) ∈ ds.mergedCache →
    ∃ entry ∈ ds.data.components, entry.name = name ∧ entry.merged = batch

theorem Represented.aligned {R : Type} {ds : CachedDataset R} (h : ds.Represented) : ds.data.Aligned :=
  ⟨h.bits, h.live, h.dead, h.names, fun entry hentry => (h.fits entry hentry).rows⟩

end CachedDataset

/-! ## Entries -/

namespace Registered
variable {entry : Registered} {rowCount : Nat}

theorem Fits.schema_merged (h : entry.Fits rowCount) : entry.merged.schema = entry.schema := by
  rw [merged]
  split
  · rename_i chunk hchunks
    exact h.schema chunk (hchunks ▸ List.mem_singleton_self chunk)
  · rfl

theorem Fits.mono {more : Nat} (h : entry.Fits rowCount) (hle : rowCount ≤ more) : entry.Fits more :=
  ⟨h.rows.trans hle, h.schema, h.template⟩

/-- An entry that holds one chunk of its schema. -/
theorem Fits.single {batch : RecordBatch} {rows : Nat} (h : entry.Fits rowCount)
    (hschema : batch.schema = entry.schema) (hrows : batch.numRows ≤ rows) :
    Registered.Fits rows { entry with chunks := [batch] } where
  rows := by
    rw [numRows, List.map_singleton, List.sum_singleton]
    exact hrows
  schema chunk hchunk := by
    rw [List.mem_singleton.mp hchunk]
    exact hschema
  template := h.template

theorem numRows_single (entry : Registered) (batch : RecordBatch) :
    Registered.numRows { entry with chunks := [batch] } = batch.numRows := List.sum_singleton

/-- More than one chunk is merged into what is read of them. -/
theorem concat_eq_merged (h : ¬ entry.chunks.length ≤ 1) :
    RecordBatch.concat entry.schema entry.chunks = entry.merged := by
  rw [merged]
  split
  · rename_i chunk hchunks
    rw [hchunks] at h
    exact absurd (le_refl 1) h
  · rfl

theorem chunks_dropSentinel : entry.dropSentinel.chunks ⊆ entry.chunks := by
  rw [dropSentinel]
  split
  · split_ifs
    · exact List.nil_subset _
    · exact List.Subset.refl _
  · exact List.Subset.refl _

theorem dropSentinel_eq (h : entry.dropSentinel.chunks ≠ []) : entry.dropSentinel = entry := by
  revert h
  rw [dropSentinel]
  split
  · split_ifs
    · exact fun h => absurd rfl h
    · exact fun _ => rfl
  · exact fun _ => rfl

theorem numRows_dropSentinel : entry.dropSentinel.numRows = entry.numRows := by
  rw [dropSentinel]
  split
  · rename_i chunk hchunks
    split_ifs with hempty
    · rw [numRows, numRows, hchunks, List.map_singleton, List.sum_singleton, hempty]
      rfl
    · rfl
  · rfl

theorem shapeOf_dropSentinel : Dataset.shapeOf entry.dropSentinel = Dataset.shapeOf entry := by
  rw [dropSentinel]
  split
  · split_ifs <;> rfl
  · rfl

theorem Fits.dropSentinel (h : entry.Fits rowCount) : entry.dropSentinel.Fits rowCount := by
  have hshape := @shapeOf_dropSentinel entry
  have hschema : entry.dropSentinel.schema = entry.schema := congrArg (·.2.2.1) hshape
  have htemplate : entry.dropSentinel.emptyTemplate = entry.emptyTemplate := congrArg (·.2.2.2) hshape
  refine ⟨numRows_dropSentinel.trans_le h.rows, fun chunk hchunk => ?_, fun template hsome => ?_⟩
  · rw [hschema]
    exact h.schema chunk (chunks_dropSentinel hchunk)
  · rw [hschema]
    exact h.template template (htemplate ▸ hsome)

end Registered

/-! ## Filtering -/

namespace RecordBatch
variable {α : Type}

theorem length_maskFilter_le (mask : List Bool) (rows : List α) :
    (maskFilter mask rows).length ≤ mask.count true := by
  induction mask, rows using maskFilter.induct with
  | case1 mask row rows ih =>
    rw [maskFilter, List.length_cons, List.count_cons_self]
    exact Nat.succ_le_succ ih
  | case2 mask row rows ih =>
    rw [maskFilter, List.count_cons_of_ne Bool.false_ne_true]
    exact ih
  | case3 mask rows =>
    unfold maskFilter
    split <;> simp_all

end RecordBatch

namespace Dataset
variable {mask : List Bool} {entries : List Registered}

/-- An entry after a filter. -/
def filtered (mask : List Bool) (entry : Registered) : Registered :=
  { entry with chunks := [{ entry.merged with rows := RecordBatch.maskFilter mask entry.merged.rows }] }

/-- An entry that is not shorter than the mask. -/
def covers (mask : List Bool) (entry : Registered) : Bool := mask.length ≤ entry.numRows

/-- What the filter loop of a compaction leaves. -/
inductive Filters (mask : List Bool) (entries : List Registered) : List Registered × SaciResult Unit → Prop
  | done : (∀ entry ∈ entries, covers mask entry = true) →
    Filters mask entries (entries.map (filtered mask), .ok ())
  /-- The first component that is shorter than the mask stops it. -/
  | stopped {short : Registered} {e : SaciError} : short ∈ entries → covers mask short = false →
    Filters mask entries
      ((entries.takeWhile (covers mask)).map (filtered mask) ++ entries.dropWhile (covers mask), .error e)

theorem filters_filterEntries (mask : List Bool) (entries : List Registered) :
    Filters mask entries (filterEntries mask entries) := by
  induction entries with
  | nil => exact .done nofun
  | cons entry entries ih =>
    rw [filterEntries, RecordBatch.filter, Registered.numRows_merged]
    by_cases hshort : entry.numRows < mask.length
    · have hcovers : covers mask entry = false := decide_eq_false (not_le.mpr hshort)
      have hstopped (e : SaciError) := @Filters.stopped mask (entry :: entries) entry e List.mem_cons_self hcovers
      rw [List.takeWhile_cons, List.dropWhile_cons, hcovers] at hstopped
      rw [if_pos hshort]
      exact hstopped _
    · have hcovers : covers mask entry = true := decide_eq_true (not_lt.mp hshort)
      rw [if_neg hshort]
      dsimp only
      generalize filterEntries mask entries = left at ih
      cases ih with
      | done hall => exact .done (List.forall_mem_cons.mpr ⟨hcovers, hall⟩)
      | @stopped short e hmem hfalse =>
        have hstopped := @Filters.stopped mask (entry :: entries) short e
        rw [List.takeWhile_cons, List.dropWhile_cons, hcovers] at hstopped
        exact hstopped (List.mem_cons_of_mem _ hmem) hfalse

theorem names_filtered (entries : List Registered) :
    (entries.map (filtered mask)).map Registered.name = entries.map Registered.name := List.map_map

end Dataset

namespace Registered
variable {entry : Registered} {rowCount : Nat} {mask : List Bool}

theorem Fits.filtered (h : entry.Fits rowCount) :
    (Dataset.filtered mask entry).Fits (min rowCount (mask.count true)) := by
  refine h.single h.schema_merged (le_min ?_ (RecordBatch.length_maskFilter_le mask _))
  refine (RecordBatch.maskFilter_sublist mask entry.merged.rows).length_le.trans ?_
  exact (@Registered.numRows_merged entry).trans_le h.rows

end Registered

/-! ## What the operations keep -/

theorem MergedCache.mem_remove {cache : MergedCache} {name other : String} {batch : RecordBatch} :
    (other, batch) ∈ cache.remove name ↔ (other, batch) ∈ cache ∧ other ≠ name := by
  rw [MergedCache.remove, List.mem_filter]
  exact and_congr_right fun _ => decide_eq_true_iff

theorem MergedCache.mem_of_get {cache : MergedCache} {name : String} {batch : RecordBatch}
    (h : cache.get name = some batch) : (name, batch) ∈ cache := by
  rw [MergedCache.get, Option.map_eq_some_iff] at h
  obtain ⟨⟨other, merged⟩, hfind, rfl⟩ := h
  have hfound := List.find?_some hfind
  obtain rfl : other = name := of_decide_eq_true hfound
  exact List.mem_of_find?_eq_some hfind

namespace Dataset
variable {R : Type} {data : Dataset R} {name : String} {f : Registered → Registered}

theorem mem_modify {entry' : Registered} (h : entry' ∈ (data.modify name f).components) :
    ∃ entry ∈ data.components, entry' = if entry.name = name then f entry else entry := by
  obtain ⟨entry, hentry, rfl⟩ := List.mem_map.mp h
  exact ⟨entry, hentry, rfl⟩

theorem names_modify (hf : ∀ entry ∈ data.components, entry.name = name → (f entry).name = name) :
    (data.modify name f).components.map Registered.name = data.components.map Registered.name := by
  rw [modify, List.map_map]
  refine List.map_congr_left fun entry hentry => ?_
  rw [Function.comp_apply]
  split_ifs with hname
  · exact (hf entry hentry hname).trans hname.symm
  · rfl

theorem modify_extendTo (oldLen n : Nat) :
    (data.modify name f).extendTo oldLen n =
      ((data.extendTo oldLen n).1.modify name f, (data.extendTo oldLen n).2) := by
  rw [extendTo, extendTo, modify, modify]
  dsimp only
  split_ifs <;> rfl

theorem rowCount_extendTo (oldLen n : Nat) :
    (data.extendTo oldLen n).1.rowCount = max data.rowCount (oldLen + n) := by
  rw [extendTo]
  dsimp only
  split_ifs with hlt
  · exact (max_eq_right hlt.le).symm
  · exact (max_eq_left (not_lt.mp hlt)).symm

theorem Aligned.extendTo (h : data.Aligned) (oldLen n : Nat) : (data.extendTo oldLen n).1.Aligned := by
  rw [Dataset.extendTo]
  dsimp only
  split_ifs with hlt
  · refine ⟨?_, ?_, ?_, h.names, fun entry hentry => (h.rows entry hentry).trans hlt.le⟩
    · rw [List.length_append, List.length_replicate, h.bits]
      exact Nat.add_sub_cancel' hlt.le
    · rw [List.count_append, List.count_replicate_self, h.live]
    · have hdead := h.dead
      dsimp only
      omega
  · exact h

theorem Aligned.markDead (h : data.Aligned) (row : Nat) : (data.markDead row).Aligned := by
  rw [Dataset.markDead]
  by_cases halive : data.isAlive row
  · rw [if_pos halive]
    have hbit : data.alive[row]? = some true := by
      rw [isAlive, List.getD_eq_getElem?_getD] at halive
      exact Option.getD_eq_iff.mp halive |>.resolve_right fun hnone => Bool.false_ne_true hnone.2
    obtain ⟨hlt, hget⟩ := List.getElem?_eq_some_iff.mp hbit
    have hpos : 0 < data.alive.count true := List.count_pos_iff.mpr (hget ▸ List.getElem_mem hlt)
    have hdead := h.dead
    have hlive := h.live
    refine ⟨List.length_set.trans h.bits, ?_, ?_, h.names, h.rows⟩
    · dsimp only
      rw [List.count_set hlt, hget, hlive]
      rfl
    · dsimp only
      omega
  · rw [if_neg halive]
    exact h

theorem Aligned.modify (h : data.Aligned)
    (hname : ∀ entry ∈ data.components, entry.name = name → (f entry).name = name)
    (hrows : ∀ entry ∈ data.components, entry.name = name → (f entry).numRows ≤ data.rowCount) :
    (data.modify name f).Aligned := by
  refine ⟨h.bits, h.live, h.dead, (names_modify hname).symm ▸ h.names, fun entry' hentry' => ?_⟩
  obtain ⟨entry, hentry, rfl⟩ := mem_modify hentry'
  split_ifs with heq
  · exact hrows entry hentry heq
  · exact h.rows entry hentry

end Dataset

namespace CachedDataset
variable {R : Type} {ds : CachedDataset R} {name : String} {entry : Registered}

theorem represented_new (resources : R) : (new resources).Represented :=
  ⟨rfl, rfl, rfl, List.nodup_nil, nofun, nofun⟩

/-- A name stands for one entry. -/
theorem Represented.eq_of_find (h : ds.Represented) (hfind : ds.data.find name = some entry)
    {other : Registered} (hother : other ∈ ds.data.components) (hname : other.name = name) : other = entry := by
  obtain ⟨hmem, hentry⟩ := Dataset.mem_of_find hfind
  exact List.inj_on_of_nodup_map h.names hother hmem (hname.trans hentry.symm)

theorem Represented.fits_of_find (h : ds.Represented) (hfind : ds.data.find name = some entry) :
    entry.Fits ds.data.rowCount := h.fits entry (Dataset.mem_of_find hfind).1

/-- Rewriting the entry of a name that is not in the cache. -/
theorem Represented.modify (h : ds.Represented) {f : Registered → Registered} {cache : MergedCache}
    (hname : ∀ entry ∈ ds.data.components, entry.name = name → (f entry).name = name)
    (hfits : ∀ entry ∈ ds.data.components, entry.name = name → (f entry).Fits ds.data.rowCount)
    (hcache : ∀ other batch, (other, batch) ∈ cache → (other, batch) ∈ ds.mergedCache ∧ other ≠ name) :
    Represented ⟨ds.data.modify name f, cache⟩ where
  bits := h.bits
  live := h.live
  dead := h.dead
  names := (Dataset.names_modify hname).symm ▸ h.names
  fits entry' hentry' := by
    obtain ⟨entry, hentry, rfl⟩ := Dataset.mem_modify hentry'
    split_ifs with heq
    · exact hfits entry hentry heq
    · exact h.fits entry hentry
  cache other batch hmem := by
    obtain ⟨hold, hne⟩ := hcache other batch hmem
    obtain ⟨entry, hentry, rfl, hmerged⟩ := h.cache other batch hold
    refine ⟨entry, List.mem_map.mpr ⟨entry, hentry, if_neg hne⟩, rfl, hmerged⟩

theorem Represented.extendTo (h : ds.Represented) (oldLen n : Nat) :
    Represented ⟨(ds.data.extendTo oldLen n).1, ds.mergedCache⟩ := by
  have haligned := h.aligned.extendTo oldLen n
  have hcomponents := Dataset.components_extendTo ds.data oldLen n
  refine ⟨haligned.bits, haligned.live, haligned.dead, haligned.names, fun entry hentry => ?_,
    fun other batch hmem => ?_⟩
  · rw [hcomponents] at hentry
    rw [Dataset.rowCount_extendTo]
    exact (h.fits entry hentry).mono (le_max_left _ _)
  · rw [hcomponents]
    exact h.cache other batch hmem

theorem Represented.registerComponent (h : ds.Represented) (schema : Schema) (version : UInt32) :
    (ds.registerComponent name schema version).1.Represented := by
  rw [CachedDataset.registerComponent, Dataset.registerComponent]
  by_cases hin : ds.data.contains name
  · rw [if_pos hin]
    exact h
  · rw [if_neg hin]
    by_cases hrows : ds.data.rowCount ≠ 0
    · rw [if_pos hrows]
      exact h
    · rw [if_neg hrows]
      have hnone : ds.data.find name = none := Option.not_isSome_iff_eq_none.mp hin
      refine ⟨h.bits, h.live, h.dead, ?_, fun entry hentry => ?_, fun other batch hmem => ?_⟩
      · dsimp only
        rw [List.map_append]
        refine List.nodup_append.mpr ⟨h.names, List.nodup_singleton _, fun other hother fresh hfresh => ?_⟩
        obtain ⟨entry, hentry, rfl⟩ := List.mem_map.mp hother
        rw [List.mem_singleton.mp hfresh]
        have hne := List.find?_eq_none.mp hnone entry hentry
        exact fun heq => hne (decide_eq_true heq)
      · rcases List.mem_append.mp hentry with hold | hnew
        · exact h.fits entry hold
        · rw [List.mem_singleton.mp hnew]
          refine ⟨Nat.zero_le _, fun chunk hchunk => ?_, fun template htemplate => ?_⟩
          · rw [List.mem_singleton.mp hchunk]
            rfl
          · exact (Option.some.inj htemplate).symm
      · obtain ⟨entry, hentry, hname, hmerged⟩ := h.cache other batch hmem
        exact ⟨entry, List.mem_append_left _ hentry, hname, hmerged⟩

theorem Represented.markDead (h : ds.Represented) (row : Nat) : (ds.markDead row).Represented := by
  have haligned := h.aligned.markDead row
  have hmarked := Dataset.markedDead_markDead ds.data row
  refine ⟨haligned.bits, haligned.live, haligned.dead, haligned.names, fun entry hentry => ?_,
    fun other batch hmem => ?_⟩
  · rw [CachedDataset.markDead, hmarked.components] at hentry
    rw [CachedDataset.markDead, hmarked.rowCount]
    exact h.fits entry hentry
  · rw [CachedDataset.markDead, hmarked.components]
    exact h.cache other batch hmem

theorem Represented.clear (h : ds.Represented) (resources : R) : (ds.clear resources).Represented := by
  refine ⟨rfl, rfl, rfl, ?_, fun entry' hentry' => ?_, nofun⟩
  · have hnames : (ds.clear resources).data.components.map Registered.name =
        ds.data.components.map Registered.name := by
      rw [CachedDataset.clear, Dataset.clear, List.map_map]
      refine List.map_congr_left fun entry _ => ?_
      rw [Function.comp_apply]
      split
      · rfl
      · split <;> rfl
    rw [hnames]
    exact h.names
  · obtain ⟨entry, hentry, rfl⟩ := List.mem_map.mp hentry'
    have hfits := h.fits entry hentry
    split
    · rename_i template htemplate
      rw [hfits.template template htemplate]
      exact hfits.single rfl (le_refl _)
    · split
      · rename_i hnone
        refine ⟨?_, hfits.schema, hfits.template⟩
        rw [Registered.numRows, List.head?_eq_none_iff.mp hnone]
        exact le_refl _
      · rename_i chunk hchunk
        exact hfits.single (hfits.schema chunk (List.mem_of_head? hchunk)) (le_refl _)

end CachedDataset
end Saci
