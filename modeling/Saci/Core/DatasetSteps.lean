import Saci.Core.DatasetRepresentation
import Mathlib.Data.List.TakeWhile

/-!
# Operations on a represented dataset

What the operations that merge chunks keep of the representation: a flush keeps all of it, an append unless
its merge is refused when the chunk is in, and a compaction unless it stops behind a component whose merge is
cached.
-/

namespace Saci

variable {refuses : Schema → List RecordBatch → Option String}

theorem concatBatches_eq_ok {schema : Schema} {chunks : List RecordBatch} {merged : RecordBatch}
    (h : concatBatches refuses schema chunks = .ok merged) : merged = .concat schema chunks := by
  rw [concatBatches] at h
  split at h
  · cases h
  · exact (Except.ok.inj h).symm

theorem refuses_of_concatBatches {schema : Schema} {chunks : List RecordBatch} {merged : RecordBatch}
    (h : concatBatches refuses schema chunks = .ok merged) : refuses schema chunks = none := by
  rw [concatBatches] at h
  split at h
  · cases h
  · assumption

/-! ## Flushing -/

/-- What a flush makes of an entry. -/
inductive Flushed (entry : Registered) : Registered → Prop
  | kept : Flushed entry entry
  | merged : ¬ entry.chunks.length ≤ 1 → Flushed entry { entry with chunks := [entry.merged] }

namespace Flushed
variable {entry entry' : Registered} {rowCount : Nat}

theorem name (h : Flushed entry entry') : entry'.name = entry.name := by
  cases h <;> rfl

theorem merged_eq (h : Flushed entry entry') : entry'.merged = entry.merged := by
  cases h <;> rfl

theorem fits (h : Flushed entry entry') (hfits : entry.Fits rowCount) : entry'.Fits rowCount := by
  cases h with
  | kept => exact hfits
  | merged hmany =>
    exact hfits.single hfits.schema_merged ((@Registered.numRows_merged entry).trans_le hfits.rows)

end Flushed

/-- What a flush leaves of the entries and of the cache. It drops what is cached of an entry that it merges,
and only that. -/
structure FlushesTo (refuses : Schema → List RecordBatch → Option String) (entries : List Registered)
    (cache : MergedCache) (entries' : List Registered) (cache' : MergedCache) (result : SaciResult Unit) :
    Prop where
  flushed : List.Forall₂ Flushed entries entries'
  cached : ∀ name batch, (name, batch) ∈ cache' → (name, batch) ∈ cache
  kept : ∀ name batch, (name, batch) ∈ cache →
    (∀ entry ∈ entries, entry.name = name → entry.chunks.length ≤ 1) → (name, batch) ∈ cache'
  done_iff : result = .ok () ↔
    ∀ entry ∈ entries, entry.chunks.length ≤ 1 ∨ refuses entry.schema entry.chunks = none
  dropped : result = .ok () → ∀ entry ∈ entries, ¬ entry.chunks.length ≤ 1 →
    ∀ batch, (entry.name, batch) ∉ cache'

theorem flushesTo_flushEntries {entries entries' : List Registered} {cache cache' : MergedCache}
    {result : SaciResult Unit} (h : flushEntries refuses entries cache = (entries', cache', result)) :
    FlushesTo refuses entries cache entries' cache' result := by
  induction entries generalizing entries' cache cache' result with
  | nil =>
    cases h
    exact ⟨.nil, fun _ _ => id, fun _ _ hmem _ => hmem, iff_of_true rfl nofun, fun _ => nofun⟩
  | cons entry entries ih =>
    rw [flushEntries] at h
    by_cases hfew : entry.chunks.length ≤ 1
    · rw [if_pos hfew] at h
      have hrest := ih (rfl : flushEntries refuses entries cache = (_, _, _))
      cases h
      refine ⟨.cons .kept hrest.flushed, hrest.cached, fun name batch hmem hall => ?_, ?_, fun hok => ?_⟩
      · exact hrest.kept name batch hmem (List.forall_mem_cons.mp hall).2
      · rw [hrest.done_iff, List.forall_mem_cons]
        exact (and_iff_right (.inl hfew)).symm
      · exact List.forall_mem_cons.mpr ⟨fun hmany => absurd hfew hmany, hrest.dropped hok⟩
    · rw [if_neg hfew] at h
      cases hconcat : concatBatches refuses entry.schema entry.chunks with
      | error e =>
        rw [hconcat] at h
        cases h
        refine ⟨.cons .kept (List.forall₂_same.mpr fun _ _ => .kept), fun _ _ => id, fun _ _ hmem _ => hmem, ?_,
          nofun⟩
        refine iff_of_false nofun fun hall => ?_
        rcases (List.forall_mem_cons.mp hall).1 with hone | hnone
        · exact hfew hone
        · rw [concatBatches, hnone] at hconcat
          cases hconcat
      | ok merged =>
        rw [hconcat] at h
        have hrest := ih (rfl : flushEntries refuses entries (cache.remove entry.name) = (_, _, _))
        cases h
        obtain rfl : merged = entry.merged :=
          (concatBatches_eq_ok hconcat).trans (Registered.concat_eq_merged hfew)
        refine ⟨.cons (.merged hfew) hrest.flushed, fun name batch hmem => ?_, fun name batch hmem hall => ?_, ?_,
          fun hok => ?_⟩
        · exact (MergedCache.mem_remove.mp (hrest.cached name batch hmem)).1
        · obtain ⟨hfirst, hothers⟩ := List.forall_mem_cons.mp hall
          refine hrest.kept name batch (MergedCache.mem_remove.mpr ⟨hmem, ?_⟩) hothers
          exact fun heq => hfew (hfirst heq.symm)
        · rw [hrest.done_iff, List.forall_mem_cons]
          exact (and_iff_right (.inr (refuses_of_concatBatches hconcat))).symm
        · refine List.forall_mem_cons.mpr ⟨fun _ batch hmem => ?_, hrest.dropped hok⟩
          exact (MergedCache.mem_remove.mp (hrest.cached _ batch hmem)).2 rfl

theorem exists_of_forall₂ {α β : Type} {r : α → β → Prop} {as : List α} {bs : List β}
    (h : List.Forall₂ r as bs) {a : α} (ha : a ∈ as) : ∃ b ∈ bs, r a b := by
  induction h with
  | nil => cases ha
  | @cons first _ _ _ hfirst _ ih =>
    rcases List.mem_cons.mp ha with rfl | hrest
    · exact ⟨_, List.mem_cons_self, hfirst⟩
    · obtain ⟨b, hb, hr⟩ := ih hrest
      exact ⟨b, List.mem_cons_of_mem _ hb, hr⟩

theorem forall₂_takeWhile {α β : Type} {r : α → β → Prop} {p : α → Bool} {q : β → Bool}
    (hpq : ∀ a b, r a b → p a = q b) {as : List α} {bs : List β} (h : List.Forall₂ r as bs) :
    List.Forall₂ r (as.takeWhile p) (bs.takeWhile q) := by
  induction h with
  | nil => exact .nil
  | @cons a b _ _ hab _ ih =>
    rw [List.takeWhile_cons, List.takeWhile_cons, hpq a b hab]
    split_ifs
    · exact .cons hab ih
    · exact .nil

namespace CachedDataset
variable {R : Type} {ds : CachedDataset R} {name : String} {entry : Registered}

/-- What a flush leaves of a dataset, also where a merge is refused. -/
structure FlushedTo (refuses : Schema → List RecordBatch → Option String) (ds ds' : CachedDataset R)
    (result : SaciResult Unit) : Prop
    extends FlushesTo refuses ds.data.components ds.mergedCache ds'.data.components ds'.mergedCache result where
  rest : ds'.data = { ds.data with components := ds'.data.components }

theorem flushedTo_flushAllPending :
    FlushedTo refuses ds (ds.flushAllPending refuses).1 (ds.flushAllPending refuses).2 :=
  ⟨flushesTo_flushEntries rfl, rfl⟩

theorem flushedTo_of_eq {ds' : CachedDataset R} {result : SaciResult Unit}
    (h : ds.flushAllPending refuses = (ds', result)) : FlushedTo refuses ds ds' result := by
  have hto := @flushedTo_flushAllPending refuses R ds
  rwa [h] at hto

variable {ds' : CachedDataset R} {result : SaciResult Unit}

theorem FlushedTo.names (h : FlushedTo refuses ds ds' result) :
    ds'.data.components.map Registered.name = ds.data.components.map Registered.name := by
  have hnames := List.forall₂_map_right_iff.mpr (h.flushed.imp fun _ _ hflushed => hflushed.name.symm)
  exact (List.forall₂_eq_eq_eq ▸ (List.forall₂_map_left_iff.mpr hnames) : _ = _).symm

theorem FlushedTo.represented (h : FlushedTo refuses ds ds' result) (hds : ds.Represented) :
    ds'.Represented := by
  have hrows : ds'.data.rowCount = ds.data.rowCount := by rw [h.rest]
  refine ⟨?_, ?_, ?_, ?_, fun entry' hentry' => ?_, fun name batch hmem => ?_⟩
  · rw [h.rest]
    exact hds.bits
  · rw [h.rest]
    exact hds.live
  · rw [h.rest]
    exact hds.dead
  · rw [h.names]
    exact hds.names
  · obtain ⟨entry, hentry, hflushed⟩ := exists_of_forall₂ h.flushed.flip hentry'
    rw [hrows]
    exact hflushed.fits (hds.fits entry hentry)
  · obtain ⟨entry, hentry, hname, hmerged⟩ := hds.cache name batch (h.cached name batch hmem)
    obtain ⟨entry', hentry', hflushed⟩ := exists_of_forall₂ h.flushed hentry
    exact ⟨entry', hentry', hflushed.name.trans hname, hflushed.merged_eq.trans hmerged⟩

/-! ## Appending -/

/-- The merge that an append of the chunk needs is not refused, or else the rows fit and no merge is
cached. -/
def AppendKeeps (refuses : Schema → List RecordBatch → Option String) (ds : CachedDataset R)
    (entry : Registered) (batch : RecordBatch) : Prop :=
  batch.numRows ≠ 0 → batch.schema = entry.schema →
    MERGE_THRESHOLD ≤ entry.chunks.length + 1 → refuses entry.schema (entry.chunks ++ [batch]) ≠ none →
    entry.numRows + batch.numRows ≤ ds.data.rowCount ∧ ∀ merged, (entry.name, merged) ∉ ds.mergedCache

theorem fits_pushed {rowCount : Nat} {batch : RecordBatch} (hfits : entry.Fits rowCount)
    (hschema : batch.schema = entry.schema) :
    Registered.Fits (max rowCount (entry.numRows + batch.numRows))
      { entry with chunks := entry.chunks ++ [batch] } where
  rows := by
    rw [Registered.numRows, List.map_append, List.sum_append, List.map_singleton, List.sum_singleton]
    exact le_max_right _ _
  schema chunk hchunk := by
    rcases List.mem_append.mp hchunk with hold | hnew
    · exact hfits.schema chunk hold
    · rw [List.mem_singleton.mp hnew]
      exact hschema
  template := hfits.template

theorem numRows_pushed (batch : RecordBatch) :
    Registered.numRows { entry with chunks := entry.chunks ++ [batch] } = entry.numRows + batch.numRows := by
  rw [Registered.numRows, List.map_append, List.sum_append, List.map_singleton, List.sum_singleton]
  rfl

/-- An entry that took the place of the one of its name. -/
theorem mem_modify_const {data : Dataset R} {entry entry' : Registered} (h : data.find entry.name = some entry) :
    entry' ∈ (data.modify entry.name fun _ => entry').components := by
  have hmem := (Dataset.mem_of_find h).1
  exact List.mem_map.mpr ⟨entry, hmem, if_pos rfl⟩

/-- An entry with a chunk pushed onto it. -/
def pushed (entry : Registered) (batch : RecordBatch) : Registered :=
  { entry with chunks := entry.chunks ++ [batch] }

/-- The push has too many chunks, and merging them is refused. -/
def PushRefused (refuses : Schema → List RecordBatch → Option String) (entry : Registered)
    (batch : RecordBatch) : Prop :=
  MERGE_THRESHOLD ≤ (entry.chunks ++ [batch]).length ∧ refuses entry.schema (entry.chunks ++ [batch]) ≠ none

instance (entry : Registered) (batch : RecordBatch) : Decidable (PushRefused refuses entry batch) :=
  inferInstanceAs (Decidable (_ ∧ _))

theorem flushed_pushChunk (batch : RecordBatch) : Flushed (pushed entry batch) (entry.pushChunk batch) := by
  rw [Registered.pushChunk, pushed]
  dsimp only
  split_ifs with hmany
  · have hmore : ¬ (entry.chunks ++ [batch]).length ≤ 1 := fun hfew => absurd (hmany.trans hfew) (by decide)
    rw [Registered.compactChunks, if_neg hmore, Registered.concat_eq_merged hmore]
    exact .merged hmore
  · exact .kept

/-- What a push leaves: the chunk alone where the merge is refused, and else the rows are counted too. -/
theorem pushBatch_cases (ds : CachedDataset R) (entry : Registered) (batch : RecordBatch) (n : Nat) :
    (PushRefused refuses entry batch ∧ ∃ e, ds.pushBatch refuses entry batch n =
      ({ ds with data := ds.data.modify entry.name fun _ => pushed entry batch }, .error e)) ∨
    (¬ PushRefused refuses entry batch ∧ ds.pushBatch refuses entry batch n =
      (⟨((ds.data.modify entry.name fun _ => entry.pushChunk batch).extendTo entry.numRows n).1,
        ds.mergedCache.remove entry.name⟩,
        .ok ((ds.data.modify entry.name fun _ => entry.pushChunk batch).extendTo entry.numRows n).2)) := by
  rw [CachedDataset.pushBatch, PushRefused]
  dsimp only
  by_cases hmany : MERGE_THRESHOLD ≤ (entry.chunks ++ [batch]).length
  · have hmore : ¬ (entry.chunks ++ [batch]).length ≤ 1 := fun hfew => absurd (hmany.trans hfew) (by decide)
    rw [if_pos hmany, Registered.mergeChunks, if_neg hmore, concatBatches, Registered.pushChunk, if_pos hmany,
      Registered.compactChunks, if_neg hmore]
    cases hrefuses : refuses entry.schema (entry.chunks ++ [batch]) with
    | some e => exact .inl ⟨⟨hmany, Option.some_ne_none e⟩, _, rfl⟩
    | none => exact .inr ⟨fun hrefused => hrefused.2 rfl, rfl⟩
  · rw [if_neg hmany, Registered.pushChunk, if_neg hmany]
    exact .inr ⟨fun hrefused => hmany hrefused.1, rfl⟩

/-- Pushing a chunk onto the entry of a component, or onto one that has no chunk. -/
theorem Represented.pushBatch_iff (h : ds.Represented) {batch : RecordBatch} (hfits : entry.Fits ds.data.rowCount)
    (hheld : entry.chunks ≠ [] → ds.data.find entry.name = some entry) (hrows : batch.numRows ≠ 0)
    (hschema : batch.schema = entry.schema) :
    (ds.pushBatch refuses entry batch batch.numRows).1.Represented ↔ AppendKeeps refuses ds entry batch := by
  have hfitted := fits_pushed hfits hschema
  rcases @pushBatch_cases refuses R ds entry batch batch.numRows with
    ⟨hrefused, e, hpush⟩ | ⟨hmerges, hpush⟩
  · rw [hpush]
    have hmany := hrefused.1
    have hin : entry.chunks ≠ [] →
        pushed entry batch ∈ (ds.data.modify entry.name fun _ => pushed entry batch).components :=
      fun hne => mem_modify_const (hheld hne)
    rw [List.length_append] at hmany
    constructor
    · -- the chunk is in, the rows are not counted and the cached merge is that of before
      intro hrep _ _ _ _
      have hne : entry.chunks ≠ [] := fun hnil => by
        rw [hnil] at hmany
        exact absurd hmany (by decide : ¬ MERGE_THRESHOLD ≤ 0 + 1)
      refine ⟨?_, fun merged hcached => hrows ?_⟩
      · rw [← numRows_pushed]
        exact (hrep.fits _ (hin hne)).rows
      · obtain ⟨other, hother, hname, hmerged⟩ := hrep.cache _ _ hcached
        obtain rfl := List.inj_on_of_nodup_map hrep.names hother (hin hne) hname
        obtain ⟨before, hbefore, hname', hmerged'⟩ := h.cache _ _ hcached
        obtain rfl := h.eq_of_find (hheld hne) hbefore hname'
        have hsame := congrArg RecordBatch.numRows (hmerged.trans hmerged'.symm)
        rw [Registered.numRows_merged, Registered.numRows_merged, pushed, numRows_pushed] at hsame
        omega
    · intro hkeeps
      obtain ⟨hle, huncached⟩ := hkeeps hrows hschema hmany hrefused.2
      refine h.modify (fun _ _ _ => rfl) (fun _ _ _ => ?_) fun other cached hmem => ⟨hmem, ?_⟩
      · rw [max_eq_left hle] at hfitted
        exact hfitted
      · rintro rfl
        exact huncached cached hmem
  · rw [hpush]
    refine iff_of_true ?_ fun _ _ hmany hrefused => absurd ⟨by rwa [List.length_append], hrefused⟩ hmerges
    have hflushed := @flushed_pushChunk entry batch
    rw [Dataset.modify_extendTo]
    refine (h.extendTo entry.numRows batch.numRows).modify (fun _ _ _ => hflushed.name) (fun _ _ _ => ?_)
      fun other cached hmem => MergedCache.mem_remove.mp hmem
    rw [Dataset.rowCount_extendTo]
    exact hflushed.fits hfitted

/-- Appending a raw batch keeps the representation exactly unless the merge it needs is refused. -/
theorem Represented.appendRecordBatch_iff (h : ds.Represented) {batch : RecordBatch} :
    (ds.appendRecordBatch refuses name batch).1.Represented ↔
      ∀ entry, ds.data.find name = some entry → AppendKeeps refuses ds entry.dropSentinel batch := by
  rw [CachedDataset.appendRecordBatch]
  cases hfind : ds.data.find name with
  | none => exact iff_of_true h nofun
  | some entry =>
    have hshape := @Registered.shapeOf_dropSentinel entry
    have hname : entry.dropSentinel.name = entry.name := congrArg (·.1) hshape
    have hschema : entry.dropSentinel.schema = entry.schema := congrArg (·.2.2.1) hshape
    have hone : (∀ entry', some entry = some entry' → AppendKeeps refuses ds entry'.dropSentinel batch) ↔
        AppendKeeps refuses ds entry.dropSentinel batch :=
      ⟨fun hall => hall entry rfl, fun hkeeps entry' heq => Option.some.inj heq ▸ hkeeps⟩
    rw [hone]
    dsimp only
    split_ifs with hempty hfields
    · exact iff_of_true h fun hrows => absurd hempty hrows
    · refine iff_of_true h fun _ hsame => absurd ?_ hfields
      rw [hsame, hschema]
    · refine h.pushBatch_iff (h.fits_of_find hfind).dropSentinel (fun hnonempty => ?_) hempty
        ((congrArg Schema.mk (not_not.mp hfields)).trans hschema.symm)
      rw [hname, (Dataset.mem_of_find hfind).2, hfind, Registered.dropSentinel_eq hnonempty]

/-- What an append to a component asks for. -/
def AppendKeepsAt (refuses : Schema → List RecordBatch → Option String) (ds : CachedDataset R) (name : String)
    (batch : RecordBatch) : Prop :=
  ∀ entry, ds.data.find name = some entry → AppendKeeps refuses ds entry batch

theorem Represented.append_iff {W : Type} {conversion : Conversion W} {values : List W} (h : ds.Represented) :
    (append refuses conversion ds name values).1.Represented ↔
      ∀ batch, conversion.toRecordBatch values = .ok batch → AppendKeepsAt refuses ds name batch := by
  rw [CachedDataset.append]
  cases hfind : ds.data.find name with
  | none => exact iff_of_true h fun _ _ entry hsome => nomatch hfind.symm.trans hsome
  | some entry =>
    have hone (batch : RecordBatch) : AppendKeepsAt refuses ds name batch ↔ AppendKeeps refuses ds entry batch :=
      ⟨fun hall => hall entry hfind, fun hkeeps entry' hsome => Option.some.inj (hfind.symm.trans hsome) ▸ hkeeps⟩
    dsimp only
    split_ifs with hempty
    · refine iff_of_true h fun batch hbatch => (hone batch).mpr fun hrows => absurd ?_ hrows
      rw [conversion.numRows_eq values batch hbatch, List.isEmpty_iff.mp hempty]
      rfl
    · cases hbatch : conversion.toRecordBatch values with
      | error e => exact iff_of_true h nofun
      | ok batch =>
        have hlength := conversion.numRows_eq values batch hbatch
        have hsingle : (∀ batch', (.ok batch : SaciResult RecordBatch) = .ok batch' →
            AppendKeepsAt refuses ds name batch') ↔ AppendKeeps refuses ds entry batch :=
          ⟨fun hall => (hone batch).mp (hall batch rfl), fun hkeeps batch' heq =>
            Except.ok.inj heq ▸ (hone batch).mpr hkeeps⟩
        rw [hsingle]
        dsimp only
        split_ifs with hfields
        · exact iff_of_true h fun _ hsame => absurd (congrArg Schema.fields hsame) hfields
        · rw [← hlength]
          refine h.pushBatch_iff (h.fits_of_find hfind) (fun _ => ?_) ?_
            (congrArg Schema.mk (not_not.mp hfields))
          · rw [(Dataset.mem_of_find hfind).2, hfind]
          · rw [hlength]
            exact fun hzero => hempty (List.isEmpty_iff.mpr (List.length_eq_zero_iff.mp hzero))

/-! ## Compacting -/

/-- Where a compaction stops at a component that is too short, no merge of one before it is cached that has
been a single chunk. -/
def CompactKeeps (refuses : Schema → List RecordBatch → Option String) (ds : CachedDataset R) : Prop :=
  ds.data.deadCount ≠ 0 →
    (∀ entry ∈ ds.data.components, entry.chunks.length ≤ 1 ∨ refuses entry.schema entry.chunks = none) →
    ∀ short ∈ ds.data.components, short.numRows < ds.data.rowCount →
    ∀ entry ∈ ds.data.components.takeWhile fun entry => ds.data.rowCount ≤ entry.numRows,
      entry.chunks.length ≤ 1 → ∀ merged, (entry.name, merged) ∉ ds.mergedCache

theorem numRows_flushed {entry' : Registered} (h : Flushed entry entry') : entry'.numRows = entry.numRows := by
  rw [← Registered.numRows_merged, ← Registered.numRows_merged, h.merged_eq]

/-- A filter that a component passes drops a row of it where one is dead. -/
theorem numRows_filtered {data : Dataset R} (h : data.Aligned) (hdead : data.deadCount ≠ 0)
    (hcovers : Dataset.covers data.alive entry = true) :
    (Dataset.filtered data.alive entry).numRows < entry.numRows := by
  rw [Dataset.filtered, Registered.numRows_single]
  have hle := RecordBatch.length_maskFilter_le data.alive entry.merged.rows
  have hrows : data.alive.length ≤ entry.numRows := of_decide_eq_true hcovers
  have hlive := h.live
  have hcount := h.dead
  have hbits := h.bits
  rw [RecordBatch.numRows]
  dsimp only
  omega

/-- A compaction that filters all of the components leaves only the live rows. -/
theorem Represented.filtered (h : ds.Represented) : Represented
    ⟨{ ds.data with
        components := ds.data.components.map (Dataset.filtered ds.data.alive)
        alive := List.replicate ds.data.liveCount true
        rowCount := ds.data.liveCount
        deadCount := 0 }, []⟩ := by
  refine ⟨List.length_replicate, List.count_replicate_self.symm, Nat.add_zero _, ?_, fun entry' hentry' => ?_,
    nofun⟩
  · dsimp only
    rw [Dataset.names_filtered]
    exact h.names
  · obtain ⟨entry, hentry, rfl⟩ := List.mem_map.mp hentry'
    refine (h.fits entry hentry).filtered.mono ?_
    rw [← h.live]
    exact min_le_right _ _

/-- A compaction that stops has filtered the components before the one that is too short, and their cached
merges have all of the rows still. -/
theorem Represented.stopped_iff (h : ds.Represented) (hdead : ds.data.deadCount ≠ 0) :
    Represented { ds with data := { ds.data with
        components :=
          (ds.data.components.takeWhile (Dataset.covers ds.data.alive)).map (Dataset.filtered ds.data.alive) ++
            ds.data.components.dropWhile (Dataset.covers ds.data.alive) } } ↔
      ∀ entry ∈ ds.data.components.takeWhile (Dataset.covers ds.data.alive),
        ∀ merged, (entry.name, merged) ∉ ds.mergedCache := by
  constructor
  · intro hrep entry hentry merged hcached
    obtain ⟨after, hafter, hname, hmerged⟩ := hrep.cache _ _ hcached
    have hfiltered := List.mem_append_left (ds.data.components.dropWhile (Dataset.covers ds.data.alive))
      (List.mem_map_of_mem (f := Dataset.filtered ds.data.alive) hentry)
    obtain rfl := List.inj_on_of_nodup_map hrep.names hafter hfiltered hname
    obtain ⟨before, hbefore, hname', hmerged'⟩ := h.cache _ _ hcached
    obtain rfl := List.inj_on_of_nodup_map h.names hbefore ((List.takeWhile_sublist _).mem hentry) hname'
    have hlt := numRows_filtered h.aligned hdead (List.mem_takeWhile_imp hentry)
    have hsame := congrArg RecordBatch.numRows (hmerged.trans hmerged'.symm)
    rw [Registered.numRows_merged, Registered.numRows_merged] at hsame
    exact hlt.ne hsame
  · intro huncached
    refine ⟨h.bits, h.live, h.dead, ?_, fun entry' hentry' => ?_, fun name batch hcached => ?_⟩
    · dsimp only
      rw [List.map_append, Dataset.names_filtered, ← List.map_append, List.takeWhile_append_dropWhile]
      exact h.names
    · rcases List.mem_append.mp hentry' with hfiltered | hrest
      · obtain ⟨entry, hentry, rfl⟩ := List.mem_map.mp hfiltered
        exact (h.fits entry ((List.takeWhile_sublist _).mem hentry)).filtered.mono (min_le_left _ _)
      · exact h.fits entry' ((List.dropWhile_sublist _).mem hrest)
    · -- a cached merge is of a component that the loop has not come to
      obtain ⟨entry, hentry, rfl, hmerged⟩ := h.cache name batch hcached
      rw [← List.takeWhile_append_dropWhile (p := Dataset.covers ds.data.alive) (l := ds.data.components)]
        at hentry
      rcases List.mem_append.mp hentry with hdone | hrest
      · exact absurd hcached (huncached entry hdone batch)
      · exact ⟨entry, List.mem_append_right _ hrest, rfl, hmerged⟩

/-- A flush that is done leaves the cached merges of the single chunks, and no others. -/
theorem FlushedTo.uncached_iff {keep keep' : Registered → Bool} (hto : FlushedTo refuses ds ds' (.ok ()))
    (hds : ds.Represented) (hkeep : ∀ entry entry', Flushed entry entry' → keep entry = keep' entry') :
    (∀ entry ∈ ds'.data.components.takeWhile keep', ∀ merged, (entry.name, merged) ∉ ds'.mergedCache) ↔
      ∀ entry ∈ ds.data.components.takeWhile keep, entry.chunks.length ≤ 1 →
        ∀ merged, (entry.name, merged) ∉ ds.mergedCache := by
  have htake := forall₂_takeWhile hkeep hto.flushed
  constructor
  · intro huncached entry hentry hfew merged hcached
    obtain ⟨entry', hentry', hfrom⟩ := exists_of_forall₂ htake hentry
    have hin := (List.takeWhile_sublist _).mem hentry
    refine huncached entry' hentry' merged ?_
    rw [hfrom.name]
    refine hto.kept _ _ hcached fun other hother hname => ?_
    obtain rfl := List.inj_on_of_nodup_map hds.names hother hin hname
    exact hfew
  · intro huncached entry' hentry' merged hcached
    obtain ⟨entry, hentry, hfrom⟩ := exists_of_forall₂ htake.flip hentry'
    have hin := (List.takeWhile_sublist _).mem hentry
    rw [hfrom.name] at hcached
    have hfew : entry.chunks.length ≤ 1 := by
      by_contra hmany
      exact hto.dropped rfl entry hin hmany merged hcached
    exact huncached entry hentry hfew merged (hto.cached _ _ hcached)

theorem Represented.compact_iff (h : ds.Represented) :
    (ds.compact refuses).1.Represented ↔ CompactKeeps refuses ds := by
  rw [CachedDataset.compact]
  split_ifs with hdead
  · exact iff_of_true h fun hsome => absurd hdead hsome
  cases hflush : ds.flushAllPending refuses with
  | mk flushed result =>
  have hto := flushedTo_of_eq hflush
  have hflushed := hto.represented h
  cases result with
  | error e => exact iff_of_true hflushed fun _ hmerges => nomatch hto.done_iff.mpr hmerges
  | ok done =>
  have hbits : flushed.data.alive.length = ds.data.rowCount := by
    rw [hto.rest]
    exact h.bits
  have hdead' : flushed.data.deadCount ≠ 0 := by
    rw [hto.rest]
    exact hdead
  -- the same components are too short before the flush and after it
  have hcovers (entry entry' : Registered) (hentry : Flushed entry entry') :
      decide (ds.data.rowCount ≤ entry.numRows) = Dataset.covers flushed.data.alive entry' := by
    rw [Dataset.covers, hbits, numRows_flushed hentry]
  have huncached := hto.uncached_iff h hcovers
  have hfilters := Dataset.filters_filterEntries flushed.data.alive flushed.data.components
  dsimp only
  generalize Dataset.filterEntries flushed.data.alive flushed.data.components = left at hfilters ⊢
  cases hfilters with
  | done hall =>
    refine iff_of_true hflushed.filtered fun _ _ short hshort hlt => ?_
    obtain ⟨short', hshort', hfrom⟩ := exists_of_forall₂ hto.flushed hshort
    have hfalse := (hcovers short short' hfrom).trans (hall short' hshort')
    exact absurd (of_decide_eq_true hfalse) (not_le.mpr hlt)
  | @stopped short e hmem hshort =>
    refine (hflushed.stopped_iff hdead').trans (huncached.trans ⟨fun hnone _ _ _ _ _ => hnone, fun hkeeps => ?_⟩)
    obtain ⟨short₀, hshort₀, hfrom₀⟩ := exists_of_forall₂ hto.flushed.flip hmem
    refine hkeeps hdead (hto.done_iff.mp rfl) short₀ hshort₀ ?_
    exact not_le.mp (of_decide_eq_false ((hcovers short₀ short hfrom₀).trans hshort))

/-! ## Replacing and reading -/

theorem Represented.flush (h : ds.Represented) : (ds.flushAllPending refuses).1.Represented :=
  flushedTo_flushAllPending.represented h

/-- One batch of its schema in place of the chunks of a component, and no merge of it cached. -/
theorem Represented.put (h : ds.Represented) {batch : RecordBatch} (hfind : ds.data.find name = some entry)
    (hschema : batch.schema = entry.schema) (hrows : batch.numRows ≤ ds.data.rowCount) :
    Represented ⟨ds.data.modify name fun entry => { entry with chunks := [batch] },
      ds.mergedCache.remove name⟩ := by
  refine h.modify (fun _ _ hname => hname) (fun other hother hname => ?_)
    fun other cached hmem => MergedCache.mem_remove.mp hmem
  refine (h.fits other hother).single ?_ hrows
  rw [h.eq_of_find hfind hother hname]
  exact hschema

/-- A flush keeps the name and the schema of an entry. -/
theorem FlushedTo.find (h : FlushedTo refuses ds ds' result) (hds : ds.Represented)
    (hfind : ds'.data.find name = some entry) :
    ∃ entry₀, ds.data.find name = some entry₀ ∧ entry.schema = entry₀.schema := by
  obtain ⟨hmem, hname⟩ := Dataset.mem_of_find hfind
  obtain ⟨entry₀, hentry₀, hflushed⟩ := exists_of_forall₂ h.flushed.flip hmem
  have hsome : ∃ found, ds.data.find name = some found := by
    refine Option.isSome_iff_exists.mp (List.find?_isSome.mpr ⟨entry₀, hentry₀, decide_eq_true ?_⟩)
    exact hflushed.name.symm.trans hname
  obtain ⟨found, hfound⟩ := hsome
  obtain rfl := hds.eq_of_find hfound hentry₀ (hflushed.name.symm.trans hname)
  exact ⟨entry₀, hfound, by cases hflushed <;> rfl⟩

theorem Represented.replaceBatch (h : ds.Represented) (batch : RecordBatch) :
    (ds.replaceBatch refuses name batch).1.Represented := by
  rw [CachedDataset.replaceBatch]
  split
  · exact h
  rename_i entry hfind
  split_ifs with hfields
  · exact h
  split
  · rename_i flushed e hflush
    have hflushed : (ds.flushAllPending refuses).1.Represented := h.flush
    rwa [hflush] at hflushed
  rename_i flushed hflush
  have hto := flushedTo_of_eq hflush
  have hflushed := hto.represented h
  dsimp only
  split_ifs with hrows
  · exact hflushed
  · cases hfind' : flushed.data.find name with
    | none =>
      rw [hfind', Option.map_none, Option.getD_none] at hrows
      refine hflushed.modify (fun _ _ hname => hname) (fun other hother hname => ?_)
        fun other cached hmem => MergedCache.mem_remove.mp hmem
      exact absurd (decide_eq_true hname) (List.find?_eq_none.mp hfind' other hother)
    | some found =>
      obtain ⟨entry₀, hfind₀, hschema⟩ := hto.find h hfind'
      obtain rfl := Option.some.inj (hfind.symm.trans hfind₀)
      rw [hfind', Option.map_some, Option.getD_some, not_not] at hrows
      refine hflushed.put hfind' ?_ (hrows.trans_le (hflushed.fits_of_find hfind').rows)
      exact (congrArg Schema.mk (not_not.mp hfields)).trans hschema.symm

/-- A rebuilt batch has the schema of the one before, and the rows of the new columns. -/
theorem rebuild_rows {component : String} {existing batch : RecordBatch} {updates : List (String × ArrayRef)}
    {rowCount : Nat} (hnodup : (updates.map (·.1)).Nodup) (hne : updates ≠ [])
    (hlen : ∀ u ∈ updates, u.2.cells.length = rowCount)
    (h : Dataset.rebuild component existing updates = .ok batch) :
    batch.schema = existing.schema ∧ batch.numRows = rowCount := by
  obtain ⟨columns, hset, htry⟩ := bind_eq_ok_iff.mp h
  have htry : RecordBatch.tryNew existing.schema columns = .ok batch := by
    split at htry
    · cases htry
    · cases htry
      assumption
  obtain ⟨n, -, -, hsame, -, rfl⟩ := RecordBatch.tryNew_eq_ok_iff.mp htry
  refine ⟨rfl, ?_⟩
  obtain ⟨-, hnew, -⟩ := Dataset.setColumns_spec hnodup hset
  obtain ⟨u, hu⟩ := List.exists_mem_of_ne_nil _ hne
  obtain ⟨idx, hidx, hget⟩ := hnew u hu
  have hlt : idx < existing.columns.length := by
    obtain ⟨field, hfield, -⟩ := Schema.indexOf_eq_some hidx
    rw [RecordBatch.columns, List.length_map, List.length_zipIdx]
    exact (List.getElem?_eq_some_iff.mp hfield).1
  rw [← hlen u hu, hsame u.2 (List.mem_of_getElem? (hget hlt)), RecordBatch.numRows, List.length_map,
    List.length_range]

theorem Represented.applyUpdates {groups : Dataset.Updates} (h : ds.Represented)
    (hgroups : Dataset.Sound ds.data.rowCount groups) : (applyUpdates groups ds).1.Represented := by
  induction groups generalizing ds with
  | nil => exact h
  | cons group groups ih =>
    obtain ⟨component, updates⟩ := group
    rw [CachedDataset.applyUpdates]
    split
    · exact h
    rename_i entry hfind
    split
    · exact h
    rename_i existing hexisting
    split
    · exact h
    rename_i batch hbatch
    obtain ⟨hschema, hrows⟩ := rebuild_rows (List.forall_mem_cons.mp hgroups.fields).1
      (List.forall_mem_cons.mp hgroups.nonempty).1 (List.forall_mem_cons.mp hgroups.length).1 hbatch
    refine ih (h.put hfind ?_ hrows.le) hgroups.tail
    exact hschema.trans ((h.fits_of_find hfind).schema existing (List.mem_of_head? hexisting))

theorem Represented.applyWriteSet {T V : Type} [DecidableEq T] {ds : CachedDataset (ResourceMap T V)}
    (h : ds.Represented) (ws : WriteSet T V) : (ds.applyWriteSet refuses ws).1.Represented := by
  rw [CachedDataset.applyWriteSet]
  split
  · rename_i flushed e hflush
    have hflushed : (ds.flushAllPending refuses).1.Represented := h.flush
    rwa [hflush] at hflushed
  rename_i flushed hflush
  have hflushed := (flushedTo_of_eq hflush).represented h
  split
  · exact hflushed
  rename_i groups hgroups
  have hlen := Dataset.length_of_byComponent hgroups
  have hsound : Dataset.Sound flushed.data.rowCount groups := by
    rw [Dataset.byComponent_eq_ok hlen] at hgroups
    cases hgroups
    exact Dataset.sound_grouped ws.fields.nodupKeys (Dataset.grouped_foldl _) hlen
  have hwritten := hflushed.applyUpdates hsound
  split
  · rename_i written e hloop
    rwa [hloop] at hwritten
  · rename_i written hloop
    rw [hloop] at hwritten
    dsimp only
    rw [Dataset.foldl_apply]
    exact ⟨hwritten.bits, hwritten.live, hwritten.dead, hwritten.names, hwritten.fits, hwritten.cache⟩

theorem buildMerged_eq_ok {merged : RecordBatch} (h : entry.buildMerged refuses = .ok merged) :
    merged = entry.merged := by
  rw [Registered.buildMerged] at h
  split at h
  · rename_i chunk hchunks
    rw [Registered.merged, hchunks]
    exact (Except.ok.inj h).symm
  · rename_i chunks hmany
    rw [Registered.merged]
    split
    · rename_i chunk hchunks
      exact absurd hchunks (hmany chunk)
    · exact concatBatches_eq_ok h

/-- A read is of the merged chunks, from the cache or not, and leaves them in it. -/
theorem Represented.batchFor (h : ds.Represented) (name : String) :
    (ds.batchFor refuses name).1.Represented ∧
      ∀ batch, (ds.batchFor refuses name).2 = .ok batch → batch = ds.data.batchFor name := by
  rw [CachedDataset.batchFor, Dataset.batchFor]
  split
  · rename_i hnone
    refine ⟨h, fun batch hok => ?_⟩
    rw [hnone]
    exact (Except.ok.inj hok).symm
  rename_i entry hfind
  obtain ⟨hmem, hname⟩ := Dataset.mem_of_find hfind
  rw [hfind, Option.map_some, getOrBuildMerged]
  cases hcached : ds.mergedCache.get entry.name with
  | some batch =>
    obtain ⟨other, hother, hsame, hmerged⟩ := h.cache _ _ (MergedCache.mem_of_get hcached)
    obtain rfl := h.eq_of_find hfind hother (hsame.trans hname)
    refine ⟨h, fun read hok => ?_⟩
    rw [hmerged]
    exact (Except.ok.inj hok).symm
  | none =>
    cases hbuild : entry.buildMerged refuses with
    | error e => exact ⟨h, by rintro _ ⟨⟩⟩
    | ok merged =>
      obtain rfl := buildMerged_eq_ok hbuild
      refine ⟨⟨h.bits, h.live, h.dead, h.names, h.fits, fun other batch hin => ?_⟩,
        fun read hok => (Except.ok.inj hok).symm⟩
      rcases List.mem_cons.mp hin with heq | hold
      · obtain ⟨rfl, rfl⟩ := Prod.mk.inj heq
        exact ⟨entry, hmem, rfl, rfl⟩
      · exact h.cache other batch hold

end CachedDataset
end Saci
