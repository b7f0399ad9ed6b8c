import Saci.Core.DatasetCompaction

/-!
# Forwarding a dataset into another

`forward_into` (`saci-core/src/dataset/forward.rs`) appends what is read of a component of the source, to the
component of that name, one name of the destination after another. It does not look at the bits of the
source: a row that has been deleted there arrives alive.
-/

namespace Saci

variable {R : Type} {refuses : Schema → List RecordBatch → Option String}

section
variable (refuses : Schema → List RecordBatch → Option String)

/-- The loop of `forward_into` over the names the destination declares: the source with what its reads have
cached, the destination, and the number of rows that were appended. -/
def CachedDataset.forwardNames : List String → CachedDataset R → CachedDataset R → Nat →
    CachedDataset R × CachedDataset R × SaciResult Nat
  | [], src, dst, appended => (src, dst, .ok appended)
  | name :: names, src, dst, appended =>
    match src.batchFor refuses name with
    | (src, .error e) => (src, dst, .error e)
    | (src, .ok none) => forwardNames names src dst appended
    | (src, .ok (some batch)) =>
      match dst.appendRecordBatch refuses name batch with
      | (dst, .error e) => (src, dst, .error e)
      | (dst, .ok _) => forwardNames names src dst (appended + batch.numRows)

/-- `forward_into`. -/
def CachedDataset.forwardInto (src dst : CachedDataset R) :
    CachedDataset R × CachedDataset R × SaciResult Nat :=
  forwardNames refuses (dst.data.components.map Registered.name) src dst 0

/-- What becomes of the rows of a component. -/
inductive Receipt
  /-- There are none. -/
  | skipped
  /-- They cannot be read, or their schema is another one. -/
  | refused
  /-- They are in, and merging the chunks is refused. -/
  | broken
  | appended (batch : RecordBatch)
  deriving DecidableEq

def receipt (src dst : CachedDataset R) (name : String) : Receipt :=
  match (src.batchFor refuses name).2, dst.data.find name with
  | .error _, _ => .refused
  | .ok none, _ => .skipped
  | .ok (some _), none => .refused
  | .ok (some batch), some entry =>
    if batch.numRows = 0 then .skipped
    else if batch.schema.fields ≠ entry.schema.fields then .refused
    else if CachedDataset.PushRefused refuses entry.dropSentinel batch then .broken
    else .appended batch

end

/-! ## Reading the source -/

namespace CachedDataset
variable {src src' : CachedDataset R} {name other : String}

theorem data_batchFor (src : CachedDataset R) (name : String) : (src.batchFor refuses name).1.data = src.data := by
  rw [batchFor]
  cases src.data.find name with
  | none => rfl
  | some entry =>
    dsimp only
    rw [getOrBuildMerged]
    cases src.mergedCache.get entry.name with
    | some batch => rfl
    | none =>
      dsimp only
      cases entry.buildMerged refuses <;> rfl

theorem get_batchFor (hne : other ≠ name) :
    (src.batchFor refuses name).1.mergedCache.get other = src.mergedCache.get other := by
  rw [batchFor]
  cases hfind : src.data.find name with
  | none => rfl
  | some entry =>
    have hentry := (Dataset.mem_of_find hfind).2
    dsimp only
    rw [getOrBuildMerged]
    cases src.mergedCache.get entry.name with
    | some batch => rfl
    | none =>
      dsimp only
      cases entry.buildMerged refuses with
      | error e => rfl
      | ok merged =>
        dsimp only
        rw [MergedCache.get, MergedCache.get, List.find?_cons_of_neg]
        exact fun heq => hne ((of_decide_eq_true heq).symm.trans hentry)

/-- What is read of a component does not depend on what has been read of another. -/
theorem read_batchFor (hne : other ≠ name) :
    ((src.batchFor refuses name).1.batchFor refuses other).2 = (src.batchFor refuses other).2 := by
  rw [batchFor.eq_def refuses _ other, batchFor.eq_def refuses src other, data_batchFor]
  cases hfind : src.data.find other with
  | none => rfl
  | some entry =>
    have hentry := (Dataset.mem_of_find hfind).2
    dsimp only
    rw [getOrBuildMerged, getOrBuildMerged, hentry, get_batchFor hne]
    cases src.mergedCache.get other with
    | some batch => rfl
    | none =>
      dsimp only
      cases entry.buildMerged refuses <;> rfl

end CachedDataset

/-! ## Appending to the destination -/

namespace Registered
variable {entry : Registered}

theorem rows_merged_dropSentinel : entry.dropSentinel.merged.rows = entry.merged.rows := by
  rw [rows_merged, rows_merged, dropSentinel]
  split
  · rename_i chunk hchunks
    split_ifs with hempty
    · rw [hchunks, List.flatMap_singleton, List.flatMap_nil]
      exact (List.length_eq_zero_iff.mp hempty).symm
    · rfl
  · rfl

theorem rows_merged_pushed (batch : RecordBatch) :
    (CachedDataset.pushed entry batch).merged.rows = entry.merged.rows ++ batch.rows := by
  rw [rows_merged, rows_merged, CachedDataset.pushed, List.flatMap_append, List.flatMap_singleton]

end Registered

namespace Dataset
variable {data data' : Dataset R} {name : String}

/-- The rows of a component, deleted ones too. -/
def rowsOf (data : Dataset R) (name : String) : Option (List (List Cell)) :=
  (data.batchFor name).map RecordBatch.rows

/-- Rows that have been appended to a component, alive where there was no row yet. -/
structure Appended (data : Dataset R) (name : String) (added : List (List Cell)) (data' : Dataset R) : Prop where
  others : ∀ other, other ≠ name → data'.find other = data.find other
  rows : data'.rowsOf name = (data.rowsOf name).map (· ++ added)
  rowCount : ∀ held ∈ data.rowsOf name, data'.rowCount = max data.rowCount (held.length + added.length)
  alive : data'.alive = data.alive ++ List.replicate (data'.rowCount - data.rowCount) true

theorem alive_extendTo (data : Dataset R) (oldLen n : Nat) :
    (data.extendTo oldLen n).1.alive =
      data.alive ++ List.replicate ((data.extendTo oldLen n).1.rowCount - data.rowCount) true := by
  rw [extendTo]
  dsimp only
  split_ifs
  · rfl
  · rw [Nat.sub_self, List.replicate_zero, List.append_nil]

variable {entry : Registered} {f : Registered → Registered} {added : List (List Cell)}

/-- The entry of a name, rewritten to one with more rows. -/
theorem rowsOf_modify (hfind : data.find name = some entry)
    (hname : ∀ entry, entry.name = name → (f entry).name = name)
    (hrows : (f entry).merged.rows = entry.merged.rows ++ added) :
    (data.modify name f).rowsOf name = some (entry.merged.rows ++ added) := by
  rw [rowsOf, batchFor, find_modify_of hname, if_pos rfl, hfind]
  exact congrArg some hrows

/-- Rewriting the entry of a name to one with more rows, and counting these. -/
theorem appended_extendTo (hfind : data.find name = some entry)
    (hname : ∀ entry, entry.name = name → (f entry).name = name)
    (hrows : (f entry).merged.rows = entry.merged.rows ++ added) :
    Appended data name added ((data.modify name f).extendTo entry.numRows added.length).1 := by
  have hheld : data.rowsOf name = some entry.merged.rows := by
    rw [rowsOf, batchFor, hfind]
    rfl
  refine ⟨fun other hne => ?_, ?_, fun held hmem => ?_, alive_extendTo (data.modify name f) _ _⟩
  · rw [find, components_extendTo, ← find, find_modify_of hname, if_neg hne]
  · rw [hheld, rowsOf, batchFor, find, components_extendTo]
    exact rowsOf_modify hfind hname hrows
  · obtain rfl := Option.some.inj (hheld.symm.trans hmem)
    rw [rowCount_extendTo, ← Registered.numRows_merged]
    rfl

end Dataset

/-- What a step of the loop does, for each receipt. -/
inductive Receives (refuses : Schema → List RecordBatch → Option String) (src dst : CachedDataset R)
    (name : String) : Receipt → Prop
  | absent : (src.batchFor refuses name).2 = .ok none → Receives refuses src dst name .skipped
  | empty {batch : RecordBatch} {range : UInt32 × UInt32} : (src.batchFor refuses name).2 = .ok (some batch) →
    batch.numRows = 0 → dst.appendRecordBatch refuses name batch = (dst, .ok range) →
    Receives refuses src dst name .skipped
  | unread {e : SaciError} : (src.batchFor refuses name).2 = .error e → Receives refuses src dst name .refused
  | mismatch {batch : RecordBatch} {e : SaciError} : (src.batchFor refuses name).2 = .ok (some batch) →
    dst.appendRecordBatch refuses name batch = (dst, .error e) → Receives refuses src dst name .refused
  | broken {batch : RecordBatch} {after : CachedDataset R} {e : SaciError} {held : List (List Cell)} :
    (src.batchFor refuses name).2 = .ok (some batch) → batch.numRows ≠ 0 →
    dst.appendRecordBatch refuses name batch = (after, .error e) → dst.data.rowsOf name = some held →
    after.data.rowsOf name = some (held ++ batch.rows) → Receives refuses src dst name .broken
  | appended {batch : RecordBatch} {after : CachedDataset R} {range : UInt32 × UInt32}
      {held : List (List Cell)} :
    (src.batchFor refuses name).2 = .ok (some batch) → batch.numRows ≠ 0 →
    dst.appendRecordBatch refuses name batch = (after, .ok range) → dst.data.rowsOf name = some held →
    Dataset.Appended dst.data name batch.rows after.data → Receives refuses src dst name (.appended batch)

theorem receives_receipt (src dst : CachedDataset R) (name : String) :
    Receives refuses src dst name (receipt refuses src dst name) := by
  rw [receipt]
  rcases hread : (src.batchFor refuses name).2 with e | _ | batch
  · exact .unread hread
  · exact .absent hread
  have happend := CachedDataset.appendRecordBatch.eq_def refuses dst name batch
  cases hfind : dst.data.find name with
  | none =>
    rw [hfind] at happend
    exact .mismatch hread happend
  | some entry =>
    rw [hfind] at happend
    dsimp only at happend ⊢
    by_cases hempty : batch.numRows = 0
    · rw [if_pos hempty] at happend ⊢
      exact .empty hread hempty happend
    rw [if_neg hempty] at happend ⊢
    by_cases hfields : batch.schema.fields ≠ entry.schema.fields
    · rw [if_pos hfields] at happend ⊢
      exact .mismatch hread happend
    rw [if_neg hfields] at happend ⊢
    have hshape := @Registered.shapeOf_dropSentinel entry
    have hname : entry.dropSentinel.name = name := (congrArg (·.1) hshape).trans (Dataset.mem_of_find hfind).2
    have hheld : dst.data.rowsOf name = some entry.merged.rows := by
      rw [Dataset.rowsOf, Dataset.batchFor, hfind]
      rfl
    have hpushed := @Registered.rows_merged_pushed entry.dropSentinel batch
    rw [Registered.rows_merged_dropSentinel] at hpushed
    rcases @CachedDataset.pushBatch_cases refuses R dst entry.dropSentinel batch batch.numRows with
      ⟨hrefused, e, hpush⟩ | ⟨hmerges, hpush⟩
    · rw [if_pos hrefused]
      refine .broken hread hempty (happend.trans hpush) hheld ?_
      rw [hname]
      exact Dataset.rowsOf_modify hfind (fun _ _ => hname) hpushed
    · rw [if_neg hmerges]
      refine .appended hread hempty (happend.trans hpush) hheld ?_
      have hflushed := @CachedDataset.flushed_pushChunk entry.dropSentinel batch
      rw [hname, Registered.numRows_dropSentinel]
      exact Dataset.appended_extendTo hfind (fun _ _ => hflushed.name.trans hname)
        ((congrArg RecordBatch.rows hflushed.merged_eq).trans hpushed)

/-! ## The loop -/

section
variable (refuses : Schema → List RecordBatch → Option String)

/-- The rows of a component are appended, where there are any. -/
def Passes (src dst : CachedDataset R) (name : String) : Prop :=
  receipt refuses src dst name = .skipped ∨ ∃ batch, receipt refuses src dst name = .appended batch

/-- The rows that a component of the destination is given. -/
def sent (src dst : CachedDataset R) (name : String) : List (List Cell) :=
  match receipt refuses src dst name with
  | .appended batch => batch.rows
  | _ => []

/-- What the loop leaves behind it. -/
structure Received (src dst : CachedDataset R) (names : List String) (src' dst' : CachedDataset R) : Prop where
  reads : ∀ name ∉ names, (src'.batchFor refuses name).2 = (src.batchFor refuses name).2
  others : ∀ name ∉ names, dst'.data.find name = dst.data.find name
  rows : ∀ name ∈ names, dst'.data.rowsOf name = (dst.data.rowsOf name).map (· ++ sent refuses src dst name)
  le : dst.data.rowCount ≤ dst'.data.rowCount
  alive : dst'.data.alive = dst.data.alive ++
    List.replicate (dst'.data.rowCount - dst.data.rowCount) true
  bound : (∀ name, ∀ held ∈ dst.data.rowsOf name, held.length ≤ dst.data.rowCount) →
    ∀ name, ∀ held ∈ dst'.data.rowsOf name, held.length ≤ dst'.data.rowCount
  idle : (∀ name ∈ names, receipt refuses src dst name = .skipped) → dst' = dst

end

variable {src dst src' dst' : CachedDataset R} {name : String} {names : List String}

theorem receipt_congr (hread : (src'.batchFor refuses name).2 = (src.batchFor refuses name).2)
    (hfind : dst'.data.find name = dst.data.find name) :
    receipt refuses src' dst' name = receipt refuses src dst name := by
  rw [receipt, receipt, hread, hfind]

theorem rowsOf_congr {data data' : Dataset R} (h : data'.find name = data.find name) :
    data'.rowsOf name = data.rowsOf name := by
  rw [Dataset.rowsOf, Dataset.rowsOf, Dataset.batchFor, Dataset.batchFor, h]

theorem Received.nil (src dst : CachedDataset R) : Received refuses src dst [] src dst where
  reads _ _ := rfl
  others _ _ := rfl
  rows _ := nofun
  le := le_refl _
  alive := by rw [Nat.sub_self, List.replicate_zero, List.append_nil]
  bound := id
  idle _ := rfl

/-- The receipts of the other names, after one of them. -/
theorem receipt_step {name' : String} (hne : name' ≠ name)
    (hothers : ∀ other, other ≠ name → dst'.data.find other = dst.data.find other) :
    receipt refuses (src.batchFor refuses name).1 dst' name' = receipt refuses src dst name' :=
  receipt_congr (CachedDataset.read_batchFor hne) (hothers name' hne)

/-- One name that has nothing to append, and the rest of them. -/
theorem Received.cons_skipped (hnot : name ∉ names) (hskipped : receipt refuses src dst name = .skipped)
    (h : Received refuses (src.batchFor refuses name).1 dst names src' dst') :
    Received refuses src dst (name :: names) src' dst' := by
  have hreceipt {name' : String} (hin : name' ∈ names) :
      receipt refuses (src.batchFor refuses name).1 dst name' = receipt refuses src dst name' :=
    receipt_step (fun heq => hnot (heq ▸ hin)) fun _ _ => rfl
  refine ⟨fun other hother => ?_, fun other hother => ?_, fun other hother => ?_, h.le, h.alive, h.bound,
    fun hall => ?_⟩
  · obtain ⟨hne, hother⟩ := not_or.mp (mt List.mem_cons.mpr hother)
    exact (h.reads other hother).trans (CachedDataset.read_batchFor hne)
  · exact h.others other (not_or.mp (mt List.mem_cons.mpr hother)).2
  · rcases List.mem_cons.mp hother with rfl | hin
    · rw [rowsOf_congr (h.others other hnot), sent, hskipped]
      exact (by simp)
    · rw [h.rows other hin, sent, sent, hreceipt hin]
  · exact h.idle fun other hin => (hreceipt hin).trans (hall other (List.mem_cons_of_mem _ hin))

/-- One name whose rows are appended, and the rest of them. -/
theorem Received.cons_appended {dst₁ : CachedDataset R} {batch : RecordBatch} {held : List (List Cell)}
    (hnot : name ∉ names) (hreceipt : receipt refuses src dst name = .appended batch)
    (hheld : dst.data.rowsOf name = some held) (happended : Dataset.Appended dst.data name batch.rows dst₁.data)
    (h : Received refuses (src.batchFor refuses name).1 dst₁ names src' dst') :
    Received refuses src dst (name :: names) src' dst' := by
  have hrest {name' : String} (hin : name' ∈ names) :
      receipt refuses (src.batchFor refuses name).1 dst₁ name' = receipt refuses src dst name' :=
    receipt_step (fun heq => hnot (heq ▸ hin)) happended.others
  have hcount := happended.rowCount held hheld
  have hle : dst.data.rowCount ≤ dst₁.data.rowCount := hcount ▸ le_max_left _ _
  have hle' := h.le
  refine ⟨fun other hother => ?_, fun other hother => ?_, fun other hother => ?_, hle.trans hle', ?_,
    fun hbound => h.bound fun other rows hrows => ?_, fun hall => ?_⟩
  · obtain ⟨hne, hother⟩ := not_or.mp (mt List.mem_cons.mpr hother)
    exact (h.reads other hother).trans (CachedDataset.read_batchFor hne)
  · obtain ⟨hne, hother⟩ := not_or.mp (mt List.mem_cons.mpr hother)
    exact (h.others other hother).trans (happended.others other hne)
  · rcases List.mem_cons.mp hother with rfl | hin
    · rw [rowsOf_congr (h.others other hnot), happended.rows, sent, hreceipt]
    · have hne : other ≠ name := fun heq => hnot (heq ▸ hin)
      rw [h.rows other hin, sent, sent, hrest hin, rowsOf_congr (happended.others other hne)]
  · rw [h.alive, happended.alive, List.append_assoc, List.replicate_append_replicate]
    congr 2
    omega
  · by_cases heq : other = name
    · subst heq
      rw [happended.rows, hheld] at hrows
      rw [hcount, ← Option.some.inj hrows, List.length_append]
      exact le_max_right _ _
    · rw [rowsOf_congr (happended.others other heq)] at hrows
      exact (hbound other rows hrows).trans hle
  · rw [hall name List.mem_cons_self] at hreceipt
    cases hreceipt

/-- A step of the loop, from what is read of the component. -/
theorem forwardNames_cons (name : String) (names : List String) (src dst : CachedDataset R) (appended : Nat) :
    CachedDataset.forwardNames refuses (name :: names) src dst appended =
      match (src.batchFor refuses name).2 with
      | .error e => ((src.batchFor refuses name).1, dst, .error e)
      | .ok none => CachedDataset.forwardNames refuses names (src.batchFor refuses name).1 dst appended
      | .ok (some batch) =>
        match dst.appendRecordBatch refuses name batch with
        | (after, .error e) => ((src.batchFor refuses name).1, after, .error e)
        | (after, .ok _) =>
          CachedDataset.forwardNames refuses names (src.batchFor refuses name).1 after
            (appended + batch.numRows) := by
  rw [CachedDataset.forwardNames]
  rcases src.batchFor refuses name with ⟨read, _ | _ | _⟩ <;> rfl

/-- Names that are passed, at the front of others. -/
theorem forwardNames_append (hnodup : names.Nodup) (hall : ∀ name ∈ names, Passes refuses src dst name)
    (appended : Nat) : ∃ src' dst' appended', Received refuses src dst names src' dst' ∧
      ∀ rest, CachedDataset.forwardNames refuses (names ++ rest) src dst appended =
        CachedDataset.forwardNames refuses rest src' dst' appended' := by
  induction names generalizing src dst appended with
  | nil => exact ⟨src, dst, appended, .nil src dst, fun _ => rfl⟩
  | cons name names ih =>
    obtain ⟨hnot, hnodup⟩ := List.nodup_cons.mp hnodup
    obtain ⟨hpass, hall⟩ := List.forall_mem_cons.mp hall
    -- the other names have the receipts they had
    have hlater {dst₁ : CachedDataset R}
        (hothers : ∀ other, other ≠ name → dst₁.data.find other = dst.data.find other) :
        ∀ other ∈ names, Passes refuses (src.batchFor refuses name).1 dst₁ other := fun other hin => by
      have hne : other ≠ name := fun heq => hnot (heq ▸ hin)
      rw [Passes, receipt_step hne hothers]
      exact hall other hin
    have hreceives := @receives_receipt R refuses src dst name
    generalize hreceipt : receipt refuses src dst name = outcome at hreceives
    rw [Passes, hreceipt] at hpass
    cases hreceives with
    | absent hread =>
      obtain ⟨src', dst', appended', hreceived, hrest⟩ := ih hnodup (hlater fun _ _ => rfl) appended
      refine ⟨src', dst', appended', hreceived.cons_skipped hnot hreceipt, fun rest => ?_⟩
      rw [List.cons_append, forwardNames_cons, hread]
      exact hrest rest
    | @empty batch range hread hzero happend =>
      obtain ⟨src', dst', appended', hreceived, hrest⟩ :=
        ih hnodup (hlater fun _ _ => rfl) (appended + batch.numRows)
      refine ⟨src', dst', appended', hreceived.cons_skipped hnot hreceipt, fun rest => ?_⟩
      rw [List.cons_append, forwardNames_cons, hread]
      dsimp only
      rw [happend]
      exact hrest rest
    | @appended batch after range held hread _ happend hheld happended =>
      obtain ⟨src', dst', appended', hreceived, hrest⟩ :=
        ih hnodup (hlater happended.others) (appended + batch.numRows)
      refine ⟨src', dst', appended', hreceived.cons_appended hnot hreceipt hheld happended, fun rest => ?_⟩
      rw [List.cons_append, forwardNames_cons, hread]
      dsimp only
      rw [happend]
      exact hrest rest
    | unread | mismatch | broken =>
      rcases hpass with hpass | ⟨_, hpass⟩
      all_goals cases hpass

/-- All of the names are passed, or there is a first one that is not. -/
theorem passes_or_first (refuses : Schema → List RecordBatch → Option String) (src dst : CachedDataset R)
    (names : List String) : (∀ name ∈ names, Passes refuses src dst name) ∨
      ∃ before name rest, names = before ++ name :: rest ∧ (∀ other ∈ before, Passes refuses src dst other) ∧
        ¬ Passes refuses src dst name := by
  induction names with
  | nil => exact .inl nofun
  | cons name names ih =>
    by_cases hpass : Passes refuses src dst name
    · rcases ih with hall | ⟨before, failed, rest, rfl, hbefore, hfailed⟩
      · exact .inl (List.forall_mem_cons.mpr ⟨hpass, hall⟩)
      · exact .inr ⟨name :: before, failed, rest, rfl, List.forall_mem_cons.mpr ⟨hpass, hbefore⟩, hfailed⟩
    · exact .inr ⟨[], name, names, rfl, nofun, hpass⟩

/-! ## Forwarding -/

section
variable (refuses : Schema → List RecordBatch → Option String)

/-- The live rows that are read of a component. -/
def liveOf (src : CachedDataset R) (name : String) : List (List Cell) :=
  match (src.batchFor refuses name).2 with
  | .ok (some batch) => RecordBatch.liveRows src.data.alive batch.rows
  | _ => []

/-- A forward that appends the live rows of the source to each component, alive, and leaves the rows that
were there as they were; or else answers an error and leaves the destination as it was. -/
def Forwards (src dst : CachedDataset R) : Prop :=
  match src.forwardInto refuses dst with
  | (_, after, .ok _) =>
    (∀ name, after.data.rowsOf name = (dst.data.rowsOf name).map (· ++ liveOf refuses src name)) ∧
      (∀ name, ∀ held ∈ dst.data.rowsOf name, ∀ rows ∈ after.data.rowsOf name, ∀ i, held.length ≤ i →
        i < rows.length → after.data.isAlive i = true) ∧
      ∀ i < dst.data.rowCount, after.data.isAlive i = dst.data.isAlive i
  | (_, after, .error _) =>
    (∀ name, after.data.rowsOf name = dst.data.rowsOf name) ∧
      after.data.rowCount = dst.data.rowCount ∧ after.data.alive = dst.data.alive

/-- No row is dead that is sent, and none that is of a row of the destination is dead there. -/
structure Faithful (src dst : CachedDataset R) (name : String) (batch : RecordBatch) : Prop where
  source : ∀ i < batch.numRows, src.data.isAlive i = true
  destination : ∀ held ∈ dst.data.rowsOf name, ∀ i, held.length ≤ i → i < held.length + batch.numRows →
    i < dst.data.rowCount → dst.data.isAlive i = true

/-- Every component that is not skipped is faithful, or the first of them is refused. -/
def ForwardsWhen (src dst : CachedDataset R) : Prop :=
  (∀ name ∈ dst.data.components.map Registered.name, receipt refuses src dst name = .skipped ∨
    ∃ batch, receipt refuses src dst name = .appended batch ∧ Faithful src dst name batch) ∨
  ∃ before name rest, dst.data.components.map Registered.name = before ++ name :: rest ∧
    (∀ other ∈ before, receipt refuses src dst other = .skipped) ∧ receipt refuses src dst name = .refused

end

theorem faithful_iff {batch : RecordBatch} : (∀ i < batch.numRows, src.data.isAlive i = true) ↔
    RecordBatch.liveRows src.data.alive batch.rows = batch.rows :=
  RecordBatch.liveRows_eq_self_iff.symm

/-- The live rows of a component that is passed are those that it sends, where they are all alive. -/
theorem sent_eq_liveOf_iff (hpass : Passes refuses src dst name) :
    sent refuses src dst name = liveOf refuses src name ↔
      ∀ batch, receipt refuses src dst name = .appended batch → ∀ i < batch.numRows, src.data.isAlive i = true := by
  have hreceives := @receives_receipt R refuses src dst name
  rw [sent, liveOf]
  generalize hreceipt : receipt refuses src dst name = outcome at hreceives
  rw [Passes, hreceipt] at hpass
  cases hreceives with
  | absent hread =>
    rw [hread]
    exact iff_of_true rfl nofun
  | @empty batch _ hread hzero _ =>
    rw [hread]
    dsimp only
    rw [List.length_eq_zero_iff.mp hzero]
    exact iff_of_true rfl nofun
  | @appended batch _ _ _ hread =>
    rw [hread]
    dsimp only
    constructor
    · rintro heq batch' h
      cases h
      exact faithful_iff.mpr heq.symm
    · exact fun hall => (faithful_iff.mp (hall batch rfl)).symm
  | unread | mismatch | broken =>
    rcases hpass with hpass | ⟨_, hpass⟩
    all_goals cases hpass

theorem appended_of_receipt {batch : RecordBatch} (h : receipt refuses src dst name = .appended batch) :
    sent refuses src dst name = batch.rows ∧ batch.numRows ≠ 0 ∧ ∃ held, dst.data.rowsOf name = some held := by
  have hreceives := @receives_receipt R refuses src dst name
  rw [h] at hreceives
  cases hreceives with
  | appended _ hrows _ hheld _ => exact ⟨by rw [sent, h], hrows, _, hheld⟩

/-- The rows of an aligned dataset are within its row count. -/
theorem length_rowsOf_le {data : Dataset R} (h : data.Aligned) {held : List (List Cell)}
    (hheld : held ∈ data.rowsOf name) : held.length ≤ data.rowCount := by
  rw [Dataset.rowsOf, Dataset.batchFor, Option.map_map, Option.mem_def, Option.map_eq_some_iff] at hheld
  obtain ⟨entry, hfind, rfl⟩ := hheld
  have hle := h.rows entry (Dataset.mem_of_find hfind).1
  rwa [← Registered.numRows_merged] at hle

/-- A name that is not registered has no rows. -/
theorem rowsOf_eq_none {data : Dataset R} (h : name ∉ data.components.map Registered.name) :
    data.rowsOf name = none := by
  have hnone : data.find name = none := List.find?_eq_none.mpr fun entry hentry heq =>
    h (List.mem_map.mpr ⟨entry, hentry, of_decide_eq_true heq⟩)
  rw [Dataset.rowsOf, Dataset.batchFor, hnone]
  rfl

/-- The bits of the destination after the loop: those that it had, and set ones. -/
theorem Received.isAlive (h : Received refuses src dst names src' dst') (hds : dst.data.Aligned) {i : Nat}
    (hi : i < dst'.data.rowCount) :
    dst'.data.isAlive i = if i < dst.data.rowCount then dst.data.isAlive i else true := by
  rw [Dataset.isAlive, Dataset.isAlive, h.alive, List.getD_eq_getElem?_getD, List.getD_eq_getElem?_getD]
  have hbits := hds.bits
  split_ifs with hlt
  · rw [List.getElem?_append_left (hbits ▸ hlt)]
  · rw [List.getElem?_append_right (by omega), List.getElem?_replicate, if_pos (by omega), Option.getD_some]

/-- A forward that has come to its end is exact where all that was sent is faithful. -/
theorem Received.exact_iff (h : Received refuses src dst (dst.data.components.map Registered.name) src' dst')
    (hds : dst.data.Aligned)
    (hall : ∀ name ∈ dst.data.components.map Registered.name, Passes refuses src dst name) :
    ((∀ name, dst'.data.rowsOf name = (dst.data.rowsOf name).map (· ++ liveOf refuses src name)) ∧
      (∀ name, ∀ held ∈ dst.data.rowsOf name, ∀ rows ∈ dst'.data.rowsOf name, ∀ i, held.length ≤ i →
        i < rows.length → dst'.data.isAlive i = true) ∧
      ∀ i < dst.data.rowCount, dst'.data.isAlive i = dst.data.isAlive i) ↔
    ∀ name ∈ dst.data.components.map Registered.name, receipt refuses src dst name = .skipped ∨
      ∃ batch, receipt refuses src dst name = .appended batch ∧ Faithful src dst name batch := by
  have hkept {i : Nat} (hi : i < dst.data.rowCount) : dst'.data.isAlive i = dst.data.isAlive i := by
    rw [h.isAlive hds (hi.trans_le h.le), if_pos hi]
  constructor
  · rintro ⟨hrows, halive, -⟩ name hin
    refine (hall name hin).imp_right fun ⟨batch, hreceipt⟩ => ⟨batch, hreceipt, ?_⟩
    obtain ⟨hsent, -, held, hheld⟩ := appended_of_receipt hreceipt
    have hsame := (h.rows name hin).symm.trans (hrows name)
    rw [hheld, Option.map_some, Option.map_some, Option.some.injEq, List.append_cancel_left_eq] at hsame
    refine ⟨(sent_eq_liveOf_iff (hall name hin)).mp hsame batch hreceipt, fun held' hheld' i hle hlt hi => ?_⟩
    obtain rfl := Option.some.inj (hheld.symm.trans hheld')
    rw [← hkept hi]
    refine halive name held hheld (held ++ batch.rows) ?_ i hle (by rwa [List.length_append])
    rw [h.rows name hin, hheld, hsent]
    rfl
  · intro hfaithful
    refine ⟨fun name => ?_, fun name held hheld rows hrows i hle hlt => ?_, fun i => hkept⟩
    · by_cases hin : name ∈ dst.data.components.map Registered.name
      · rw [h.rows name hin, (sent_eq_liveOf_iff (hall name hin)).mpr fun batch hreceipt => ?_]
        rcases hfaithful name hin with hskipped | ⟨batch', hreceipt', hsource⟩
        · cases hskipped.symm.trans hreceipt
        · cases hreceipt'.symm.trans hreceipt
          exact hsource.source
      · rw [rowsOf_congr (h.others name hin), rowsOf_eq_none hin]
        rfl
    · have hin : name ∈ dst.data.components.map Registered.name := by
        by_contra hnot
        rw [rowsOf_eq_none hnot] at hheld
        cases hheld
      have hbound := h.bound (fun _ _ => length_rowsOf_le hds) name rows hrows
      rw [h.rows name hin, hheld, Option.map_some, Option.mem_some] at hrows
      subst hrows
      rw [h.isAlive hds (hlt.trans_le hbound)]
      split_ifs with hi
      · rcases hfaithful name hin with hskipped | ⟨batch, hreceipt, hbatch⟩
        · rw [sent, hskipped, List.append_nil] at hlt
          exact absurd hlt (not_lt.mpr hle)
        · rw [(appended_of_receipt hreceipt).1, List.length_append] at hlt
          exact hbatch.destination held hheld i hle hlt hi
      · rfl

/-- Names that are passed leave the destination as it was exactly if there was nothing to append. -/
theorem Received.unchanged_iff (h : Received refuses src dst names src' dst')
    (hall : ∀ name ∈ names, Passes refuses src dst name) :
    ((∀ name, dst'.data.rowsOf name = dst.data.rowsOf name) ∧
      dst'.data.rowCount = dst.data.rowCount ∧ dst'.data.alive = dst.data.alive) ↔
    ∀ name ∈ names, receipt refuses src dst name = .skipped := by
  constructor
  · rintro ⟨hrows, -⟩ name hin
    refine (hall name hin).resolve_right fun ⟨batch, hreceipt⟩ => ?_
    obtain ⟨hsent, hne, held, hheld⟩ := appended_of_receipt hreceipt
    have hsame := (h.rows name hin).symm.trans (hrows name)
    rw [hheld, Option.map_some, Option.some.injEq, List.append_right_eq_self, hsent] at hsame
    exact hne (List.length_eq_zero_iff.mpr hsame)
  · intro hskipped
    rw [h.idle hskipped]
    exact ⟨fun _ => rfl, rfl, rfl⟩

/-- There is one first name that is not passed. -/
theorem first_unique {before before' rest rest' : List String} {name' : String}
    (hnames : before ++ name :: rest = before' ++ name' :: rest')
    (hbefore : ∀ other ∈ before, Passes refuses src dst other) (hfailed : ¬ Passes refuses src dst name)
    (hbefore' : ∀ other ∈ before', Passes refuses src dst other) (hfailed' : ¬ Passes refuses src dst name') :
    before = before' ∧ name = name' := by
  classical
  have hfirst : ∀ {before name rest}, (∀ other ∈ before, Passes refuses src dst other) →
      ¬ Passes refuses src dst name →
      (before ++ name :: rest).takeWhile (fun other => decide (Passes refuses src dst other)) = before := by
    intro before name rest hbefore hfailed
    rw [List.takeWhile_append_of_pos fun other hin => decide_eq_true (hbefore other hin),
      List.takeWhile_cons, decide_eq_false hfailed]
    exact List.append_nil before
  obtain rfl : before = before' := (hfirst hbefore hfailed).symm.trans
    ((congrArg _ hnames).trans (hfirst hbefore' hfailed'))
  exact ⟨rfl, (List.cons.inj (List.append_cancel_left hnames)).1⟩

/-- **Forwarding**: the live rows arrive, and nothing else changes, or an error changes nothing, exactly where
every component that has rows to append is faithful, or the first of these is refused. -/
theorem forwards_iff (h : dst.data.Aligned) : Forwards refuses src dst ↔ ForwardsWhen refuses src dst := by
  rw [Forwards, CachedDataset.forwardInto, ForwardsWhen]
  rcases passes_or_first refuses src dst (dst.data.components.map Registered.name) with
    hall | ⟨before, name, rest, hnames, hbefore, hfailed⟩
  · obtain ⟨src', dst', appended, hreceived, hrest⟩ := forwardNames_append h.names hall 0
    have hdone := hrest []
    rw [List.append_nil, CachedDataset.forwardNames] at hdone
    rw [hdone]
    dsimp only
    rw [hreceived.exact_iff h hall]
    refine ⟨.inl, fun hwhen => hwhen.resolve_right ?_⟩
    rintro ⟨before, name, rest, hnames, -, hrefused⟩
    rcases hall name (hnames ▸ List.mem_append_right _ List.mem_cons_self) with hskipped | ⟨batch, happended⟩
    · cases hrefused.symm.trans hskipped
    · cases hrefused.symm.trans happended
  · have hnodup := h.names
    rw [hnames] at hnodup
    have hnot : name ∉ before := fun hin => List.disjoint_of_nodup_append hnodup hin List.mem_cons_self
    obtain ⟨src', dst', appended, hreceived, hrest⟩ :=
      forwardNames_append (List.Nodup.of_append_left hnodup) hbefore 0
    have hreceives := @receives_receipt R refuses src' dst' name
    rw [receipt_congr (hreceived.reads name hnot) (hreceived.others name hnot)] at hreceives
    rw [hnames, hrest, forwardNames_cons]
    -- the condition, where the first name that is not passed is known
    have hwhen : ((∀ name' ∈ before ++ name :: rest, receipt refuses src dst name' = .skipped ∨
          ∃ batch, receipt refuses src dst name' = .appended batch ∧ Faithful src dst name' batch) ∨
        ∃ before' name' rest', before ++ name :: rest = before' ++ name' :: rest' ∧
          (∀ other ∈ before', receipt refuses src dst other = .skipped) ∧
            receipt refuses src dst name' = .refused) ↔
        (∀ other ∈ before, receipt refuses src dst other = .skipped) ∧
          receipt refuses src dst name = .refused := by
      constructor
      · rintro (hfaithful | ⟨before', name', rest', heq, hskipped, hrefused⟩)
        · refine absurd ?_ hfailed
          exact (hfaithful name (List.mem_append_right _ List.mem_cons_self)).imp_right
            fun ⟨batch, hbatch, _⟩ => ⟨batch, hbatch⟩
        · have hfailed' : ¬ Passes refuses src dst name' := by
            rintro (hskipped | ⟨batch, happended⟩)
            · cases hrefused.symm.trans hskipped
            · cases hrefused.symm.trans happended
          obtain ⟨rfl, rfl⟩ := first_unique heq hbefore hfailed (fun other hin => .inl (hskipped other hin)) hfailed'
          exact ⟨hskipped, hrefused⟩
      · exact fun ⟨hskipped, hrefused⟩ => .inr ⟨before, name, rest, rfl, hskipped, hrefused⟩
    rw [hwhen]
    generalize hreceipt : receipt refuses src dst name = outcome at hreceives hfailed ⊢
    cases hreceives with
    | unread hread =>
      rw [hread]
      exact (hreceived.unchanged_iff hbefore).trans (and_iff_left rfl).symm
    | mismatch hread happend =>
      rw [hread]
      dsimp only
      rw [happend]
      exact (hreceived.unchanged_iff hbefore).trans (and_iff_left rfl).symm
    | @broken batch after e held hread hne happend hheld hafter =>
      rw [hread]
      dsimp only
      rw [happend]
      refine iff_of_false (fun hkept => hne ?_) fun hrefused => nomatch hrefused.2
      have hsame := hafter.symm.trans (hkept.1 name)
      rw [← rowsOf_congr (hreceived.others name hnot), hheld, Option.some.injEq, List.append_right_eq_self] at hsame
      exact List.length_eq_zero_iff.mpr hsame
    | absent | empty => exact absurd (.inl hreceipt) hfailed
    | appended => exact absurd (.inr ⟨_, hreceipt⟩) hfailed

namespace CompactionSample

/-- A destination that declares the orders and has none. -/
def inbox : CachedDataset Unit where
  data := ⟨[⟨"Order", 1, ids, [.newEmpty ids], none⟩], 0, [], 0, 0, ()⟩
  mergedCache := []

/-- Orders none of which is dead. -/
def allAlive : CachedDataset Unit where
  data := ⟨[⟨"Order", 1, ids, [⟨ids, [[.int 1], [.int 2]]⟩], none⟩], 2, [true, true], 2, 0, ()⟩
  mergedCache := []

theorem aligned_inbox : inbox.data.Aligned :=
  ⟨rfl, rfl, rfl, List.nodup_singleton _, fun _ hentry => List.mem_singleton.mp hentry ▸ le_refl 0⟩

/-- The first order is dead in the source, and arrives alive. -/
theorem dead_order_arrives : inbox.data.Aligned ∧ ¬ Forwards merging (orders []) inbox := by
  refine ⟨aligned_inbox, fun h => ?_⟩
  have hcount : ((orders []).forwardInto merging inbox).2.2.toOption = some 2 := by decide +kernel
  have hrows : ((orders []).forwardInto merging inbox).2.1.data.rowsOf "Order" = some [[.int 1], [.int 2]] := by
    decide +kernel
  rw [Forwards] at h
  rcases hleft : (orders []).forwardInto merging inbox with ⟨src, after, e | n⟩
  · rw [hleft] at hcount
    cases hcount
  · rw [hleft] at h hrows
    have hlive := hrows.symm.trans (h.1 "Order")
    exact absurd hlive (by decide +kernel)

theorem orders_arrive : Forwards merging allAlive inbox := by
  refine (forwards_iff aligned_inbox).mpr (.inl fun name hin => .inr ⟨⟨ids, [[.int 1], [.int 2]]⟩, ?_, ?_⟩)
  · rw [List.mem_singleton.mp hin]
    decide +kernel
  · exact ⟨by decide, fun _ _ i _ _ hi => absurd hi (Nat.not_lt_zero i)⟩

end CompactionSample
end Saci
