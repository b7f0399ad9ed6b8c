import Saci.Consensus.Handlers.Claim
import Saci.Consensus.Queries

/-! # The secondary index

The meaning of `arrow_claims_by_batch` over decoded spans. `EncodedIndex` says that every row was
written by the two encoders; under it the scans of the handlers and queries never meet a malformed
value, and each of them answers a statement about the spans of one batch. -/

namespace Saci

/-- The span the index holds for a claim under a batch. -/
def indexSpan (table : Table Bytes Bytes) (b : UInt64) (c : Uuid) :
    Option (UInt32 × UInt32 × ClaimStatus) :=
  (table.get (claimsByBatchKey b c)).bind decodeClaimsByBatchValue

/-- Every row of the index was written by the two encoders. -/
def EncodedIndex (table : Table Bytes Bytes) : Prop :=
  ∀ k v, table.get k = some v → ∃ b c s e st, k = claimsByBatchKey b c ∧ v = claimsByBatchValue s e st

theorem indexSpan_insert (table : Table Bytes Bytes) (b b' : UInt64) (c c' : Uuid)
    (s e : UInt32) (st : ClaimStatus) :
    indexSpan (table.insert (claimsByBatchKey b c) (claimsByBatchValue s e st)) b' c' =
      if b' = b ∧ c' = c then some (s, e, st) else indexSpan table b' c' := by
  rw [indexSpan, Table.get_insert]
  by_cases h : b' = b ∧ c' = c
  · rw [if_pos h, if_pos (claimsByBatchKey_inj.mpr h)]
    exact decodeClaimsByBatchValue_claimsByBatchValue ..
  · rw [if_neg h, if_neg (mt claimsByBatchKey_inj.mp h), indexSpan]

theorem EncodedIndex.insert (H : EncodedIndex table) (b : UInt64) (c : Uuid) (s e : UInt32)
    (st : ClaimStatus) :
    EncodedIndex (table.insert (claimsByBatchKey b c) (claimsByBatchValue s e st)) := by
  intro k v hget
  rw [Table.get_insert] at hget
  split_ifs at hget with hk
  · cases hget
    exact ⟨b, c, s, e, st, hk, rfl⟩
  · exact H k v hget

theorem EncodedIndex.insertAll {l : List α} {batch : α → UInt64} {claim : α → Uuid}
    {start stop : α → UInt32} {status : α → ClaimStatus} (H : EncodedIndex table) :
    EncodedIndex (table.insertAll (fun a => claimsByBatchKey (batch a) (claim a))
      (fun a => claimsByBatchValue (start a) (stop a) (status a)) l) := by
  induction l generalizing table with
  | nil => exact H
  | cons a l ih => exact ih (H.insert (batch a) (claim a) (start a) (stop a) (status a))

/-- An index key names its claim, so rows of distinct claims are filed under distinct keys. -/
theorem claimsByBatchKey_nodup {l : List (Uuid × ClaimRecord)}
    (h : (l.map fun row => row.1).Nodup) :
    (l.map fun row => claimsByBatchKey row.2.batchId row.1).Nodup := by
  refine List.Nodup.of_map (fun key => key.drop 8) ?_
  have hdrop : ∀ row : Uuid × ClaimRecord,
      (claimsByBatchKey row.2.batchId row.1).drop 8 = row.1.asBytes := by
    intro row
    rw [claimsByBatchKey, List.drop_left' (by simp)]
  simpa [List.map_map, Function.comp_def, hdrop] using h.map Uuid.asBytes_injective

/-- What a batch scan sees are the batch's spans. -/
theorem EncodedIndex.mem_batchEntries_iff (H : EncodedIndex table) {kv : Bytes × Bytes} :
    kv ∈ batchEntries table b ↔ ∃ c s e st, indexSpan table b c = some (s, e, st) ∧
      kv = (claimsByBatchKey b c, claimsByBatchValue s e st) := by
  obtain ⟨k, v⟩ := kv
  constructor
  · intro hmem
    have hget : table.get k = some v := by
      unfold batchEntries at hmem
      split at hmem
      · exact (Table.mem_range.mp hmem).1
      · exact (Table.mem_rangeFrom.mp hmem).1
    obtain ⟨b', c, s, e, st, rfl, rfl⟩ := H k v hget
    obtain ⟨_, rfl⟩ := mem_batchEntries.mp hmem
    exact ⟨c, s, e, st, by simp [indexSpan, hget], rfl⟩
  · intro ⟨c, s, e, st, hspan, heq⟩
    cases heq
    obtain ⟨v, hget, hdec⟩ := Option.bind_eq_some_iff.mp hspan
    obtain ⟨_, _, s', e', st', _, rfl⟩ := H _ v hget
    rw [decodeClaimsByBatchValue_claimsByBatchValue] at hdec
    cases hdec
    exact mem_batchEntries.mpr ⟨hget, rfl⟩

/-- The values of a batch scan decode to the spans. -/
def Decodes : List (Bytes × Bytes) → List (UInt32 × UInt32 × ClaimStatus) → Prop :=
  List.Forall₂ fun kv span => decodeClaimsByBatchValue kv.2 = some span

theorem exists_decodes {entries : List (Bytes × Bytes)}
    (h : ∀ kv ∈ entries, ∃ span, decodeClaimsByBatchValue kv.2 = some span) :
    ∃ spans, Decodes entries spans ∧
      ∀ span, span ∈ spans ↔ ∃ kv ∈ entries, decodeClaimsByBatchValue kv.2 = some span := by
  induction entries with
  | nil => exact ⟨[], .nil, by simp⟩
  | cons kv entries ih =>
    obtain ⟨span, hspan⟩ := h kv List.mem_cons_self
    obtain ⟨spans, hdec, hmem⟩ := ih fun kv hkv => h kv (List.mem_cons_of_mem _ hkv)
    exact ⟨span :: spans, .cons hspan hdec, by simp [hmem, hspan, eq_comm]⟩

theorem EncodedIndex.decodes (H : EncodedIndex table) (b : UInt64) :
    ∃ spans, Decodes (batchEntries table b) spans ∧
      ∀ span, span ∈ spans ↔ ∃ c, indexSpan table b c = some span := by
  have hentries : ∀ kv ∈ batchEntries table b, ∃ span,
      decodeClaimsByBatchValue kv.2 = some span := by
    intro kv hmem
    obtain ⟨c, s, e, st, _, rfl⟩ := H.mem_batchEntries_iff.mp hmem
    exact ⟨(s, e, st), decodeClaimsByBatchValue_claimsByBatchValue ..⟩
  obtain ⟨spans, hdec, hmem⟩ := exists_decodes hentries
  refine ⟨spans, hdec, fun (s, e, st) => (hmem _).trans ⟨?_, ?_⟩⟩
  · intro ⟨kv, hkv, hspan⟩
    obtain ⟨c, s', e', st', hidx, rfl⟩ := H.mem_batchEntries_iff.mp hkv
    rw [decodeClaimsByBatchValue_claimsByBatchValue] at hspan
    exact ⟨c, hspan ▸ hidx⟩
  · intro ⟨c, hidx⟩
    exact ⟨_, H.mem_batchEntries_iff.mpr ⟨c, s, e, st, hidx, rfl⟩,
      decodeClaimsByBatchValue_claimsByBatchValue ..⟩

theorem overlapLoop_eq (H : Decodes entries spans) (lo hi : UInt32) :
    overlapLoop lo hi entries =
      .ok (spans.any fun (s, e, st) => st.active && (lo < e && s < hi)) := by
  induction H with
  | nil => rfl
  | cons hspan _ ih =>
    rw [overlapLoop, hspan, List.any_cons]
    dsimp only
    split_ifs with htaken
    · rw [htaken]; rfl
    · rw [Bool.not_eq_true] at htaken
      rw [ih, htaken]; rfl

theorem allCompleteLoop_eq (H : Decodes entries spans) :
    allCompleteLoop entries = .ok (spans.all fun (_, _, st) => st = .completed) := by
  induction H with
  | nil => rfl
  | cons hspan _ ih =>
    rw [allCompleteLoop, hspan, List.all_cons]
    dsimp only
    split_ifs with hst
    · rw [decide_eq_false hst]; rfl
    · rw [ih, decide_eq_true (not_not.mp hst)]; rfl

theorem occupiedLoop_eq (H : Decodes entries spans) :
    occupiedLoop entries =
      .ok ((spans.filter fun (_, _, st) => st.active).map fun (s, e, _) => (s, e)) := by
  induction H with
  | nil => rfl
  | @cons kv span entries spans hspan _ ih =>
    obtain ⟨s, e, st⟩ := span
    rw [occupiedLoop, hspan, ih, List.filter_cons]
    cases st <;> rfl

/-- The overlap check, read over spans. -/
theorem EncodedIndex.hasBatchOverlap_eq (H : EncodedIndex table) (b : UInt64) (s e : UInt32) :
    ∃ overlap, hasBatchOverlap table b s e = .ok overlap ∧ (overlap = false ↔
      ∀ c s' e' st, indexSpan table b c = some (s', e', st) → st.active = true →
        e' ≤ s ∨ e ≤ s') := by
  obtain ⟨spans, hdec, hmem⟩ := H.decodes b
  refine ⟨_, overlapLoop_eq hdec s e, ?_⟩
  simp only [List.any_eq_false, Bool.and_eq_true, decide_eq_true_eq, hmem]
  constructor
  · intro hfree c s' e' st hspan hactive
    have hnot := hfree (s', e', st) ⟨c, hspan⟩
    grind
  · intro hfree (s', e', st) ⟨c, hspan⟩ ⟨hactive, hlt, hlt'⟩
    have hor := hfree c s' e' st hspan hactive
    grind

/-- The completeness scan of an ack, read over spans. -/
theorem EncodedIndex.allCompleteLoop_eq (H : EncodedIndex table) (b : UInt64) :
    ∃ complete, allCompleteLoop (batchEntries table b) = .ok complete ∧ (complete = true ↔
      ∀ c s e st, indexSpan table b c = some (s, e, st) → st = .completed) := by
  obtain ⟨spans, hdec, hmem⟩ := H.decodes b
  refine ⟨_, Saci.allCompleteLoop_eq hdec, ?_⟩
  simp only [List.all_eq_true, decide_eq_true_eq, hmem]
  exact ⟨fun h c s e st hspan => h (s, e, st) ⟨c, hspan⟩,
    fun h (s, e, st) ⟨c, hspan⟩ => h c s e st hspan⟩

end Saci
