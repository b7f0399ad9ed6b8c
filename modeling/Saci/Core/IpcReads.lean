import Saci.Core.DatasetSteps
import Mathlib.Data.Bool.Count

/-!
# What is read of the frames

A byte string that `read_ipc` accepts, told by the segments in its frames: a component has the schema and the
version of the first segment that names it and the batch of the last. So the dataset is represented as it
should be exactly when these agree (`represented_readIpc_iff`).
-/

namespace Saci

/-- The segments of a stream. -/
def segmentsOf (arrow : ArrowIpc) (bytes : Bytes) : List Segment :=
  (framesOf bytes).filterMap fun part => (arrow.decode part.2).toOption

/-- The segments that name a component. -/
def naming (segments : List Segment) (name : String) : List Segment :=
  segments.filter fun segment => segment.component = some name

/-- A component that is repeated comes with the fields it came with first. -/
def Uniform (segments : List Segment) : Prop :=
  ∀ name first rest, name ≠ ALIVE_BATCH_NAME → naming segments name = first :: rest →
    (rest.getLastD first).batch.schema = first.batch.schema

/-- What is read of a component. -/
def entryOf (segments : List Segment) (name : String) : Option Registered :=
  if name = ALIVE_BATCH_NAME then none
  else
    match naming segments name with
    | [] => none
    | first :: rest =>
      some ⟨name, first.schemaVersion.getD 1, first.batch.schema, [(rest.getLastD first).batch], none⟩

theorem naming_concat (segments : List Segment) (segment : Segment) (name : String) :
    naming (segments ++ [segment]) name =
      if segment.component = some name then naming segments name ++ [segment] else naming segments name := by
  rw [naming, List.filter_append, List.filter_singleton]
  split_ifs with hname
  · rw [decide_eq_true hname]
    rfl
  · rw [decide_eq_false hname, cond_false, List.append_nil]
    rfl

namespace Dataset
variable {R : Type} {arrow : ArrowIpc}

/-- What a segment does to the dataset so far and to the number of `__alive` batches. -/
def receiveSegment (s : Dataset R × Nat) (segment : Segment) : SaciResult (Dataset R × Nat) :=
  match segment.component with
  | none => .error (.generic "IPC batch missing '__saci_component' metadata key")
  | some name =>
    if name = ALIVE_BATCH_NAME then
      if 0 < s.2 then
        .error <| .generic
          "IPC stream contains more than one '__alive' batch; stream is corrupted"
      else if segment.batch.schema.fields.head?.map Field.dataType ≠ some .boolean then
        .error (.generic "IPC alive column is not BooleanArray")
      else
        let alive := segment.batch.rows.map aliveBit
        let dead := alive.count false
        .ok ({ s.1 with
            rowCount := alive.length
            alive
            liveCount := alive.length - dead
            deadCount := dead },
          s.2 + 1)
    else .ok (s.1.receive name (segment.schemaVersion.getD 1) segment.batch, s.2)

theorem readSegment_eq (s : Dataset R × Nat) (len : Nat) (available : Bytes) :
    readSegment arrow s len available =
      (arrow.decode available >>= fun segment =>
        if available.length < len then
          .error <| .generic <|
            s!"IPC read segment: stream ended {len - available.length} bytes inside a " ++ s!"{len}-byte frame"
        else receiveSegment s segment) := rfl

/-- A frame that is cut off is refused. -/
theorem readSegment_cut (s : Dataset R × Nat) (len : Nat) (part : Bytes) (h : part.length < len) :
    ∃ e, readSegment arrow s len part = .error e := by
  rw [readSegment_eq]
  cases arrow.decode part with
  | error e => exact ⟨e, rfl⟩
  | ok segment => exact ⟨_, if_pos h⟩

/-- Frames that can be read are received as the segments in them. -/
theorem foldlM_receiveSegment {s s' : Dataset R × Nat} {parts : List (Nat × Bytes)}
    (h : parts.foldlM (fun s part => readSegment arrow s part.1 part.2) s = .ok s') :
    (parts.filterMap fun part => (arrow.decode part.2).toOption).foldlM receiveSegment s = .ok s' := by
  induction parts generalizing s with
  | nil => exact h
  | cons part parts ih =>
    rw [List.foldlM_cons] at h
    obtain ⟨s₁, hstep, h⟩ := bind_eq_ok_iff.mp h
    rw [readSegment_eq] at hstep
    obtain ⟨segment, hdecode, hstep⟩ := bind_eq_ok_iff.mp hstep
    split_ifs at hstep
    rw [List.filterMap_cons, hdecode]
    exact (congrArg (· >>= _) hstep).trans (ih h)

/-- What has been received of some segments. -/
structure Received (segments : List Segment) (data : Dataset R) : Prop where
  bits : data.alive.length = data.rowCount
  live : data.liveCount = data.alive.count true
  dead : data.liveCount + data.deadCount = data.rowCount
  names : (data.components.map Registered.name).Nodup
  find : ∀ name, data.find name = entryOf segments name

theorem received_new (resources : R) : Received [] (new resources) :=
  ⟨rfl, rfl, rfl, List.nodup_nil, fun name => by
    rw [entryOf]
    split_ifs <;> rfl⟩

theorem find_receive (data : Dataset R) (name other : String) (version : UInt32) (batch : RecordBatch) :
    (data.receive name version batch).find other =
      if other = name then
        some (((data.find name).map fun entry => { entry with chunks := [batch] }).getD
          ⟨name, version, batch.schema, [batch], none⟩)
      else data.find other := by
  rw [receive, contains]
  cases hfind : data.find name with
  | some entry =>
    rw [Option.isSome_some, if_pos rfl, find_modify (f := fun entry => { entry with chunks := [batch] }) fun _ => rfl]
    split_ifs with hname
    · rw [hname, hfind]
      rfl
    · rfl
  | none =>
    rw [Option.isSome_none, if_neg Bool.false_ne_true, find, List.find?_append]
    split_ifs with hname
    · rw [hname, ← find, hfind, List.find?_singleton, if_pos (decide_eq_true rfl)]
      rfl
    · rw [List.find?_singleton, if_neg, Option.or_none]
      · rfl
      · exact fun heq => hname (of_decide_eq_true heq).symm

theorem names_receive {data : Dataset R} {name : String} {version : UInt32} {batch : RecordBatch}
    (h : (data.components.map Registered.name).Nodup) :
    ((data.receive name version batch).components.map Registered.name).Nodup := by
  rw [receive, contains]
  split_ifs with hin
  · rw [names_modify (f := fun entry => { entry with chunks := [batch] }) fun _ _ hname => hname]
    exact h
  · rw [List.map_append]
    refine List.nodup_append.mpr ⟨h, List.nodup_singleton _, fun other hother fresh hfresh => ?_⟩
    obtain ⟨entry, hentry, rfl⟩ := List.mem_map.mp hother
    rw [List.mem_singleton.mp hfresh]
    have hne := List.find?_eq_none.mp (Option.not_isSome_iff_eq_none.mp hin) entry hentry
    exact fun heq => hne (decide_eq_true heq)

theorem entryOf_concat_of_ne {segments : List Segment} {segment : Segment} {name : String}
    (h : segment.component ≠ some name) : entryOf (segments ++ [segment]) name = entryOf segments name := by
  rw [entryOf, entryOf, naming_concat, if_neg h]

theorem entryOf_concat {segments : List Segment} {segment : Segment} {name : String}
    (hname : name ≠ ALIVE_BATCH_NAME) (h : segment.component = some name) :
    entryOf (segments ++ [segment]) name =
      some (((entryOf segments name).map fun entry => { entry with chunks := [segment.batch] }).getD
        ⟨name, segment.schemaVersion.getD 1, segment.batch.schema, [segment.batch], none⟩) := by
  rw [entryOf, entryOf, if_neg hname, if_neg hname, naming_concat, if_pos h]
  cases naming segments name with
  | nil => rfl
  | cons first rest =>
    rw [List.cons_append]
    dsimp only
    rw [List.getLastD_concat]
    rfl

theorem Received.concat {segments : List Segment} {segment : Segment} {s s' : Dataset R × Nat}
    (h : Received segments s.1) (hstep : receiveSegment s segment = .ok s') :
    Received (segments ++ [segment]) s'.1 := by
  rw [receiveSegment] at hstep
  split at hstep
  · cases hstep
  rename_i name hname
  split_ifs at hstep with halive hmany hcolumn
  · cases hstep
    refine ⟨rfl, ?_, ?_, h.names, fun other => ?_⟩
    · have hcounts := List.count_not_add_count (segment.batch.rows.map aliveBit) true
      rw [Bool.not_true] at hcounts
      dsimp only
      omega
    · exact Nat.sub_add_cancel List.count_le_length
    · refine (h.find other).trans ?_
      by_cases hother : other = ALIVE_BATCH_NAME
      · rw [entryOf, entryOf, if_pos hother, if_pos hother]
      · refine (entryOf_concat_of_ne ?_).symm
        rw [hname, halive]
        exact fun heq => hother (Option.some.inj heq).symm
  · cases hstep
    refine ⟨?_, ?_, ?_, names_receive h.names, fun other => ?_⟩
    · rw [receive]
      split_ifs <;> exact h.bits
    · rw [receive]
      split_ifs <;> exact h.live
    · rw [receive]
      split_ifs <;> exact h.dead
    · rw [find_receive]
      split_ifs with hother
      · rw [hother, entryOf_concat halive hname, h.find]
      · refine (h.find other).trans (entryOf_concat_of_ne ?_).symm
        rw [hname]
        exact fun heq => hother (Option.some.inj heq).symm

theorem received_foldlM {segments done : List Segment} {s s' : Dataset R × Nat} (h : Received done s.1)
    (hfold : segments.foldlM receiveSegment s = .ok s') : Received (done ++ segments) s'.1 := by
  induction segments generalizing done s with
  | nil =>
    cases hfold
    rw [List.append_nil]
    exact h
  | cons segment segments ih =>
    rw [List.foldlM_cons] at hfold
    obtain ⟨s₁, hstep, hfold⟩ := bind_eq_ok_iff.mp hfold
    have hnext := ih (h.concat hstep) hfold
    rwa [List.append_assoc] at hnext

/-- What `read_ipc` accepts. -/
theorem received_readIpc {resources : R} {bytes : Bytes} {data : Dataset R}
    (h : readIpc arrow resources bytes = .ok data) :
    Received (segmentsOf arrow bytes) data ∧ ∀ entry ∈ data.components, entry.numRows ≤ data.rowCount := by
  rw [readIpc] at h
  obtain ⟨⟨read, aliveCount⟩, hread, h⟩ := bind_eq_ok_iff.mp h
  dsimp only at h
  split_ifs at h with hnone
  split at h
  · cases h
  · rename_i hfind
    cases h
    refine ⟨?_, fun entry hentry => ?_⟩
    · exact received_foldlM (received_new resources) (foldlM_receiveSegment (foldlM_of_readFrames hread))
    · have hfits := List.find?_eq_none.mp hfind entry hentry
      exact not_lt.mp fun hlt => hfits (decide_eq_true hlt)

/-- The bytes that are accepted and yield a dataset that is represented as it should be. -/
theorem represented_readIpc_iff {resources : R} {bytes : Bytes} {data : Dataset R}
    (h : readIpc arrow resources bytes = .ok data) :
    CachedDataset.Represented ⟨data, []⟩ ↔ Uniform (segmentsOf arrow bytes) := by
  obtain ⟨hreceived, hrows⟩ := received_readIpc h
  constructor
  · intro hrep name first rest hname hnaming
    have hfind := hreceived.find name
    rw [entryOf, if_neg hname, hnaming] at hfind
    exact (hrep.fits_of_find hfind).schema _ (List.mem_singleton_self _)
  · intro huniform
    refine ⟨hreceived.bits, hreceived.live, hreceived.dead, hreceived.names, fun entry hentry => ?_, nofun⟩
    have hsome : ∃ found, data.find entry.name = some found :=
      Option.isSome_iff_exists.mp (List.find?_isSome.mpr ⟨entry, hentry, decide_eq_true rfl⟩)
    obtain ⟨found, hfound⟩ := hsome
    obtain ⟨hmem, hname⟩ := mem_of_find hfound
    obtain rfl := List.inj_on_of_nodup_map hreceived.names hentry hmem hname.symm
    rw [hreceived.find, entryOf] at hfound
    split_ifs at hfound with halive
    split at hfound
    · cases hfound
    · rename_i first rest hnaming
      have hschema := huniform entry.name first rest halive hnaming
      have hentryOf := Option.some.inj hfound
      refine ⟨hrows entry hentry, fun chunk hchunk => ?_, fun template hsome => ?_⟩
      · rw [← hentryOf] at hchunk ⊢
        rw [List.mem_singleton.mp hchunk]
        exact hschema
      · rw [← hentryOf] at hsome
        cases hsome

end Dataset
end Saci
