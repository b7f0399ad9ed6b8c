import Saci.Consensus.Types
import Saci.Core.DatasetRepresentation

/-!
# What a schema fingerprint tells apart

The fingerprint hashes names, versions and field names one after the other, with nothing between
them (`saci-core/src/schema.rs`). Field names that are joined to the same text are therefore hashed
alike (`preimage_modify`), and no registry with a component is alone with its pre-image
(`told_apart_iff`). `validate_schema_fingerprint` (`saci-service/src/service/validation.rs`)
compares fingerprints only.
-/

namespace Saci

theorem toList_loop (bytes : ByteArray) (i : Nat) (out : Bytes) :
    ByteArray.toList.loop bytes i out = out.reverse ++ bytes.data.toList.drop i := by
  induction h : bytes.size - i generalizing i out with
  | zero =>
    have hsize : bytes.size ≤ i := Nat.le_of_sub_eq_zero h
    have hlen : bytes.data.toList.length ≤ i := hsize
    rw [ByteArray.toList.loop, if_neg (not_lt.mpr hsize), List.drop_of_length_le hlen,
      List.append_nil]
  | succ n ih =>
    have hsize : i < bytes.size := by omega
    have hi : i < bytes.data.toList.length := hsize
    have hbyte : bytes.get! i = bytes.data.toList[i] := getElem!_pos bytes.data i hsize
    rw [ByteArray.toList.loop, if_pos hsize, ih _ _ (by omega), List.drop_eq_getElem_cons hi,
      List.reverse_cons, List.append_assoc, hbyte]
    rfl

theorem toList_toUTF8 (s : String) : s.toUTF8.toList = s.toByteArray.data.toList :=
  toList_loop _ 0 []

/-- What the fingerprint is about, for one component: the version and the names of the fields. -/
def Registered.layout (entry : Registered) : UInt32 × List String :=
  (entry.version, entry.schema.fields.map Field.name)

namespace Dataset
variable {R : Type} {data other : Dataset R} {name : String} {f : Registered → Registered}

/-- The entries in the order they are hashed. -/
def sortedEntries (data : Dataset R) : List Registered :=
  data.components.mergeSort fun a b => a.name ≤ b.name

/-- The bytes that `fingerprint` hashes. -/
def preimage (data : Dataset R) : Bytes := data.sortedEntries.flatMap fingerprintBytes

theorem fingerprint_eq (data : Dataset R) :
    data.fingerprint = data.preimage.foldl fnvStep 2166136261 := rfl

/-- The registries have the same components, each with the same version and field names. -/
def SameLayouts (data other : Dataset R) : Prop :=
  ∀ name, (data.find name).map Registered.layout = (other.find name).map Registered.layout

/-- Two registries in which each name is registered once, as in a map, and which the pre-image
tells apart. -/
def ToldApart (data other : Dataset R) : Prop :=
  (data.components.map Registered.name).Nodup → (other.components.map Registered.name).Nodup →
    data.preimage = other.preimage → data.SameLayouts other

/-! ## Equal pre-images -/

theorem sortedEntries_modify (hf : ∀ entry, (f entry).name = entry.name) (name : String) :
    (data.modify name f).sortedEntries =
      data.sortedEntries.map fun entry => if entry.name = name then f entry else entry := by
  refine (List.map_mergeSort fun a _ b _ => ?_).symm
  have hname : ∀ entry : Registered,
      (if entry.name = name then f entry else entry).name = entry.name := by
    intro entry
    split_ifs
    · exact hf entry
    · rfl
  rw [hname, hname]

/-- A schema that is exchanged for one whose bytes are the same leaves the pre-image as it is. -/
theorem preimage_modify (hf : ∀ entry, (f entry).name = entry.name)
    (hbytes : ∀ entry ∈ data.components, entry.name = name →
      fingerprintBytes (f entry) = fingerprintBytes entry) :
    (data.modify name f).preimage = data.preimage := by
  rw [preimage, sortedEntries_modify hf, List.flatMap_map, preimage]
  refine List.flatMap_congr fun entry hentry => ?_
  split_ifs with hname
  · exact hbytes entry (List.mem_mergeSort.mp hentry) hname
  · rfl

/-- The fields of a component, exchanged. -/
def withFields (data : Dataset R) (name : String) (fields : List Field → List Field) : Dataset R :=
  data.modify name fun entry => { entry with schema := ⟨fields entry.schema.fields⟩ }

theorem find_withFields (fields : List Field → List Field) :
    (data.withFields name fields).find name =
      (data.find name).map fun entry => { entry with schema := ⟨fields entry.schema.fields⟩ } :=
  (find_modify_of
    (f := fun entry => { entry with schema := ⟨fields entry.schema.fields⟩ })
    (fun _ hname => hname) name).trans (if_pos rfl)

/-- Field names that are joined to the same text are hashed alike. -/
theorem preimage_withFields {fields : List Field → List Field}
    (hjoined : ∀ entry ∈ data.components, entry.name = name →
      ((fields entry.schema.fields).flatMap fun field => field.name.toUTF8.toList) =
        entry.schema.fields.flatMap fun field => field.name.toUTF8.toList) :
    (data.withFields name fields).preimage = data.preimage := by
  refine preimage_modify (fun _ => rfl) fun entry hentry hname => ?_
  rw [fingerprintBytes, fingerprintBytes, hjoined entry hentry hname]

theorem fingerprintBytes_ne_nil (entry : Registered) : fingerprintBytes entry ≠ [] := by
  intro h
  have hlen := congrArg List.length h
  simp [fingerprintBytes] at hlen

/-- Only a registry without components has an empty pre-image. -/
theorem preimage_eq_nil_iff : data.preimage = [] ↔ data.components = [] := by
  rw [preimage, List.flatMap_eq_nil_iff]
  constructor
  · intro h
    refine List.eq_nil_iff_forall_not_mem.mpr fun entry hentry => ?_
    exact fingerprintBytes_ne_nil entry (h entry (List.mem_mergeSort.mpr hentry))
  · intro h entry hentry
    have hmem := List.mem_mergeSort.mp hentry
    rw [h] at hmem
    exact absurd hmem List.not_mem_nil

/-! ## Which registries are told apart -/

/-- A field with an empty name, put in front. -/
def nameless (fields : List Field) : List Field := ⟨"", .boolean, true⟩ :: fields

/-- A registry is told apart from all others exactly if it has no components. -/
theorem told_apart_iff (data : Dataset R) (hnodup : (data.components.map Registered.name).Nodup) :
    (∀ other, data.ToldApart other) ↔ data.components = [] := by
  constructor
  · intro h
    cases hdata : data.components with
    | nil => rfl
    | cons entry entries =>
      have hfind : data.find entry.name = some entry := by
        rw [find, hdata, List.find?_cons, decide_eq_true rfl]
      have hnames : (data.withFields entry.name nameless).components.map Registered.name =
          data.components.map Registered.name := names_modify fun _ _ hname => hname
      have hsame := h (data.withFields entry.name nameless) hnodup
        (hnames.symm ▸ hnodup)
        (preimage_withFields fun _ _ _ => by simp [nameless]).symm entry.name
      rw [find_withFields, hfind] at hsame
      have hlen := congrArg (fun layout => (layout.map fun l => l.2.length).getD 0) hsame
      simp [Registered.layout, nameless] at hlen
  · intro h other _ _ hpre name
    have hother : other.components = [] :=
      preimage_eq_nil_iff.mp (hpre ▸ preimage_eq_nil_iff.mpr h)
    rw [find, find, h, hother]

/-- `validate_schema_fingerprint`. -/
def validateSchemaFingerprint (runtime : UInt32) (persisted : Option UInt32) : SaciResult Unit :=
  match persisted with
  | none => .ok ()
  | some stored =>
    if stored = runtime then .ok ()
    else .error <| .configuration <|
      s!"schema fingerprint mismatch: the pipeline declares {Uuid.hex (beBytes 4 runtime.toNat)} " ++
      "but this node's persisted checkpoints were written with " ++
      s!"{Uuid.hex (beBytes 4 stored.toNat)}. The deployed pipeline's component schemas changed. " ++
      "Either restore the previous pipeline or clear node.data_dir before starting with the new " ++
      "schema."

end Dataset

namespace SchemaFingerprint.Sample

def column (name : String) : Field := ⟨name, .float32, false⟩

/-- A registry with one component of these fields. -/
def registry (fields : List String) : Dataset Unit :=
  { Dataset.new () with
    components := [Dataset.freshEntry "Position" ⟨fields.map column⟩ 1] }

theorem empty_told_apart : (Dataset.new () : Dataset Unit).ToldApart (registry ["ab", "c"]) :=
  (Dataset.told_apart_iff (Dataset.new ()) List.nodup_nil).mpr rfl _

/-- A pipeline whose fields `ab` and `c` became `a` and `bc` resumes from the old checkpoints. -/
theorem resplit_resumed :
    ¬(registry ["ab", "c"]).ToldApart (registry ["a", "bc"]) ∧
      Dataset.validateSchemaFingerprint (registry ["a", "bc"]).fingerprint
        (some (registry ["ab", "c"]).fingerprint) = .ok () := by
  have hpre : (registry ["ab", "c"]).preimage = (registry ["a", "bc"]).preimage := by
    simp only [Dataset.preimage, Dataset.sortedEntries, registry, Dataset.freshEntry,
      Dataset.fingerprintBytes, column, List.mergeSort_singleton, List.map_cons, List.map_nil,
      List.flatMap_cons, List.flatMap_nil, toList_toUTF8]
    decide
  refine ⟨fun h => ?_, ?_⟩
  · have hsame := h (List.nodup_singleton _) (List.nodup_singleton _) hpre "Position"
    exact absurd hsame (by decide)
  · rw [Dataset.fingerprint_eq, Dataset.fingerprint_eq, hpre, Dataset.validateSchemaFingerprint,
      if_pos rfl]

end SchemaFingerprint.Sample

end Saci
