import Saci.Core.IpcReads

/-!
# There and back

What `write_ipc` writes of a dataset, `read_ipc` reads back, and nothing that is cut off, exactly where every
merge can be made, no component has the name of the bitmap, and every segment fits a 32-bit length
(`roundTrips_iff`).
-/

namespace Saci

/-- Arrow refuses a stream that ends before the end marker, of eight bytes. -/
structure ArrowIpc.Strict (arrow : ArrowIpc) : Prop extends arrow.Faithful where
  cut : ∀ segment bytes n, arrow.encode segment = .ok bytes → n + 8 < bytes.length →
    ∃ e, arrow.decode (bytes.take n) = .error e

theorem ArrowIpc.strict_ofTable {table : List Segment} (h : table.length ≤ 256) : (ofTable table).Strict where
  toFaithful := faithful_ofTable h
  cut segment bytes n hencode hlong := by
    rw [ofTable] at hencode
    dsimp only at hencode
    split at hencode
    · cases hencode
    · cases hencode
      exact absurd hlong (by rw [List.length_singleton]; omega)

namespace CachedDataset
variable {R : Type} (refuses : Schema → List RecordBatch → Option String) (arrow : ArrowIpc)

/-- The batch that `get_or_build_merged` answers. -/
def mergedOf (ds : CachedDataset R) (entry : Registered) : SaciResult RecordBatch :=
  (ds.getOrBuildMerged refuses entry).2

/-- The bytes that `write_ipc` writes. What its reads leave in the cache is what `batchFor` leaves. -/
def writeIpc (ds : CachedDataset R) : SaciResult Bytes := do
  let entries := ds.data.components.mergeSort fun a b => a.name ≤ b.name
  let segments ← entries.mapM fun entry => do
    let batch ← ds.mergedOf refuses entry
    arrow.encode ⟨some entry.name, some entry.version, batch⟩
  let alive ← arrow.encode ds.data.aliveSegment
  .ok (frames (segments ++ [alive]) ++ terminator)

/-- The segments of a dataset. -/
def segments (ds : CachedDataset R) : List Segment :=
  (ds.data.components.mergeSort fun a b => a.name ≤ b.name).map Dataset.componentSegment ++ [ds.data.aliveSegment]

/-- The components with their versions and rows, and the bitmap with its counts, are back. -/
structure Restores (ds : CachedDataset R) (data : Dataset R) : Prop where
  versions : ∀ name, data.getVersion name = ds.data.getVersion name
  batches : ∀ name, data.batchFor name = ds.data.batchFor name
  alive : data.alive = ds.data.alive
  rowCount : data.rowCount = ds.data.rowCount

def RoundTrips (resources : R) (ds : CachedDataset R) : Prop :=
  ∃ bytes data, ds.writeIpc refuses arrow = .ok bytes ∧ Dataset.readIpc arrow resources bytes = .ok data ∧
    ds.Restores data

/-- What is written is read back as a whole only. -/
def RefusesCuts (resources : R) (ds : CachedDataset R) : Prop :=
  ∀ bytes cut rest, ds.writeIpc refuses arrow = .ok bytes → bytes = cut ++ rest → rest ≠ [] →
    ∃ e, Dataset.readIpc arrow resources cut = .error e

/-- The datasets that the framing takes. -/
structure Framable (ds : CachedDataset R) : Prop where
  merges : ∀ entry ∈ ds.data.components, ds.mergedCache.get entry.name = none → entry.chunks.length ≠ 1 →
    refuses entry.schema entry.chunks = none
  unreserved : ∀ entry ∈ ds.data.components, entry.name ≠ ALIVE_BATCH_NAME
  short : ∀ segment ∈ ds.segments, ∀ bytes, arrow.encode segment = .ok bytes → bytes.length < 2 ^ 32

variable {refuses} {arrow} {ds : CachedDataset R} {resources : R}

/-! ## Writing -/

theorem Represented.mergedOf_eq_ok (h : ds.Represented) {entry : Registered} {batch : RecordBatch}
    (hentry : entry ∈ ds.data.components) (hok : ds.mergedOf refuses entry = .ok batch) : batch = entry.merged := by
  rw [mergedOf, getOrBuildMerged] at hok
  split at hok
  · rename_i cached hcached
    obtain ⟨other, hother, hname, hmerged⟩ := h.cache _ _ (MergedCache.mem_of_get hcached)
    obtain rfl := List.inj_on_of_nodup_map h.names hother hentry hname
    rw [hmerged]
    exact (Except.ok.inj hok).symm
  · split at hok
    · cases hok
    · rename_i merged hbuild
      cases hok
      exact buildMerged_eq_ok hbuild

theorem buildMerged_isOk_iff {entry : Registered} : (∃ batch, entry.buildMerged refuses = .ok batch) ↔
    (entry.chunks.length ≠ 1 → refuses entry.schema entry.chunks = none) := by
  rw [Registered.buildMerged]
  split
  · rename_i chunk hchunks
    rw [hchunks]
    exact iff_of_true ⟨chunk, rfl⟩ fun hone => absurd rfl hone
  · rename_i chunks hmany
    have hlength : entry.chunks.length ≠ 1 := fun hone => by
      obtain ⟨chunk, hchunk⟩ := List.length_eq_one_iff.mp hone
      exact hmany chunk hchunk
    rw [concatBatches]
    cases refuses entry.schema entry.chunks with
    | none => exact iff_of_true ⟨_, rfl⟩ fun _ => rfl
    | some e => exact iff_of_false (by rintro ⟨_, ⟨⟩⟩) fun hall => by cases hall hlength

/-- A merge is there, or can be made. -/
theorem mergedOf_isOk_iff {entry : Registered} : (∃ batch, ds.mergedOf refuses entry = .ok batch) ↔
    (ds.mergedCache.get entry.name = none → entry.chunks.length ≠ 1 →
      refuses entry.schema entry.chunks = none) := by
  rw [mergedOf, getOrBuildMerged]
  cases ds.mergedCache.get entry.name with
  | some batch => exact iff_of_true ⟨batch, rfl⟩ (by rintro ⟨⟩)
  | none =>
    cases hbuild : entry.buildMerged refuses with
    | ok merged => exact iff_of_true ⟨merged, rfl⟩ fun _ => buildMerged_isOk_iff.mp ⟨merged, hbuild⟩
    | error e =>
      refine iff_of_false (by rintro ⟨_, ⟨⟩⟩) fun hall => ?_
      obtain ⟨merged, hmerged⟩ := buildMerged_isOk_iff.mpr (hall rfl)
      cases hmerged.symm.trans hbuild

theorem forall₂_of_mem {α β : Type} {r s : α → β → Prop} {as : List α} {bs : List β}
    (h : List.Forall₂ r as bs) (himp : ∀ a ∈ as, ∀ b, r a b → s a b) : List.Forall₂ s as bs := by
  induction h with
  | nil => exact .nil
  | @cons a b as bs hab _ ih =>
    obtain ⟨hfirst, hrest⟩ := List.forall_mem_cons.mp himp
    exact .cons (hfirst b hab) (ih hrest)

/-- What is written are the frames of the segments. -/
theorem Represented.writeIpc_eq_ok (h : ds.Represented) {bytes : Bytes}
    (hok : ds.writeIpc refuses arrow = .ok bytes) :
    (∀ entry ∈ ds.data.components, ∃ batch, ds.mergedOf refuses entry = .ok batch) ∧
    ∃ payloads, List.Forall₂ (fun segment payload => arrow.encode segment = .ok payload) ds.segments payloads ∧
      bytes = frames payloads ++ terminator := by
  obtain ⟨payloads, hpayloads, hok⟩ := bind_eq_ok_iff.mp hok
  obtain ⟨alive, halive, hok⟩ := bind_eq_ok_iff.mp hok
  cases hok
  have hall := forall₂_of_mapM_eq_ok hpayloads
  have hsorted (entry : Registered) : entry ∈ ds.data.components.mergeSort (fun a b => a.name ≤ b.name) ↔
      entry ∈ ds.data.components := List.mem_mergeSort
  refine ⟨fun entry hentry => ?_, payloads ++ [alive], ?_, rfl⟩
  · obtain ⟨payload, -, hpayload⟩ := (mem_of_mapM_eq_ok hpayloads).1 entry ((hsorted entry).mpr hentry)
    obtain ⟨batch, hbatch, -⟩ := bind_eq_ok_iff.mp hpayload
    exact ⟨batch, hbatch⟩
  · refine List.rel_append (List.forall₂_map_left_iff.mpr ?_) (.cons halive .nil)
    refine forall₂_of_mem hall fun entry hentry payload hpayload => ?_
    obtain ⟨batch, hbatch, hencode⟩ := bind_eq_ok_iff.mp hpayload
    rw [h.mergedOf_eq_ok ((hsorted entry).mp hentry) hbatch] at hencode
    exact hencode

/-- Where every merge can be made and Arrow encodes the segments, they are written. -/
theorem Represented.writeIpc_isOk (h : ds.Represented) (hmerges : ∀ entry ∈ ds.data.components,
    ∃ batch, ds.mergedOf refuses entry = .ok batch)
    (hencodes : ∀ segment ∈ ds.segments, ∃ bytes, arrow.encode segment = .ok bytes) :
    ∃ bytes, ds.writeIpc refuses arrow = .ok bytes := by
  have hsorted (entry : Registered) : entry ∈ ds.data.components.mergeSort (fun a b => a.name ≤ b.name) ↔
      entry ∈ ds.data.components := List.mem_mergeSort
  have hone : ∀ entry ∈ ds.data.components.mergeSort (fun a b => a.name ≤ b.name), ∃ payload,
      (do
        let batch ← ds.mergedOf refuses entry
        arrow.encode ⟨some entry.name, some entry.version, batch⟩) = .ok payload := by
    intro entry hentry
    obtain ⟨batch, hbatch⟩ := hmerges entry ((hsorted entry).mp hentry)
    obtain ⟨payload, hpayload⟩ := hencodes (Dataset.componentSegment entry)
      (List.mem_append_left _ (List.mem_map_of_mem hentry))
    refine ⟨payload, bind_eq_ok_iff.mpr ⟨batch, hbatch, ?_⟩⟩
    rw [h.mergedOf_eq_ok ((hsorted entry).mp hentry) hbatch]
    exact hpayload
  obtain ⟨payloads, hpayloads⟩ := exists_forall₂ hone
  obtain ⟨alive, halive⟩ := hencodes ds.data.aliveSegment (List.mem_append_right _ (List.mem_singleton_self _))
  exact ⟨_, bind_eq_ok_iff.mpr ⟨payloads, mapM_eq_ok_of_forall₂ hpayloads, bind_eq_ok_iff.mpr ⟨alive, halive, rfl⟩⟩⟩

/-! ## Reading what was written -/

theorem foldlM_readSegment (harrow : arrow.Faithful) {segments : List Segment} {payloads : List Bytes}
    (h : List.Forall₂ (fun segment payload => arrow.encode segment = .ok payload) segments payloads)
    (s : Dataset R × Nat) :
    payloads.foldlM (fun s payload => Dataset.readSegment arrow s payload.length payload) s =
      segments.foldlM Dataset.receiveSegment s := by
  induction h generalizing s with
  | nil => rfl
  | @cons segment payload segments payloads hencode _ ih =>
    rw [List.foldlM_cons, List.foldlM_cons, Dataset.readSegment_eq, harrow.decode_encode _ _ hencode, ok_bind,
      if_neg (lt_irrefl _)]
    exact bind_congr fun s' => ih s'

/-- Components are received one after the other, and the bitmap is still to come. -/
theorem receive_components {entries : List Registered} (h : ∀ entry ∈ entries, entry.name ≠ ALIVE_BATCH_NAME)
    (s : Dataset R × Nat) :
    ∃ data, (entries.map Dataset.componentSegment).foldlM Dataset.receiveSegment s = .ok (data, s.2) := by
  induction entries generalizing s with
  | nil => exact ⟨s.1, rfl⟩
  | cons entry entries ih =>
    obtain ⟨hname, hrest⟩ := List.forall_mem_cons.mp h
    have hstep : Dataset.receiveSegment s (Dataset.componentSegment entry) =
        .ok (s.1.receive entry.name entry.version entry.merged, s.2) := if_neg hname
    obtain ⟨data, hdata⟩ := ih hrest (s.1.receive entry.name entry.version entry.merged, s.2)
    exact ⟨data, by rw [List.map_cons, List.foldlM_cons, hstep, ok_bind, hdata]⟩

theorem receive_alive (data : Dataset R) (source : Dataset R) :
    ∃ counted, Dataset.receiveSegment (data, 0) source.aliveSegment = .ok (counted, 1) ∧
      counted.alive = source.alive ∧ counted.rowCount = source.alive.length := by
  have hbits : (source.alive.map fun bit => [Cell.bool bit]).map Dataset.aliveBit = source.alive := by
    rw [List.map_map]
    refine (List.map_congr_left fun bit _ => ?_).trans (List.map_id _)
    cases bit <;> rfl
  refine ⟨_, rfl, hbits, ?_⟩
  exact congrArg List.length hbits

/-- The entries of one name in another order. -/
theorem Represented.filter_mergeSort (h : ds.Represented) (name : String) :
    (ds.data.components.mergeSort fun a b => a.name ≤ b.name).filter (fun entry => entry.name = name) =
      (ds.data.find name).toList := by
  have hperm := (List.mergeSort_perm ds.data.components fun a b => a.name ≤ b.name).filter
    fun entry => entry.name = name
  have hfilter : ds.data.components.filter (fun entry => entry.name = name) = (ds.data.find name).toList := by
    cases hfind : ds.data.find name with
    | none => exact List.filter_eq_nil_iff.mpr (List.find?_eq_none.mp hfind)
    | some entry =>
      have hall : ∀ other ∈ ds.data.components.filter (fun entry => entry.name = name), other = entry := by
        intro other hother
        obtain ⟨hmem, hname⟩ := List.mem_filter.mp hother
        exact h.eq_of_find hfind hmem (of_decide_eq_true hname)
      have hnodup := (h.names.of_map _).filter fun entry => entry.name = name
      have hmem : entry ∈ ds.data.components.filter (fun entry => entry.name = name) := by
        obtain ⟨hmem, hname⟩ := Dataset.mem_of_find hfind
        exact List.mem_filter.mpr ⟨hmem, decide_eq_true hname⟩
      have hrep := List.eq_replicate_of_mem hall
      rw [hrep] at hnodup hmem
      have hone := Nat.le_antisymm (List.nodup_replicate.mp hnodup)
        (Nat.one_le_iff_ne_zero.mpr (List.mem_replicate.mp hmem).1)
      rw [hrep, hone]
      rfl
  rw [hfilter] at hperm
  cases hfind : ds.data.find name with
  | none =>
    rw [hfind] at hperm
    exact hperm.eq_nil
  | some entry =>
    rw [hfind] at hperm
    exact List.perm_singleton.mp hperm

/-- What is read of the segments of a dataset. -/
theorem Represented.entryOf_segments (h : ds.Represented) {name : String} (hname : name ≠ ALIVE_BATCH_NAME) :
    entryOf ds.segments name = (ds.data.find name).map fun entry =>
      ⟨name, entry.version, entry.merged.schema, [entry.merged], none⟩ := by
  have hnaming : naming ds.segments name = (ds.data.find name).toList.map Dataset.componentSegment := by
    have halive : naming [ds.data.aliveSegment] name = [] := by
      refine List.filter_eq_nil_iff.mpr fun segment hsegment heq => ?_
      rw [List.mem_singleton.mp hsegment] at heq
      exact hname (Option.some.inj (of_decide_eq_true heq)).symm
    rw [naming, segments, List.filter_append, ← naming, ← naming, halive, List.append_nil, naming,
      List.filter_map, ← h.filter_mergeSort]
    refine congrArg (List.map _) (List.filter_congr fun entry _ => ?_)
    rw [Function.comp_apply, Dataset.componentSegment]
    exact decide_eq_decide.mpr ⟨Option.some.inj, congrArg some⟩
  rw [entryOf, if_neg hname, hnaming]
  cases ds.data.find name with
  | none => rfl
  | some entry => rfl

/-- The payloads of a dataset that the framing takes. -/
theorem Framable.payloads (hframable : ds.Framable refuses arrow) {payloads : List Bytes}
    (hpayloads : List.Forall₂ (fun segment payload => arrow.encode segment = .ok payload) ds.segments payloads) :
    ∀ payload ∈ payloads, payload.length < 2 ^ 32 := fun payload hpayload => by
  obtain ⟨segment, hmem, hsegment⟩ := exists_of_forall₂ hpayloads.flip hpayload
  exact hframable.short segment hmem payload hsegment

theorem payloads_ne_nil (harrow : arrow.Faithful) {segments : List Segment} {payloads : List Bytes}
    (hpayloads : List.Forall₂ (fun segment payload => arrow.encode segment = .ok payload) segments payloads) :
    ∀ payload ∈ payloads, payload ≠ [] := fun payload hpayload => by
  obtain ⟨segment, -, hsegment⟩ := exists_of_forall₂ hpayloads.flip hpayload
  exact harrow.ne_nil segment payload hsegment

/-- A dataset that the framing takes comes back. -/
theorem Represented.roundTrips (h : ds.Represented) (harrow : arrow.Faithful)
    (hencodes : ∀ segment ∈ ds.segments, ∃ bytes, arrow.encode segment = .ok bytes)
    (hframable : ds.Framable refuses arrow) : ds.RoundTrips refuses arrow resources := by
  obtain ⟨bytes, hwrite⟩ := h.writeIpc_isOk
    (fun entry hentry => mergedOf_isOk_iff.mpr (hframable.merges entry hentry)) hencodes
  obtain ⟨-, payloads, hpayloads, rfl⟩ := h.writeIpc_eq_ok hwrite
  have hne := payloads_ne_nil harrow hpayloads
  have hlt := hframable.payloads hpayloads
  -- the components, and then the bitmap
  have hsorted : ∀ entry ∈ ds.data.components.mergeSort (fun a b => a.name ≤ b.name),
      entry.name ≠ ALIVE_BATCH_NAME :=
    fun entry hentry => hframable.unreserved entry (List.mem_mergeSort.mp hentry)
  obtain ⟨data, hdata⟩ := receive_components hsorted (Dataset.new resources, 0)
  obtain ⟨counted, hcounted, halive, hrows⟩ := receive_alive data ds.data
  have hfold : ds.segments.foldlM Dataset.receiveSegment (Dataset.new resources, 0) = .ok (counted, 1) := by
    rw [segments, List.foldlM_append, hdata, ok_bind, List.foldlM_cons, hcounted]
    rfl
  have hreceived := Dataset.received_foldlM (Dataset.received_new resources) hfold
  rw [List.nil_append] at hreceived
  have hfind (name : String) : counted.find name = (ds.data.find name).map fun entry =>
      ⟨name, entry.version, entry.merged.schema, [entry.merged], none⟩ := by
    refine (hreceived.find name).trans ?_
    by_cases hname : name = ALIVE_BATCH_NAME
    · have hnone : ds.data.find name = none :=
        List.find?_eq_none.mpr fun entry hentry heq =>
          hframable.unreserved entry hentry ((of_decide_eq_true heq).trans hname)
      rw [entryOf, if_pos hname, hnone]
      rfl
    · exact h.entryOf_segments hname
  have hread : Dataset.readSegments arrow resources (frames payloads ++ terminator) = .ok (counted, 1) := by
    have hframes : Dataset.readSegments arrow resources (frames payloads ++ terminator ++ []) = _ :=
      readFrames_frames _ [] hne hlt
    rw [List.append_nil, foldlM_readSegment harrow hpayloads, hfold] at hframes
    exact hframes
  refine ⟨_, counted, hwrite, ?_, fun name => ?_, fun name => ?_, halive, hrows.trans h.bits⟩
  · rw [Dataset.readIpc, hread, ok_bind]
    dsimp only
    rw [if_neg Nat.one_ne_zero]
    have hfits : counted.components.find? (fun entry => counted.rowCount < entry.numRows) = none := by
      refine List.find?_eq_none.mpr fun entry hentry hlong => ?_
      obtain ⟨found, hfound⟩ : ∃ found, counted.find entry.name = some found :=
        Option.isSome_iff_exists.mp (List.find?_isSome.mpr ⟨entry, hentry, decide_eq_true rfl⟩)
      obtain ⟨hmem, hname⟩ := Dataset.mem_of_find hfound
      obtain rfl := List.inj_on_of_nodup_map hreceived.names hentry hmem hname.symm
      rw [hfind] at hfound
      obtain ⟨entry₀, hentry₀, heq⟩ := Option.map_eq_some_iff.mp hfound
      have hle : entry₀.merged.numRows ≤ counted.rowCount := by
        rw [Registered.numRows_merged, hrows, h.bits]
        exact (h.fits_of_find hentry₀).rows
      have hsame : entry.numRows = entry₀.merged.numRows := by
        rw [← heq]
        exact List.sum_singleton
      exact absurd (of_decide_eq_true hlong) (not_lt.mpr (hsame.trans_le hle))
    rw [hfits]
  · rw [Dataset.getVersion, Dataset.getVersion, hfind, Option.map_map]
    rfl
  · rw [Dataset.batchFor, Dataset.batchFor, hfind, Option.map_map]
    rfl

/-- What it is written as is not read when it is cut off. -/
theorem Represented.refusesCuts (h : ds.Represented) (harrow : arrow.Faithful)
    (hframable : ds.Framable refuses arrow) : ds.RefusesCuts refuses arrow resources := by
  intro bytes cut rest hwrite hsplit hrest
  obtain ⟨-, payloads, hpayloads, rfl⟩ := h.writeIpc_eq_ok hwrite
  obtain ⟨e, he⟩ : ∃ e, Dataset.readSegments arrow resources cut = .error e :=
    readFrames_cut Dataset.readSegment_cut (payloads_ne_nil harrow hpayloads) (hframable.payloads hpayloads) hrest
      hsplit.symm _
  exact ⟨e, by rw [Dataset.readIpc, he, error_bind]⟩

/-- Of frames one of which is too long for its length field nothing is read. -/
theorem readIpc_long (harrow : arrow.Strict) {payloads : List Bytes}
    (hunreserved : ∀ entry ∈ ds.data.components, entry.name ≠ ALIVE_BATCH_NAME)
    (hpayloads : List.Forall₂ (fun segment payload => arrow.encode segment = .ok payload) ds.segments payloads)
    (hlong : ∃ payload ∈ payloads, 2 ^ 32 ≤ payload.length) (data : Dataset R) :
    Dataset.readIpc arrow resources (frames payloads ++ terminator) ≠ .ok data := by
  intro hread
  obtain ⟨⟨read, aliveCount⟩, hsegments, hread⟩ := bind_eq_ok_iff.mp hread
  have hcut : ∀ (s : Dataset R × Nat), ∀ payload ∈ payloads, 2 ^ 32 ≤ payload.length →
      ∃ e, Dataset.readSegment arrow s (payload.length % 2 ^ 32) (payload.take (payload.length % 2 ^ 32)) =
        .error e := by
    intro s payload hpayload hlarge
    obtain ⟨segment, -, hsegment⟩ := exists_of_forall₂ hpayloads.flip hpayload
    have hmod := Nat.mod_lt payload.length (Nat.two_pow_pos 32)
    obtain ⟨e, he⟩ := harrow.cut segment payload (payload.length % 2 ^ 32) hsegment (by omega)
    exact ⟨e, by rw [Dataset.readSegment_eq, he, error_bind]⟩
  obtain ⟨n, hn, hfold⟩ := foldlM_of_readFramesWithin_long (payloads_ne_nil harrow.toFaithful hpayloads) hcut hlong
    hsegments
  -- only components are read, and no bitmap
  rw [foldlM_readSegment harrow.toFaithful (List.forall₂_take n hpayloads)] at hfold
  have hlength := hpayloads.length_eq
  rw [segments, List.length_append, List.length_map, List.length_singleton] at hlength
  rw [segments, List.take_append_of_le_length (by rw [List.length_map]; omega), ← List.map_take] at hfold
  obtain ⟨data', hdata'⟩ := receive_components (fun entry hentry =>
    hunreserved entry (List.mem_mergeSort.mp (List.mem_of_mem_take hentry))) (Dataset.new resources, 0)
  obtain ⟨-, rfl⟩ := Prod.mk.inj (Except.ok.inj (hfold.symm.trans hdata'))
  cases hread

/-- A dataset comes back only where the framing takes it. -/
theorem Represented.framable (h : ds.Represented) (harrow : arrow.Strict)
    (htrips : ds.RoundTrips refuses arrow resources) : ds.Framable refuses arrow := by
  obtain ⟨bytes, data, hwrite, hread, hrestores⟩ := htrips
  obtain ⟨hmerges, payloads, hpayloads, rfl⟩ := h.writeIpc_eq_ok hwrite
  have hunreserved : ∀ entry ∈ ds.data.components, entry.name ≠ ALIVE_BATCH_NAME := by
    intro entry hentry hname
    have hnone := (Dataset.received_readIpc hread).1.find ALIVE_BATCH_NAME
    rw [entryOf, if_pos rfl] at hnone
    have hbatch := hrestores.batches ALIVE_BATCH_NAME
    rw [Dataset.batchFor, hnone, Option.map_none] at hbatch
    have hfind := Option.map_eq_none_iff.mp hbatch.symm
    exact List.find?_eq_none.mp hfind entry hentry (decide_eq_true hname)
  refine ⟨fun entry hentry => mergedOf_isOk_iff.mp (hmerges entry hentry), hunreserved,
    fun segment hsegment payload hencode => ?_⟩
  by_contra hlarge
  obtain ⟨payload', hmem, hencode'⟩ := exists_of_forall₂ hpayloads hsegment
  obtain rfl := Except.ok.inj (hencode.symm.trans hencode')
  exact readIpc_long harrow hunreserved hpayloads ⟨payload, hmem, not_lt.mp hlarge⟩ data hread

/-- A dataset goes there and back, and nothing of it that is cut off is read, exactly where the framing takes it;
and bytes that are read yield a dataset that is represented as it should be exactly where no component is repeated
with other fields. -/
theorem roundTrips_iff (harrow : arrow.Strict) (h : ds.Represented)
    (hencodes : ∀ segment ∈ ds.segments, ∃ bytes, arrow.encode segment = .ok bytes) :
    (ds.RoundTrips refuses arrow resources ∧ ds.RefusesCuts refuses arrow resources ↔
      ds.Framable refuses arrow) ∧
    ∀ bytes (data : Dataset R), Dataset.readIpc arrow resources bytes = .ok data →
      (Represented ⟨data, []⟩ ↔ Uniform (segmentsOf arrow bytes)) := by
  refine ⟨⟨fun htrips => h.framable harrow htrips.1, fun hframable => ⟨?_, ?_⟩⟩, fun bytes data hread => ?_⟩
  · exact h.roundTrips harrow.toFaithful hencodes hframable
  · exact h.refusesCuts harrow.toFaithful hframable
  · exact Dataset.represented_readIpc_iff hread

namespace Stored

def never : Schema → List RecordBatch → Option String := fun _ _ => none

def orders : Registered :=
  ⟨"Order", 1, ⟨[⟨"id", .uInt64, false⟩]⟩, [⟨⟨[⟨"id", .uInt64, false⟩]⟩, [[.int 7]]⟩], none⟩

/-- A dataset with one order. -/
def stored : CachedDataset Unit := ⟨⟨[orders], 1, [true], 1, 0, ()⟩, []⟩

def encoding : ArrowIpc := .ofTable stored.segments

theorem segments_stored : stored.segments = [Dataset.componentSegment orders, stored.data.aliveSegment] := by
  decide +kernel

theorem encodes (segment : Segment) (h : segment ∈ stored.segments) :
    ∃ bytes, encoding.encode segment = .ok bytes ∧ bytes.length < 2 ^ 32 := by
  rw [segments_stored] at h
  rcases List.mem_cons.mp h with rfl | h
  · exact ⟨[0], by decide +kernel, by decide⟩
  · obtain rfl := List.mem_singleton.mp h
    exact ⟨[1], by decide +kernel, by decide⟩

theorem represented_stored : stored.Represented := by
  refine ⟨rfl, rfl, rfl, List.nodup_singleton _, fun entry hentry => ?_, nofun⟩
  obtain rfl := List.mem_singleton.mp hentry
  refine ⟨le_refl 1, fun chunk hchunk => ?_, nofun⟩
  rw [List.mem_singleton.mp hchunk]
  rfl

theorem framable_stored : stored.Framable never encoding := by
  refine ⟨fun _ _ _ _ => rfl, fun entry hentry => ?_, fun segment hsegment bytes hencode => ?_⟩
  · obtain rfl := List.mem_singleton.mp hentry
    decide
  · obtain ⟨bytes', hencode', hlt⟩ := encodes segment hsegment
    obtain rfl := Except.ok.inj (hencode.symm.trans hencode')
    exact hlt

theorem strict_encoding : encoding.Strict := ArrowIpc.strict_ofTable (by rw [segments_stored]; decide)

theorem there_and_back : stored.RoundTrips never encoding () ∧ stored.RefusesCuts never encoding () :=
  (roundTrips_iff strict_encoding represented_stored fun segment h =>
    (encodes segment h).imp fun _ => And.left).1.mpr framable_stored

end Stored

/-! ## The name of the bitmap -/

namespace Reserved

def reserved : CachedDataset Unit :=
  ((new ()).registerComponent ALIVE_BATCH_NAME ⟨[⟨"id", .uInt64, false⟩]⟩ 1).1

def encoding : ArrowIpc := .ofTable reserved.segments

/-- A component may be registered under the name of the bitmap, and it does not come back. -/
theorem reserved_lost : encoding.Strict ∧ reserved.Represented ∧ ¬ reserved.RoundTrips Stored.never encoding () := by
  have hstrict : encoding.Strict := ArrowIpc.strict_ofTable (by decide +kernel)
  have hrep : reserved.Represented := (represented_new ()).registerComponent _ _
  refine ⟨hstrict, hrep, fun htrips => ?_⟩
  exact (hrep.framable hstrict htrips).unreserved _ (List.mem_singleton_self _) rfl

end Reserved

end CachedDataset
end Saci
