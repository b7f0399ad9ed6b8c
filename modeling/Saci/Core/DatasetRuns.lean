import Saci.Library.Run
import Saci.Core.IpcReads

/-!
# Runs over a dataset

Over any operations, successful or failed, a dataset stays represented as it should be exactly where each of
them keeps it so: no append has the merge it needs refused, no compaction stops behind a cached component, and
no stream that is read repeats a component with other fields (`represented_iff`).
-/

namespace Saci
namespace CachedDataset

variable {T V : Type} [DecidableEq T] {refuses : Schema → List RecordBatch → Option String} {arrow : ArrowIpc}
  {ds : CachedDataset (ResourceMap T V)}

/-- What an operation asks of the dataset it comes to. -/
def Keeps (refuses : Schema → List RecordBatch → Option String) (arrow : ArrowIpc)
    (ds : CachedDataset (ResourceMap T V)) : DatasetOp T V → Prop
  | .append conversion name values =>
    ∀ batch, conversion.toRecordBatch values = .ok batch → AppendKeepsAt refuses ds name batch
  | .appendRecordBatch name batch =>
    ∀ entry, ds.data.find name = some entry → AppendKeeps refuses ds entry.dropSentinel batch
  | .compact => CompactKeeps refuses ds
  | .readIpc bytes =>
    ∀ data : Dataset (ResourceMap T V), Dataset.readIpc arrow (fun _ => none) bytes = .ok data →
      Uniform (segmentsOf arrow bytes)
  | .register .. | .markDead _ | .clear | .replaceBatch .. | .applyWriteSet _ | .batchFor _ => True

omit [DecidableEq T] in
theorem Represented.readIpc_iff (h : ds.Represented) (bytes : Bytes) :
    (readIpc arrow (fun _ => none) ds bytes).1.Represented ↔
      ∀ data : Dataset (ResourceMap T V), Dataset.readIpc arrow (fun _ => none) bytes = .ok data →
        Uniform (segmentsOf arrow bytes) := by
  rw [CachedDataset.readIpc]
  cases hread : Dataset.readIpc arrow (fun _ => none : ResourceMap T V) bytes with
  | error e => exact iff_of_true h nofun
  | ok data =>
    refine (Dataset.represented_readIpc_iff hread).trans ?_
    exact ⟨fun huniform _ _ => huniform, fun hall => hall data rfl⟩

/-- One operation. -/
theorem Represented.apply_iff (h : ds.Represented) (op : DatasetOp T V) :
    (apply refuses arrow ds op).Represented ↔ Keeps refuses arrow ds op := by
  cases op with
  | register name schema version => exact iff_of_true (h.registerComponent schema version) trivial
  | append conversion name values => exact h.append_iff
  | appendRecordBatch name batch => exact h.appendRecordBatch_iff
  | markDead row => exact iff_of_true (h.markDead row) trivial
  | compact => exact h.compact_iff
  | clear => exact iff_of_true (h.clear _) trivial
  | replaceBatch name batch => exact iff_of_true (h.replaceBatch batch) trivial
  | applyWriteSet ws => exact iff_of_true (h.applyWriteSet ws) trivial
  | readIpc bytes => exact h.readIpc_iff bytes
  | batchFor name => exact iff_of_true (h.batchFor name).1 trivial

/-- Whatever is done to a new dataset, it is represented as it should be at every moment exactly where every
operation keeps it so. -/
theorem represented_iff (refuses : Schema → List RecordBatch → Option String) (arrow : ArrowIpc)
    (ops : List (DatasetOp T V)) :
    (∀ front, front <+: ops → (front.foldl (apply refuses arrow) (new fun _ => none)).Represented) ↔
      ∀ op before later, ops = before ++ op :: later →
        Keeps refuses arrow (before.foldl (apply refuses arrow) (new fun _ => none)) op :=
  foldl_invariant_iff (fun _ op h => h.apply_iff op) (represented_new _)

/-! ## A component that comes twice -/

namespace Repeated

def orders (type : DataType) (rows : List (List Cell)) : Segment :=
  ⟨some "Order", some 1, ⟨⟨[⟨"id", type, false⟩]⟩, rows⟩⟩

/-- The orders with numbers, the orders with texts, and the bitmap of one row. -/
def segments : List Segment :=
  [orders .uInt64 [[.int 7]], orders .utf8 [[.text "seven"]],
    ⟨some ALIVE_BATCH_NAME, none, ⟨⟨[⟨"alive", .boolean, false⟩]⟩, [[.bool true]]⟩⟩]

def stream : Bytes := frames [[0], [1], [2]] ++ terminator

def never : Schema → List RecordBatch → Option String := fun _ _ => none

def ops : List (DatasetOp Empty Empty) := [.readIpc stream]

/-- The stream is accepted, and the chunk does not have the schema that is registered. -/
theorem unrepresented :
    ¬ ∀ front, front <+: ops →
      (front.foldl (apply never (.ofTable segments)) (new fun _ => none)).Represented := by
  intro h
  have hrep := h ops (List.prefix_refl ops)
  have hread : (ops.foldl (apply never (.ofTable segments)) (new fun _ => none)).data.components =
      [⟨"Order", 1, (orders .uInt64 []).batch.schema, [(orders .utf8 [[.text "seven"]]).batch], none⟩] := by
    decide +kernel
  have hfits := hrep.fits _ (hread ▸ List.mem_singleton_self _)
  exact absurd (hfits.schema _ (List.mem_singleton_self _)) (by decide)

end Repeated

end CachedDataset
end Saci
