import Saci.Library.Crc
import Saci.Consensus.SnapshotRoundTrip

/-!
# What the checksum of a snapshot detects

`crc32` is the register of `Crc.fold` over the bytes of the body. Bytes that are exchanged for
others within a window of the register's width change it, and the header check sees that.
-/

namespace Saci

/-- The polynomial of the checksum. -/
def crcPoly : BitVec 32 := 0xEDB88320

/-- A byte as a symbol for the register. -/
def crcSymbol (byte : UInt8) : BitVec 32 := byte.toUInt32.toBitVec

theorem crcShift_toBitVec (c : UInt32) : (crcShift c).toBitVec = Crc.shift crcPoly c.toBitVec := by
  have hlow : c &&& 1 ≠ 0 ↔ c.toBitVec.getLsbD 0 = true := by
    rw [← not_iff_not, not_not, Bool.not_eq_true, ← UInt32.toBitVec_inj, UInt32.toBitVec_and]
    change c.toBitVec &&& 1#32 = 0#32 ↔ _
    rw [BitVec.and_one_eq_setWidth_ofBool_getLsbD]
    cases c.toBitVec.getLsbD 0 <;> decide
  rw [crcShift, Crc.shift]
  by_cases h : c &&& 1 ≠ 0
  · rw [if_pos h, if_pos (hlow.mp h), UInt32.toBitVec_xor, UInt32.toBitVec_shiftRight]
    rfl
  · rw [if_neg h, if_neg (mt hlow.mpr h), UInt32.toBitVec_shiftRight]
    rfl

theorem iterate_crcShift_toBitVec (n : Nat) (c : UInt32) :
    (crcShift^[n] c).toBitVec = (Crc.shift crcPoly)^[n] c.toBitVec := by
  induction n generalizing c with
  | zero => rfl
  | succ n ih =>
    rw [Function.iterate_succ_apply, Function.iterate_succ_apply, ih, crcShift_toBitVec]

/-- The checksum is the register after all bytes, inverted. -/
theorem crc32_toBitVec (data : Bytes) :
    (crc32 data).toBitVec =
      Crc.fold crcPoly 8 0xFFFFFFFF#32 (data.map crcSymbol) ^^^ 0xFFFFFFFF#32 := by
  have hfold : ∀ c : UInt32,
      (data.foldl (fun crc byte => crcShift^[8] (crc ^^^ byte.toUInt32)) c).toBitVec =
        Crc.fold crcPoly 8 c.toBitVec (data.map crcSymbol) := by
    induction data with
    | nil => exact fun c => rfl
    | cons byte data ih =>
      intro c
      rw [List.foldl_cons, ih, iterate_crcShift_toBitVec, UInt32.toBitVec_xor]
      rfl
  rw [crc32, UInt32.toBitVec_xor, hfold]
  rfl

theorem crcSymbol_lt (byte : UInt8) : (crcSymbol byte).toNat < 2 ^ 8 := byte.toNat_lt

theorem crcSymbol_injective : Function.Injective crcSymbol := by
  intro a b h
  have hnat : (crcSymbol a).toNat = (crcSymbol b).toNat := congrArg BitVec.toNat h
  exact UInt8.toNat_inj.mp hnat

/-- Bodies that agree but for four bytes in a row, and have the same checksum, agree. -/
theorem eq_of_crc32_eq {before window window' after : Bytes} (hwindow : window.length ≤ 4)
    (hlen : window'.length = window.length)
    (h : crc32 (before ++ window' ++ after) = crc32 (before ++ window ++ after)) :
    window' = window := by
  have hregister := congrArg UInt32.toBitVec h
  rw [crc32_toBitVec, crc32_toBitVec, BitVec.xor_left_inj] at hregister
  simp only [List.map_append] at hregister
  refine crcSymbol_injective.list_map (Crc.fold_window (by decide) ?_ ?_ ?_ ?_ hregister)
  · rw [List.length_map, List.length_map, hlen]
  · rw [List.length_map, hlen]
    omega
  all_goals
    intro s hs
    obtain ⟨byte, -, rfl⟩ := List.mem_map.mp hs
    exact crcSymbol_lt byte

/-- The answer of the header check to a body whose checksum is not the stored one. -/
def crcMismatch (stored computed : UInt32) : String :=
  s!"snapshot CRC-32 mismatch: stored {hexU32 stored.toNat}, " ++
    s!"computed {hexU32 computed.toNat}"

/-- An accepted snapshot with another body is judged by the checksums of the two. -/
theorem stripHeader_exchanged {data body : Bytes} (h : stripHeader data = .ok body)
    (body' : Bytes) :
    stripHeader (data.take HEADER_LEN ++ body') =
      if crc32 body = crc32 body' then .ok body'
      else .error (crcMismatch (crc32 body) (crc32 body')) := by
  simp only [stripHeader] at h
  split_ifs at h with hshort hmagic hversion hcrc
  cases h
  rw [not_not] at hmagic hversion hcrc
  have hlen : (data.take HEADER_LEN).length = HEADER_LEN :=
    List.length_take_of_le (not_lt.mp hshort)
  have hmagic' : (data.take HEADER_LEN ++ body').take 8 = SNAPSHOT_MAGIC := by
    rw [List.take_append_of_le_length (by rw [hlen]; decide), List.take_take]
    exact hmagic
  have hfield : ∀ n, n + 4 ≤ HEADER_LEN →
      ((data.take HEADER_LEN ++ body').drop n).take 4 = (data.drop n).take 4 := by
    intro n hn
    rw [List.drop_append_of_le_length (by omega),
      List.take_append_of_le_length (by rw [List.length_drop]; omega), List.drop_take,
      List.take_take, Nat.min_eq_left (by omega)]
  rw [stripHeader, if_neg (by rw [List.length_append]; omega)]
  simp only [hmagic', hfield 8 (by decide), hfield 12 (by decide), hversion, hcrc,
    List.drop_left' hlen, ne_eq, not_true, if_false, UInt32.toNat_inj]
  by_cases heq : crc32 (data.drop HEADER_LEN) = crc32 body'
  · rw [if_neg (not_not.mpr heq), if_pos heq]
  · rw [if_pos heq, if_neg heq]
    rfl

/-- Whatever a window of four bytes is exchanged for, the checksum changes, and the header check
rejects the snapshot. -/
theorem exchanged_window_rejected (before window window' after : Bytes)
    (hwindow : window.length ≤ 4) (hlen : window'.length = window.length)
    (hne : window' ≠ window) :
    crc32 (before ++ window' ++ after) ≠ crc32 (before ++ window ++ after) ∧
      ∀ data, stripHeader data = .ok (before ++ window ++ after) →
        stripHeader (data.take HEADER_LEN ++ (before ++ window' ++ after)) =
          .error (crcMismatch (crc32 (before ++ window ++ after))
            (crc32 (before ++ window' ++ after))) := by
  have hcrc : crc32 (before ++ window' ++ after) ≠ crc32 (before ++ window ++ after) :=
    fun h => hne (eq_of_crc32_eq hwindow hlen h)
  refine ⟨hcrc, fun data hdata => ?_⟩
  rw [stripHeader_exchanged hdata, if_neg (Ne.symm hcrc)]

namespace SnapshotChecksum.Sample

theorem terminator_rejected :
    crc32 ([7, 7] ++ [0, 0, 1, 0] ++ []) ≠ crc32 ([7, 7] ++ [0, 0, 0, 0] ++ []) ∧
      stripHeader ((addHeader [7, 7, 0, 0, 0, 0]).take HEADER_LEN ++ [7, 7, 0, 0, 1, 0]) =
        .error (crcMismatch (crc32 [7, 7, 0, 0, 0, 0]) (crc32 [7, 7, 0, 0, 1, 0])) :=
  have h := exchanged_window_rejected [7, 7] [0, 0, 0, 0] [0, 0, 1, 0] [] (by decide) rfl
    (by decide)
  ⟨h.1, h.2 _ (stripHeader_addHeader _)⟩

end SnapshotChecksum.Sample

end Saci
