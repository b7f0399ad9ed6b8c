import Saci.Library.Cursor
import Saci.Connectors.Pgoutput

/-!
# What the decoder accepts

The layouts of the `pgoutput` messages as data (`WireMessage`), and the decoder against them: it
accepts exactly the bytes of one message (`parses_body`). It stores a `Relation` before it sees that
bytes are left over, so a message that is refused for these leaves the table changed
(`decodeLaw_iff`).
-/

namespace Saci.Pgoutput
open Reader

/-! ## Layouts -/

/-- An integer of so many bytes. -/
structure Field (width : Nat) where
  bytes : Bytes
  length_eq : bytes.length = width

/-- A string without a NUL. -/
structure Text where
  text : String
  noNul : (0 : UInt8) ∉ text.toByteArray.data.toList

/-- The marker of an old tuple: its key, or the whole of it. -/
inductive OldMarker
  | key
  | old

/-- The values of a tuple, whose count and lengths are not negative. -/
structure Tuple where
  values : List TupleValue
  count : values.length < 2 ^ 15
  lengths : ∀ bytes, .text bytes ∈ values ∨ .binary bytes ∈ values → bytes.length < 2 ^ 31

structure WireColumn where
  flags : UInt8
  name : Text
  typeOid : Field 4
  typeModifier : Field 4

inductive WireMessage
  | begin (finalLsn commitTs : Field 8) (xid : Field 4)
  | commit (flags : UInt8) (commitLsn endLsn commitTs : Field 8)
  | relation (relId : Field 4) (nspace name : Text) (replicaIdentity : UInt8)
      (columns : List WireColumn) (count : columns.length < 2 ^ 15)
  | type (typeId : Field 4) (nspace name : Text)
  | origin (commitLsn : Field 8) (name : Text)
  | insert (relId : Field 4) (new : Tuple)
  | update (relId : Field 4) (old : Option (OldMarker × Tuple)) (new : Tuple)
  | delete (relId : Field 4) (marker : OldMarker) (old : Tuple)
  | truncate (flags : UInt8) (relIds : List (Field 4)) (count : relIds.length < 2 ^ 31)

variable {width : Nat}

def Field.unsigned (field : Field width) : Nat := beValue field.bytes

def Field.signed (field : Field width) : Int := signedValue width field.unsigned

def Text.bytes (text : Text) : Bytes := text.text.toByteArray.data.toList ++ [0]

def OldMarker.byte : OldMarker → UInt8
  | .key => 0x4b
  | .old => 0x4f

def TupleValue.bytes : TupleValue → Bytes
  | .null => [0x6e]
  | .unchanged => [0x75]
  | .binary bytes => 0x62 :: (beBytes 4 bytes.length ++ bytes)
  | .text bytes => 0x74 :: (beBytes 4 bytes.length ++ bytes)

def Tuple.bytes (tuple : Tuple) : Bytes :=
  beBytes 2 tuple.values.length ++ tuple.values.flatMap TupleValue.bytes

def WireColumn.bytes (column : WireColumn) : Bytes :=
  column.flags :: (column.name.bytes ++ (column.typeOid.bytes ++ column.typeModifier.bytes))

def WireColumn.column (column : WireColumn) : RelationColumn :=
  ⟨column.name.text, column.typeOid.unsigned⟩

namespace WireMessage

/-- The bytes after the tag. -/
def tail : WireMessage → Bytes
  | begin finalLsn commitTs xid => finalLsn.bytes ++ (commitTs.bytes ++ xid.bytes)
  | commit flags commitLsn endLsn commitTs =>
    flags :: (commitLsn.bytes ++ (endLsn.bytes ++ commitTs.bytes))
  | relation relId nspace name replicaIdentity columns _ =>
    relId.bytes ++ (nspace.bytes ++ (name.bytes ++
      replicaIdentity :: (beBytes 2 columns.length ++ columns.flatMap WireColumn.bytes)))
  | type typeId nspace name => typeId.bytes ++ (nspace.bytes ++ name.bytes)
  | origin commitLsn name => commitLsn.bytes ++ name.bytes
  | insert relId new => relId.bytes ++ 0x4e :: new.bytes
  | update relId none new => relId.bytes ++ 0x4e :: new.bytes
  | update relId (some (marker, old)) new =>
    relId.bytes ++ marker.byte :: (old.bytes ++ 0x4e :: new.bytes)
  | delete relId marker old => relId.bytes ++ marker.byte :: old.bytes
  | truncate flags relIds _ =>
    beBytes 4 relIds.length ++ flags :: relIds.flatMap Field.bytes

def tag : WireMessage → UInt8
  | begin .. => 0x42
  | commit .. => 0x43
  | relation .. => 0x52
  | type .. => 0x59
  | origin .. => 0x4f
  | insert .. => 0x49
  | update .. => 0x55
  | delete .. => 0x44
  | truncate .. => 0x54

def encode (w : WireMessage) : Bytes := w.tag :: w.tail

/-- The fields and the new tuple that a message carries. -/
def message : WireMessage → Message
  | begin _ commitTs _ => .begin commitTs.signed
  | commit _ _ endLsn _ => .commit endLsn.signed
  | relation relId .. => .relation relId.unsigned
  | type .. => .metadata
  | origin .. => .metadata
  | insert relId new => .change relId.unsigned .insert new.values
  | update relId _ new => .change relId.unsigned .update new.values
  | delete relId _ old => .change relId.unsigned .delete old.values
  | truncate _ relIds _ => .truncate relIds.length

/-- What a `Relation` message declares; an empty namespace is the default one. -/
def declares : WireMessage → Option (Nat × Relation)
  | relation relId nspace name _ columns _ =>
    some (relId.unsigned,
      { nspace := if nspace.text.isEmpty then "public" else nspace.text
        name := name.text
        columns := columns.map WireColumn.column })
  | _ => none

/-- The table with what the message declares. -/
def store (w : WireMessage) (decoder : Decoder) : Decoder :=
  match w.declares with
  | some entry => ⟨entry :: decoder.relations⟩
  | none => decoder

end WireMessage

/-! ## The cursor -/

/-- The reader as a cursor over the bytes that remain. -/
def cursor : Cursor Reader UInt8 where
  rest reader := reader.raw.drop reader.pos
  skip n reader := ⟨reader.raw, reader.pos + n⟩
  Inside reader := reader.pos ≤ reader.raw.length
  rest_skip n reader := by rw [List.drop_drop]
  skip_skip n m reader := by rw [Nat.add_assoc]
  skip_zero _ := rfl
  inside_skip n reader hin hle := by
    rw [List.length_drop] at hle
    dsimp only
    omega

theorem parses_take (n : Nat) :
    cursor.Parses (take n) fun bytes front => front = bytes ∧ bytes.length = n := by
  intro reader bytes after hin
  have hrest : (cursor.rest reader).length = reader.raw.length - reader.pos := List.length_drop
  have hinside : reader.pos ≤ reader.raw.length := hin
  have hrun : (take n).run reader =
      if reader.raw.length < reader.pos + n then .error (reader.truncated n)
      else .ok ((cursor.rest reader).take n, cursor.skip n reader) := by
    by_cases hshort : reader.raw.length < reader.pos + n
    · simp [take, hshort]
      rfl
    · simp [take, hshort]
      rfl
  rw [hrun]
  constructor
  · intro h
    split_ifs at h with hshort
    cases h
    have hlen : ((cursor.rest reader).take n).length = n := by
      rw [List.length_take, hrest]
      omega
    exact ⟨_, ⟨rfl, hlen⟩, List.take_prefix _ _, by rw [hlen]⟩
  · rintro ⟨_, ⟨rfl, rfl⟩, hpre, rfl⟩
    have hle := hpre.length_le
    rw [hrest] at hle
    rw [if_neg (by omega), ← List.prefix_iff_eq_take.mp hpre]

theorem parses_field (width : Nat) :
    cursor.Parses (take width) fun bytes front =>
      ∃ field : Field width, bytes = field.bytes ∧ front = field.bytes := by
  refine (parses_take width).congr fun bytes front => ?_
  constructor
  · rintro ⟨rfl, hlen⟩
    exact ⟨⟨_, hlen⟩, rfl, rfl⟩
  · rintro ⟨field, rfl, rfl⟩
    exact ⟨rfl, field.length_eq⟩

theorem parses_signed (width : Nat) :
    cursor.Parses (signed width) fun value front =>
      ∃ field : Field width, value = field.signed ∧ front = field.bytes :=
  .map_written _ (parses_field width)

theorem parses_u32 :
    cursor.Parses u32 fun value front =>
      ∃ field : Field 4, value = field.unsigned ∧ front = field.bytes :=
  .map_written _ (parses_field 4)

theorem parses_byte :
    cursor.Parses byte fun value front => ∃ b : UInt8, value = b ∧ front = [b] := by
  refine (Cursor.Parses.map_written (fun bytes : Bytes => bytes.headD 0) (parses_field 1)).congr
    fun value front => ?_
  constructor
  · rintro ⟨⟨bytes, hlen⟩, rfl, rfl⟩
    obtain ⟨b, rfl⟩ := List.length_eq_one_iff.mp hlen
    exact ⟨b, rfl, rfl⟩
  · rintro ⟨_, rfl, rfl⟩
    exact ⟨⟨[value], rfl⟩, rfl, rfl⟩

theorem fromUTF8?_eq_some_iff {bytes : Bytes} {text : String} :
    String.fromUTF8? ⟨bytes.toArray⟩ = some text ↔ bytes = text.toByteArray.data.toList := by
  constructor
  · intro h
    rw [String.fromUTF8?] at h
    split_ifs at h with hvalid
    cases h
    rfl
  · rintro rfl
    exact dif_pos text.isValidUTF8

/-- The first NUL is the one that ends the string. -/
theorem findIdx?_nul {text more : Bytes} (h : (0 : UInt8) ∉ text) :
    (text ++ 0 :: more).findIdx? (· = 0) = some text.length := by
  induction text with
  | nil => rfl
  | cons b text ih =>
    rw [List.mem_cons, not_or] at h
    rw [List.cons_append, List.findIdx?_cons, decide_eq_false (Ne.symm h.1), ih h.2]
    rfl

theorem exists_of_findIdx? {bytes : Bytes} {n : Nat} (h : bytes.findIdx? (· = 0) = some n) :
    (0 : UInt8) ∉ bytes.take n ∧ ∃ more, bytes = bytes.take n ++ 0 :: more := by
  obtain ⟨hlt, hnul, hbefore⟩ := List.findIdx?_eq_some_iff_getElem.mp h
  refine ⟨fun hmem => ?_, bytes.drop (n + 1), ?_⟩
  · obtain ⟨i, hi, hzero⟩ := List.getElem_of_mem hmem
    rw [List.length_take] at hi
    rw [List.getElem_take] at hzero
    exact hbefore i (by omega) (decide_eq_true hzero)
  · rw [← of_decide_eq_true hnul, ← List.drop_eq_getElem_cons hlt, List.take_append_drop]

theorem parses_cstring :
    cursor.Parses cstring fun value front =>
      ∃ text : Text, value = text.text ∧ front = text.bytes := by
  intro reader value after hin
  have hrun : cstring.run reader =
      ((cursor.rest reader).findIdx? (· = 0)).elim
        (.error (.generic s!"pgoutput: unterminated string at offset {reader.pos}")) fun length =>
          (String.fromUTF8? ⟨((cursor.rest reader).take length).toArray⟩).elim
            (.error (.generic s!"pgoutput: string at offset {reader.pos} is not valid UTF-8"))
            fun text => .ok (text, cursor.skip (length + 1) reader) := by
    have hrest : reader.raw.drop reader.pos = cursor.rest reader := rfl
    rw [cstring, StateT.run_bind, StateT.run_get, pure_bind]
    dsimp only
    rw [hrest]
    cases (cursor.rest reader).findIdx? (· = 0) with
    | none => rfl
    | some n =>
      dsimp only [Option.elim_some]
      cases String.fromUTF8? ⟨((cursor.rest reader).take n).toArray⟩ <;> rfl
  rw [hrun]
  constructor
  · intro h
    rcases hfind : (cursor.rest reader).findIdx? (· = 0) with _ | n
    · rw [hfind] at h
      cases h
    rw [hfind, Option.elim_some] at h
    obtain ⟨hnul, more, hmore⟩ := exists_of_findIdx? hfind
    have hlen : ((cursor.rest reader).take n).length = n :=
      List.length_take_of_le (List.findIdx?_eq_some_iff_findIdx_eq.mp hfind).1.le
    rcases htext : String.fromUTF8? ⟨((cursor.rest reader).take n).toArray⟩ with _ | text
    · rw [htext] at h
      cases h
    rw [htext] at h
    cases h
    rw [fromUTF8?_eq_some_iff] at htext
    rw [htext] at hnul hmore hlen
    refine ⟨_, ⟨⟨value, hnul⟩, rfl, rfl⟩, ⟨more, ?_⟩, ?_⟩
    · rw [hmore, Text.bytes, List.append_assoc]
      rfl
    · rw [Text.bytes, List.length_append, hlen]
      rfl
  · rintro ⟨_, ⟨text, rfl, rfl⟩, ⟨more, hmore⟩, rfl⟩
    rw [Text.bytes, List.append_assoc] at hmore
    have hfind := @findIdx?_nul _ more text.noNul
    rw [← hmore]
    rw [show ([0] ++ more : Bytes) = 0 :: more from rfl, hfind, Option.elim_some]
    rw [List.take_left, fromUTF8?_eq_some_iff.mpr rfl, Text.bytes, List.length_append]
    rfl

/-! ## Counts -/

/-- The number that is written in so many bytes. -/
def Field.ofNat (width n : Nat) : Field width := ⟨beBytes width n, length_beBytes width n⟩

theorem Field.unsigned_ofNat {n : Nat} (h : n < 256 ^ width) : (ofNat width n).unsigned = n :=
  (beValue_beBytes width n).trans (Nat.mod_eq_of_lt h)

theorem Field.bytes_eq (field : Field width) : field.bytes = beBytes width field.unsigned := by
  obtain ⟨bytes, rfl⟩ := field
  exact (beBytes_beValue bytes).symm

/-- A signed number that is not negative is its own unsigned value. -/
theorem Field.signed_of_nonneg {field : Field width} (h : ¬field.signed < 0) :
    2 * field.unsigned < 256 ^ width ∧ field.signed.toNat = field.unsigned := by
  have hlt : field.unsigned < 256 ^ width := by
    obtain ⟨bytes, rfl⟩ := field
    exact beValue_lt bytes
  rw [signed, signedValue] at h ⊢
  split_ifs at h ⊢ with hhalf
  · exact ⟨hhalf, Int.toNat_natCast _⟩
  · have hneg : (field.unsigned : Int) - 256 ^ width < 0 := by
      have hcast : (field.unsigned : Int) < ((256 ^ width : Nat) : Int) := Int.ofNat_lt.mpr hlt
      rw [Nat.cast_pow] at hcast
      exact Int.sub_neg_of_lt hcast
    exact absurd hneg h

theorem Field.signed_ofNat {n : Nat} (h : 2 * n < 256 ^ width) :
    (ofNat width n).signed = n := by
  rw [signed, unsigned_ofNat (by omega), signedValue, if_pos h]

/-- Things after their count, which is a signed number. -/
theorem parses_counted {α : Type} {p : Nat → ReadM α} {e : Int → SaciError}
    {spells : Nat → α → Bytes → Prop} (hp : ∀ n, cursor.Parses (p n) (spells n)) :
    cursor.Parses
      (do
        let count ← signed width
        if count < 0 then throw (e count)
        p count.toNat)
      fun a front => ∃ n y, 2 * n < 256 ^ width ∧ front = beBytes width n ++ y ∧ spells n a y := by
  refine (Cursor.Parses.bind_written (parses_signed width) fun field =>
    Cursor.Parses.guard fun _ => hp field.signed.toNat).congr fun a front => ?_
  constructor
  · rintro ⟨field, y, rfl, hnonneg, hy⟩
    obtain ⟨hhalf, hnat⟩ := Field.signed_of_nonneg hnonneg
    exact ⟨field.unsigned, y, hhalf, by rw [field.bytes_eq], hnat ▸ hy⟩
  · rintro ⟨n, y, hhalf, rfl, hy⟩
    have hsigned := Field.signed_ofNat hhalf
    refine ⟨.ofNat width n, y, rfl, ?_, ?_⟩
    · rw [hsigned]
      exact not_lt.mpr (Int.natCast_nonneg n)
    · rw [hsigned, Int.toNat_natCast]
      exact hy

/-! ## Tuples -/

theorem asChar_inj {b c : UInt8} (h : asChar b = asChar c) : b = c := by
  have hnat : ∀ b : UInt8, (asChar b).toNat = b.toNat := by
    intro b
    have hvalid : b.toNat.isValidChar := .inl (b.toNat_lt.trans (by decide))
    rw [asChar, Char.ofNat, dif_pos hvalid]
    rfl
  exact UInt8.toNat_inj.mp ((hnat b).symm.trans ((congrArg Char.toNat h).trans (hnat c)))

/-- The length of a value is an `i32`. -/
def TupleValue.Fits (value : TupleValue) : Prop :=
  ∀ bytes, value = .text bytes ∨ value = .binary bytes → bytes.length < 2 ^ 31

theorem TupleValue.fits_null : null.Fits := by
  rintro _ (h | h) <;> cases h

theorem TupleValue.fits_unchanged : unchanged.Fits := by
  rintro _ (h | h) <;> cases h

theorem TupleValue.fits_text {bytes : Bytes} : (text bytes).Fits ↔ bytes.length < 2 ^ 31 := by
  refine ⟨fun h => h bytes (.inl rfl), fun h => ?_⟩
  rintro _ (heq | heq) <;> cases heq
  exact h

theorem TupleValue.fits_binary {bytes : Bytes} : (binary bytes).Fits ↔ bytes.length < 2 ^ 31 := by
  refine ⟨fun h => h bytes (.inr rfl), fun h => ?_⟩
  rintro _ (heq | heq) <;> cases heq
  exact h

theorem parses_value (index : Nat) :
    cursor.Parses (tupleValue.value index) fun bytes front =>
      ∃ t : { bytes : Bytes // bytes.length < 2 ^ 31 },
        bytes = t.1 ∧ front = beBytes 4 t.1.length ++ t.1 := by
  refine (parses_counted fun n => parses_take n).congr fun bytes front => ?_
  constructor
  · rintro ⟨n, y, hhalf, rfl, rfl, rfl⟩
    exact ⟨⟨y, by omega⟩, rfl, rfl⟩
  · rintro ⟨⟨_, hlen⟩, rfl, rfl⟩
    exact ⟨bytes.length, bytes, by omega, rfl, rfl, rfl⟩

theorem parses_tupleValue (index : Nat) :
    cursor.Parses (tupleValue index) fun value front =>
      ∃ t : { value : TupleValue // value.Fits }, value = t.1 ∧ front = t.1.bytes := by
  have hkinds : cursor.Parses (tupleValue index) fun value front =>
      ∃ kind y, front = [kind] ++ y ∧ value.Fits ∧ kind :: y = value.bytes := by
    refine Cursor.Parses.bind_written parses_byte fun kind => ?_
    split
    case h_1 h =>
      obtain rfl : kind = 0x6e := asChar_inj h
      refine (Cursor.Parses.pure _).congr fun value front => ?_
      constructor
      · rintro ⟨rfl, rfl⟩
        exact ⟨TupleValue.fits_null, rfl⟩
      · rintro ⟨-, hbytes⟩
        cases value <;> simp [TupleValue.bytes] at hbytes
        exact ⟨rfl, hbytes⟩
    case h_2 h =>
      obtain rfl : kind = 0x75 := asChar_inj h
      refine (Cursor.Parses.pure _).congr fun value front => ?_
      constructor
      · rintro ⟨rfl, rfl⟩
        exact ⟨TupleValue.fits_unchanged, rfl⟩
      · rintro ⟨-, hbytes⟩
        cases value <;> simp [TupleValue.bytes] at hbytes
        exact ⟨rfl, hbytes⟩
    case h_3 h =>
      obtain rfl : kind = 0x74 := asChar_inj h
      refine (Cursor.Parses.map_written TupleValue.text (parses_value index)).congr
        fun value front => ?_
      constructor
      · rintro ⟨⟨bytes, hlen⟩, rfl, rfl⟩
        exact ⟨TupleValue.fits_text.mpr hlen, rfl⟩
      · rintro ⟨hfits, hbytes⟩
        cases value <;> simp [TupleValue.bytes] at hbytes
        exact ⟨⟨_, TupleValue.fits_text.mp hfits⟩, rfl, hbytes⟩
    case h_4 h =>
      obtain rfl : kind = 0x62 := asChar_inj h
      refine (Cursor.Parses.map_written TupleValue.binary (parses_value index)).congr
        fun value front => ?_
      constructor
      · rintro ⟨⟨bytes, hlen⟩, rfl, rfl⟩
        exact ⟨TupleValue.fits_binary.mpr hlen, rfl⟩
      · rintro ⟨hfits, hbytes⟩
        cases value <;> simp [TupleValue.bytes] at hbytes
        exact ⟨⟨_, TupleValue.fits_binary.mp hfits⟩, rfl, hbytes⟩
    case h_5 hn hu ht hb =>
      refine (Cursor.Parses.throw _).congr fun value front => ?_
      refine iff_of_false id ?_
      rintro ⟨-, hbytes⟩
      cases value with
      | null => exact hn (congrArg asChar (List.cons.inj hbytes).1)
      | unchanged => exact hu (congrArg asChar (List.cons.inj hbytes).1)
      | binary => exact hb (congrArg asChar (List.cons.inj hbytes).1)
      | text => exact ht (congrArg asChar (List.cons.inj hbytes).1)
  refine hkinds.congr fun value front => ?_
  constructor
  · rintro ⟨kind, y, rfl, hfits, hbytes⟩
    exact ⟨⟨value, hfits⟩, rfl, hbytes⟩
  · rintro ⟨⟨value, hfits⟩, rfl, rfl⟩
    obtain ⟨kind, y, hbytes⟩ : ∃ kind y, value.bytes = kind :: y := by
      cases value <;> exact ⟨_, _, rfl⟩
    exact ⟨kind, y, hbytes, hfits, hbytes.symm⟩

theorem parses_tupleValues (count index : Nat) :
    cursor.Parses (tupleValues index count) fun values front =>
      values.length = count ∧ (∀ value ∈ values, value.Fits) ∧
        front = values.flatMap TupleValue.bytes := by
  induction count generalizing index with
  | zero =>
    refine (Cursor.Parses.pure []).congr fun values front => ?_
    constructor
    · rintro ⟨rfl, rfl⟩
      exact ⟨rfl, nofun, rfl⟩
    · rintro ⟨hlen, -, rfl⟩
      rw [List.length_eq_zero_iff.mp hlen]
      exact ⟨rfl, rfl⟩
  | succ count ih =>
    refine (Cursor.Parses.bind_written (parses_tupleValue index) fun t =>
      (ih (index + 1)).bind fun values => .pure (t.1 :: values)).congr fun values front => ?_
    constructor
    · rintro ⟨⟨value, hfits⟩, _, rfl, rest, _, _, rfl, ⟨rfl, hall, rfl⟩, rfl, rfl⟩
      refine ⟨rfl, List.forall_mem_cons.mpr ⟨hfits, hall⟩, ?_⟩
      rw [List.append_nil, List.flatMap_cons]
    · rintro ⟨hlen, hall, rfl⟩
      obtain ⟨value, rest, rfl⟩ := List.exists_cons_of_length_eq_add_one hlen
      obtain ⟨hfits, hrest⟩ := List.forall_mem_cons.mp hall
      exact ⟨⟨value, hfits⟩, _, List.flatMap_cons, rest, _, [], (List.append_nil _).symm,
        ⟨Nat.succ.inj hlen, hrest, rfl⟩, rfl, rfl⟩

theorem parses_tuple :
    cursor.Parses tuple fun values front =>
      ∃ t : Tuple, values = t.values ∧ front = t.bytes := by
  refine (parses_counted fun n => parses_tupleValues n 0).congr fun values front => ?_
  constructor
  · rintro ⟨n, _, hhalf, rfl, rfl, hall, rfl⟩
    refine ⟨⟨values, by omega, fun bytes hmem => ?_⟩, rfl, rfl⟩
    rcases hmem with hmem | hmem
    · exact hall _ hmem bytes (.inl rfl)
    · exact hall _ hmem bytes (.inr rfl)
  · rintro ⟨⟨_, hcount, hlengths⟩, rfl, rfl⟩
    refine ⟨values.length, _, by omega, rfl, rfl, fun value hmem bytes hvalue => ?_, rfl⟩
    rcases hvalue with rfl | rfl
    · exact hlengths bytes (.inl hmem)
    · exact hlengths bytes (.inr hmem)

/-! ## Relations -/

theorem parses_relationColumns (count : Nat) :
    cursor.Parses (relationColumns count) fun columns front =>
      ∃ written : List WireColumn, written.length = count ∧
        columns = written.map WireColumn.column ∧ front = written.flatMap WireColumn.bytes := by
  induction count with
  | zero =>
    refine (Cursor.Parses.pure []).congr fun columns front => ?_
    constructor
    · rintro ⟨rfl, rfl⟩
      exact ⟨[], rfl, rfl, rfl⟩
    · rintro ⟨written, hlen, rfl, rfl⟩
      rw [List.length_eq_zero_iff.mp hlen]
      exact ⟨rfl, rfl⟩
  | succ count ih =>
    refine (Cursor.Parses.bind_written parses_byte fun flags =>
      Cursor.Parses.bind_written parses_cstring fun name =>
      Cursor.Parses.bind_written parses_u32 fun typeOid =>
      Cursor.Parses.bind_written (parses_signed 4) fun typeModifier =>
      ih.bind fun rest => .pure (⟨name.text, typeOid.unsigned⟩ :: rest)).congr
      fun columns front => ?_
    constructor
    · rintro ⟨flags, _, rfl, name, _, rfl, typeOid, _, rfl, typeModifier, _, rfl, _, _, _, rfl,
        ⟨written, rfl, rfl, rfl⟩, rfl, rfl⟩
      refine ⟨⟨flags, name, typeOid, typeModifier⟩ :: written, rfl, rfl, ?_⟩
      simp [WireColumn.bytes]
    · rintro ⟨written, hlen, rfl, rfl⟩
      obtain ⟨column, rest, rfl⟩ := List.exists_cons_of_length_eq_add_one hlen
      refine ⟨column.flags, _, ?_, column.name, _, rfl, column.typeOid, _, rfl,
        column.typeModifier, _, rfl, rest.map WireColumn.column,
        rest.flatMap WireColumn.bytes, [], rfl, ⟨rest, Nat.succ.inj hlen, rfl, rfl⟩, rfl, rfl⟩
      simp [WireColumn.bytes]

theorem parses_skipRelations (count : Nat) :
    cursor.Parses (skipRelations count) fun _ front =>
      ∃ relIds : List (Field 4), relIds.length = count ∧ front = relIds.flatMap Field.bytes := by
  induction count with
  | zero =>
    refine (Cursor.Parses.pure ()).congr fun _ front => ?_
    constructor
    · rintro ⟨-, rfl⟩
      exact ⟨[], rfl, rfl⟩
    · rintro ⟨relIds, hlen, rfl⟩
      rw [List.length_eq_zero_iff.mp hlen]
      exact ⟨rfl, rfl⟩
  | succ count ih =>
    refine (Cursor.Parses.bind_written parses_u32 fun _ => ih).congr fun _ front => ?_
    constructor
    · rintro ⟨relId, _, rfl, relIds, rfl, rfl⟩
      exact ⟨relId :: relIds, rfl, List.flatMap_cons.symm⟩
    · rintro ⟨relIds, hlen, rfl⟩
      obtain ⟨relId, rest, rfl⟩ := List.exists_cons_of_length_eq_add_one hlen
      exact ⟨relId, _, List.flatMap_cons, rest, Nat.succ.inj hlen, rfl⟩

theorem OldMarker.exists_byte_iff {marker : UInt8} :
    (asChar marker = 'K' ∨ asChar marker = 'O') ↔ ∃ m : OldMarker, m.byte = marker := by
  constructor
  · rintro (h | h)
    · exact ⟨.key, (asChar_inj (h.trans (by decide : 'K' = asChar 0x4b))).symm⟩
    · exact ⟨.old, (asChar_inj (h.trans (by decide : 'O' = asChar 0x4f))).symm⟩
  · rintro ⟨m, rfl⟩
    cases m
    · exact .inl (by decide)
    · exact .inr (by decide)

/-- The marker of the new tuple, with an old tuple before it or without. -/
theorem parses_newMarker :
    cursor.Parses Decoder.body.newMarker fun marker front =>
      (∃ (m : OldMarker) (old : Tuple), front = m.byte :: (old.bytes ++ [marker])) ∨
        (∀ m : OldMarker, m.byte ≠ marker) ∧ front = [marker] := by
  have hfirst : cursor.Parses Decoder.body.newMarker fun marker front =>
      ∃ first y, front = [first] ++ y ∧
        ((∃ m : OldMarker, m.byte = first) ∧ (∃ old : Tuple, y = old.bytes ++ [marker]) ∨
          (∀ m : OldMarker, m.byte ≠ first) ∧ marker = first ∧ y = []) := by
    refine Cursor.Parses.bind_written parses_byte fun first => ?_
    split_ifs with hold
    · refine (Cursor.Parses.bind_written parses_tuple fun _ => parses_byte).congr
        fun marker front => ?_
      have hm := OldMarker.exists_byte_iff.mp hold
      constructor
      · rintro ⟨old, _, rfl, _, rfl, rfl⟩
        exact .inl ⟨hm, old, rfl⟩
      · rintro (⟨-, old, rfl⟩ | ⟨hnone, -⟩)
        · exact ⟨old, _, rfl, marker, rfl, rfl⟩
        · exact absurd hm.choose_spec (hnone _)
    · have hm : ∀ m : OldMarker, m.byte ≠ first := fun m heq =>
        hold (OldMarker.exists_byte_iff.mpr ⟨m, heq⟩)
      refine (Cursor.Parses.pure first).congr fun marker front => ?_
      constructor
      · rintro ⟨rfl, rfl⟩
        exact .inr ⟨hm, rfl, rfl⟩
      · rintro (⟨⟨m, heq⟩, -⟩ | ⟨-, rfl, rfl⟩)
        · exact absurd heq (hm m)
        · exact ⟨rfl, rfl⟩
  refine hfirst.congr fun marker front => ?_
  constructor
  · rintro ⟨_, _, rfl, ⟨⟨m, rfl⟩, old, rfl⟩ | ⟨hnone, rfl, rfl⟩⟩
    · exact .inl ⟨m, old, rfl⟩
    · exact .inr ⟨hnone, rfl⟩
  · rintro (⟨m, old, rfl⟩ | ⟨hnone, rfl⟩)
    · exact ⟨m.byte, _, rfl, .inl ⟨⟨m, rfl⟩, old, rfl⟩⟩
    · exact ⟨marker, [], rfl, .inr ⟨hnone, rfl, rfl⟩⟩

/-! ## Messages -/

/-- What the body of a message with a tag has to be, and what comes of it. -/
def SpellsBody (decoder : Decoder) (tag : UInt8) (result : Message × Decoder) (front : Bytes) :
    Prop :=
  ∃ w : WireMessage, w.tag = tag ∧ w.tail = front ∧ result = (w.message, w.store decoder)

theorem parses_relationBody (decoder : Decoder) :
    cursor.Parses (decoder.body 0x52) (SpellsBody decoder 0x52) := by
  have hcolumns : ∀ (relId : Nat) (nspace name : String) (count : Nat), cursor.Parses
      (do
        let columns ← relationColumns count
        let relation := { nspace := if nspace.isEmpty then "public" else nspace, name, columns }
        return (Message.relation relId, (⟨(relId, relation) :: decoder.relations⟩ : Decoder)))
      fun result front => ∃ written : List WireColumn, written.length = count ∧
        front = written.flatMap WireColumn.bytes ∧
        result = (.relation relId, ⟨(relId,
          { nspace := if nspace.isEmpty then "public" else nspace
            name := name
            columns := written.map WireColumn.column }) :: decoder.relations⟩) := by
    intro relId nspace name count
    refine ((parses_relationColumns count).bind fun columns => .pure _).congr
      fun result front => ?_
    constructor
    · rintro ⟨_, _, _, rfl, ⟨written, hlen, rfl, rfl⟩, rfl, rfl⟩
      exact ⟨written, hlen, List.append_nil _, rfl⟩
    · rintro ⟨written, hlen, rfl, rfl⟩
      exact ⟨_, _, [], (List.append_nil _).symm, ⟨written, hlen, rfl, rfl⟩, rfl, rfl⟩
  refine (Cursor.Parses.bind_written parses_u32 fun relId =>
    Cursor.Parses.bind_written parses_cstring fun nspace =>
    Cursor.Parses.bind_written parses_cstring fun name =>
    Cursor.Parses.bind_written parses_byte fun replicaIdentity =>
    parses_counted (hcolumns relId.unsigned nspace.text name.text)).congr fun result front => ?_
  constructor
  · rintro ⟨relId, _, rfl, nspace, _, rfl, name, _, rfl, replicaIdentity, _, rfl, _, _, hhalf,
      rfl, columns, rfl, rfl, rfl⟩
    exact ⟨.relation relId nspace name replicaIdentity columns (by omega), rfl, rfl, rfl⟩
  · rintro ⟨w, htag, rfl, rfl⟩
    cases w with
    | relation relId nspace name replicaIdentity columns count =>
      exact ⟨relId, _, rfl, nspace, _, rfl, name, _, rfl, replicaIdentity, _, rfl,
        columns.length, _, by omega, rfl, columns, rfl, rfl, rfl⟩
    | _ => simp [WireMessage.tag] at htag

theorem parses_beginBody (decoder : Decoder) :
    cursor.Parses (decoder.body 0x42) (SpellsBody decoder 0x42) := by
  refine (Cursor.Parses.bind_written (parses_signed 8) fun finalLsn =>
    Cursor.Parses.bind_written (parses_signed 8) fun commitTs =>
    Cursor.Parses.bind_written (parses_signed 4) fun xid =>
    .pure (Message.begin commitTs.signed, decoder)).congr fun result front => ?_
  constructor
  · rintro ⟨finalLsn, _, rfl, commitTs, _, rfl, xid, _, rfl, rfl, rfl⟩
    exact ⟨.begin finalLsn commitTs xid, rfl, by simp [WireMessage.tail], rfl⟩
  · rintro ⟨w, htag, rfl, rfl⟩
    cases w with
    | begin finalLsn commitTs xid =>
      exact ⟨finalLsn, _, rfl, commitTs, _, rfl, xid, [], (List.append_nil _).symm, rfl, rfl⟩
    | _ => simp [WireMessage.tag] at htag

theorem parses_commitBody (decoder : Decoder) :
    cursor.Parses (decoder.body 0x43) (SpellsBody decoder 0x43) := by
  refine (Cursor.Parses.bind_written parses_byte fun flags =>
    Cursor.Parses.bind_written (parses_signed 8) fun commitLsn =>
    Cursor.Parses.bind_written (parses_signed 8) fun endLsn =>
    Cursor.Parses.bind_written (parses_signed 8) fun commitTs =>
    .pure (Message.commit endLsn.signed, decoder)).congr fun result front => ?_
  constructor
  · rintro ⟨flags, _, rfl, commitLsn, _, rfl, endLsn, _, rfl, commitTs, _, rfl, rfl, rfl⟩
    exact ⟨.commit flags commitLsn endLsn commitTs, rfl, by simp [WireMessage.tail], rfl⟩
  · rintro ⟨w, htag, rfl, rfl⟩
    cases w with
    | commit flags commitLsn endLsn commitTs =>
      exact ⟨flags, _, rfl, commitLsn, _, rfl, endLsn, _, rfl, commitTs, [],
        (List.append_nil _).symm, rfl, rfl⟩
    | _ => simp [WireMessage.tag] at htag

theorem parses_typeBody (decoder : Decoder) :
    cursor.Parses (decoder.body 0x59) (SpellsBody decoder 0x59) := by
  refine (Cursor.Parses.bind_written parses_u32 fun typeId =>
    Cursor.Parses.bind_written parses_cstring fun nspace =>
    Cursor.Parses.bind_written parses_cstring fun name =>
    .pure (Message.metadata, decoder)).congr fun result front => ?_
  constructor
  · rintro ⟨typeId, _, rfl, nspace, _, rfl, name, _, rfl, rfl, rfl⟩
    exact ⟨.type typeId nspace name, rfl, by simp [WireMessage.tail], rfl⟩
  · rintro ⟨w, htag, rfl, rfl⟩
    cases w with
    | type typeId nspace name =>
      exact ⟨typeId, _, rfl, nspace, _, rfl, name, [], (List.append_nil _).symm, rfl, rfl⟩
    | _ => simp [WireMessage.tag] at htag

theorem parses_originBody (decoder : Decoder) :
    cursor.Parses (decoder.body 0x4f) (SpellsBody decoder 0x4f) := by
  refine (Cursor.Parses.bind_written (parses_signed 8) fun commitLsn =>
    Cursor.Parses.bind_written parses_cstring fun name =>
    .pure (Message.metadata, decoder)).congr fun result front => ?_
  constructor
  · rintro ⟨commitLsn, _, rfl, name, _, rfl, rfl, rfl⟩
    exact ⟨.origin commitLsn name, rfl, by simp [WireMessage.tail], rfl⟩
  · rintro ⟨w, htag, rfl, rfl⟩
    cases w with
    | origin commitLsn name =>
      exact ⟨commitLsn, _, rfl, name, [], (List.append_nil _).symm, rfl, rfl⟩
    | _ => simp [WireMessage.tag] at htag

/-- The tuple that a change ends with. -/
theorem parses_change (decoder : Decoder) (relId : Nat) (operation : Operation) :
    cursor.Parses (do return (.change relId operation (← tuple), decoder))
      fun (result : Message × Decoder) front =>
        ∃ t : Tuple, result = (.change relId operation t.values, decoder) ∧ front = t.bytes :=
  .map_written (fun values => (Message.change relId operation values, decoder)) parses_tuple

theorem asChar_eq_N_iff {marker : UInt8} : asChar marker = 'N' ↔ marker = 0x4e :=
  ⟨fun h => asChar_inj (h.trans (by decide : 'N' = asChar 0x4e)), fun h => h ▸ by decide⟩

theorem parses_insertBody (decoder : Decoder) :
    cursor.Parses (decoder.body 0x49) (SpellsBody decoder 0x49) := by
  refine (Cursor.Parses.bind_written parses_u32 fun relId =>
    Cursor.Parses.bind_written parses_byte fun marker =>
    Cursor.Parses.guard fun _ => parses_change decoder relId.unsigned .insert).congr
    fun result front => ?_
  constructor
  · rintro ⟨relId, _, rfl, marker, _, rfl, hmarker, new, rfl, rfl⟩
    obtain rfl := asChar_eq_N_iff.mp (not_not.mp hmarker)
    exact ⟨.insert relId new, rfl, rfl, rfl⟩
  · rintro ⟨w, htag, rfl, rfl⟩
    cases w with
    | insert relId new =>
      exact ⟨relId, _, rfl, 0x4e, _, rfl, not_not.mpr (asChar_eq_N_iff.mpr rfl), new, rfl, rfl⟩
    | _ => simp [WireMessage.tag] at htag

theorem parses_updateBody (decoder : Decoder) :
    cursor.Parses (decoder.body 0x55) (SpellsBody decoder 0x55) := by
  refine (Cursor.Parses.bind_written parses_u32 fun relId =>
    parses_newMarker.bind fun marker =>
    Cursor.Parses.guard fun _ => parses_change decoder relId.unsigned .update).congr
    fun result front => ?_
  constructor
  · rintro ⟨relId, _, rfl, marker, _, _, rfl, hfirst, hmarker, new, rfl, rfl⟩
    obtain rfl := asChar_eq_N_iff.mp (not_not.mp hmarker)
    rcases hfirst with ⟨m, old, rfl⟩ | ⟨-, rfl⟩
    · exact ⟨.update relId (some (m, old)) new, rfl, by simp [WireMessage.tail], rfl⟩
    · exact ⟨.update relId none new, rfl, rfl, rfl⟩
  · rintro ⟨w, htag, rfl, rfl⟩
    have hmarker : ¬asChar 0x4e ≠ 'N' := not_not.mpr (asChar_eq_N_iff.mpr rfl)
    cases w with
    | update relId old new =>
      rcases old with _ | ⟨m, old⟩
      · refine ⟨relId, _, rfl, 0x4e, [0x4e], _, rfl, .inr ⟨fun m => ?_, rfl⟩, hmarker, new, rfl, rfl⟩
        cases m <;> decide
      · exact ⟨relId, _, rfl, 0x4e, m.byte :: (old.bytes ++ [0x4e]), new.bytes, by simp,
          .inl ⟨m, old, rfl⟩, hmarker, new, rfl, rfl⟩
    | _ => simp [WireMessage.tag] at htag

theorem parses_deleteBody (decoder : Decoder) :
    cursor.Parses (decoder.body 0x44) (SpellsBody decoder 0x44) := by
  refine (Cursor.Parses.bind_written parses_u32 fun relId =>
    Cursor.Parses.bind_written parses_byte fun marker =>
    Cursor.Parses.guard fun _ => parses_change decoder relId.unsigned .delete).congr
    fun result front => ?_
  constructor
  · rintro ⟨relId, _, rfl, marker, _, rfl, hmarker, old, rfl, rfl⟩
    rw [not_and_or, not_not, not_not] at hmarker
    obtain ⟨m, rfl⟩ := OldMarker.exists_byte_iff.mp hmarker
    exact ⟨.delete relId m old, rfl, rfl, rfl⟩
  · rintro ⟨w, htag, rfl, rfl⟩
    cases w with
    | delete relId m old =>
      have hmarker := OldMarker.exists_byte_iff.mpr ⟨m, rfl⟩
      rw [← not_not (a := asChar m.byte = 'K'), ← not_not (a := asChar m.byte = 'O'),
        ← not_and_or] at hmarker
      exact ⟨relId, _, rfl, m.byte, _, rfl, hmarker, old, rfl, rfl⟩
    | _ => simp [WireMessage.tag] at htag

theorem parses_truncateBody (decoder : Decoder) :
    cursor.Parses (decoder.body 0x54) (SpellsBody decoder 0x54) := by
  refine (Cursor.Parses.bind_written (parses_signed 4) fun nrels =>
    Cursor.Parses.bind_written parses_byte fun flags =>
    Cursor.Parses.guard fun _ => (parses_skipRelations nrels.signed.toNat).bind fun _ =>
      .pure (Message.truncate nrels.signed.toNat, decoder)).congr fun result front => ?_
  constructor
  · rintro ⟨nrels, _, rfl, flags, _, rfl, hnonneg, _, _, _, rfl, ⟨relIds, hlen, rfl⟩, rfl, rfl⟩
    obtain ⟨hhalf, hnat⟩ := Field.signed_of_nonneg hnonneg
    rw [hnat] at hlen
    refine ⟨.truncate flags relIds (by omega), rfl, ?_, ?_⟩
    · rw [List.append_nil, nrels.bytes_eq, ← hlen]
      rfl
    · rw [hnat, ← hlen]
      rfl
  · rintro ⟨w, htag, rfl, rfl⟩
    cases w with
    | truncate flags relIds count =>
      have hsigned : (Field.ofNat 4 relIds.length).signed = relIds.length :=
        Field.signed_ofNat (by omega)
      have hnat : (Field.ofNat 4 relIds.length).signed.toNat = relIds.length := by
        rw [hsigned, Int.toNat_natCast]
      refine ⟨.ofNat 4 relIds.length, _, rfl, flags, _, rfl, ?_, (), _, [],
        (List.append_nil _).symm, ⟨relIds, hnat.symm, rfl⟩, ?_, rfl⟩
      · rw [hsigned]
        exact not_lt.mpr (Int.natCast_nonneg _)
      · rw [hnat]
        rfl
    | _ => simp [WireMessage.tag] at htag

theorem parses_body (decoder : Decoder) (tag : UInt8) :
    cursor.Parses (decoder.body tag) (SpellsBody decoder tag) := by
  unfold Decoder.body
  split
  case h_1 h => exact asChar_inj (c := 0x42) h ▸ parses_beginBody decoder
  case h_2 h => exact asChar_inj (c := 0x43) h ▸ parses_commitBody decoder
  case h_3 h => exact asChar_inj (c := 0x52) h ▸ parses_relationBody decoder
  case h_4 h => exact asChar_inj (c := 0x59) h ▸ parses_typeBody decoder
  case h_5 h => exact asChar_inj (c := 0x4f) h ▸ parses_originBody decoder
  case h_6 h => exact asChar_inj (c := 0x49) h ▸ parses_insertBody decoder
  case h_7 h => exact asChar_inj (c := 0x55) h ▸ parses_updateBody decoder
  case h_8 h => exact asChar_inj (c := 0x44) h ▸ parses_deleteBody decoder
  case h_9 h => exact asChar_inj (c := 0x54) h ▸ parses_truncateBody decoder
  case h_10 hB hC hR hY hO hI hU hD hT =>
    refine (Cursor.Parses.throw _).congr fun result front => iff_of_false id ?_
    rintro ⟨w, rfl, -⟩
    cases w with
    | begin => exact hB (by decide : asChar 0x42 = 'B')
    | commit => exact hC (by decide : asChar 0x43 = 'C')
    | relation => exact hR (by decide : asChar 0x52 = 'R')
    | type => exact hY (by decide : asChar 0x59 = 'Y')
    | origin => exact hO (by decide : asChar 0x4f = 'O')
    | insert => exact hI (by decide : asChar 0x49 = 'I')
    | update => exact hU (by decide : asChar 0x55 = 'U')
    | delete => exact hD (by decide : asChar 0x44 = 'D')
    | truncate => exact hT (by decide : asChar 0x54 = 'T')

/-! ## The decoder -/

namespace Decoder

/-- `Decoder::decode` with the table it leaves, also where it refuses the message: a relation is
stored before the bytes that are left are looked at. -/
def decodeIn (decoder : Decoder) (raw : Bytes) : SaciResult Message × Decoder :=
  match byte.run ⟨raw, 0⟩ with
  | .error e => (.error e, decoder)
  | .ok (tag, reader) =>
    match (body decoder tag).run reader with
    | .error e => (.error e, decoder)
    | .ok ((message, after), reader) =>
      if 0 < reader.remaining then
        (.error <| .generic <|
          s!"pgoutput: message tag {debugChar tag} left {reader.remaining} undecoded byte(s)", after)
      else (.ok message, after)

/-- The messages are read to their end, and stored before it is known that more follows. -/
theorem decodeIn_encode (decoder : Decoder) (w : WireMessage) (extra : Bytes) :
    (extra = [] → decoder.decodeIn (w.encode ++ extra) = (.ok w.message, w.store decoder)) ∧
      (extra ≠ [] → ∃ e, decoder.decodeIn (w.encode ++ extra) = (.error e, w.store decoder)) := by
  have hfirst : byte.run ⟨w.encode ++ extra, 0⟩ = .ok (w.tag, ⟨w.encode ++ extra, 1⟩) := rfl
  have hbody : (body decoder w.tag).run ⟨w.encode ++ extra, 1⟩ =
      .ok ((w.message, w.store decoder), ⟨w.encode ++ extra, 1 + w.tail.length⟩) := by
    have hin : cursor.Inside ⟨w.encode ++ extra, 1⟩ := by
      change 1 ≤ (w.tag :: (w.tail ++ extra)).length
      rw [List.length_cons]
      omega
    exact (parses_body decoder w.tag _ _ _ hin).mpr
      ⟨w.tail, ⟨w, rfl, rfl, rfl⟩, List.prefix_append w.tail extra, rfl⟩
  have hremaining : (Reader.mk (w.encode ++ extra) (1 + w.tail.length)).remaining =
      extra.length := by
    rw [Reader.remaining, List.length_append, WireMessage.encode, List.length_cons]
    dsimp only
    omega
  constructor
  · rintro rfl
    rw [decodeIn, hfirst]
    dsimp only
    rw [hbody]
    dsimp only
    rw [hremaining, List.length_nil, if_neg (Nat.lt_irrefl 0)]
  · intro hne
    rw [decodeIn, hfirst]
    dsimp only
    rw [hbody]
    dsimp only
    rw [hremaining, if_pos (List.length_pos_iff.mpr hne)]
    exact ⟨_, rfl⟩

/-- What does not start with a message is refused, and nothing is stored. -/
theorem decodeIn_of_forall_ne {raw : Bytes} (decoder : Decoder)
    (h : ∀ (w : WireMessage) extra, raw ≠ w.encode ++ extra) :
    ∃ e, decoder.decodeIn raw = (.error e, decoder) := by
  cases raw with
  | nil => exact ⟨_, rfl⟩
  | cons tag rest =>
    have hfirst : byte.run ⟨tag :: rest, 0⟩ = .ok (tag, ⟨tag :: rest, 1⟩) := rfl
    rw [decodeIn, hfirst]
    dsimp only
    cases hrun : (body decoder tag).run ⟨tag :: rest, 1⟩ with
    | error e => exact ⟨e, rfl⟩
    | ok second =>
      obtain ⟨result, reader⟩ := second
      have hin : cursor.Inside ⟨tag :: rest, 1⟩ := Nat.succ_pos rest.length
      obtain ⟨_, ⟨w, rfl, rfl, -⟩, ⟨extra, hextra⟩, -⟩ :=
        (parses_body decoder tag _ result reader hin).mp hrun
      exact absurd (congrArg (w.tag :: ·) hextra).symm (h w extra)

/-- What is claimed of one message: it is accepted exactly if it is one, with what it carries; a
relation is stored, and a message that is refused leaves the table as it was. -/
structure DecodeLaw (decoder : Decoder) (raw : Bytes) : Prop where
  accepts : ∀ message, (decoder.decodeIn raw).1 = .ok message ↔
    ∃ w : WireMessage, w.encode = raw ∧ message = w.message
  stores : ∀ w : WireMessage, w.encode = raw → (decoder.decodeIn raw).2 = w.store decoder
  keeps : ∀ e, (decoder.decodeIn raw).1 = .error e →
    ∀ relId, (decoder.decodeIn raw).2.relation relId = decoder.relation relId

/-- A `Relation` message with bytes left over, which declares what the table does not have. -/
def RelationWithMore (decoder : Decoder) (raw : Bytes) : Prop :=
  ∃ (w : WireMessage) (relId : Nat) (relation : Relation) (extra : Bytes),
    raw = w.encode ++ extra ∧ extra ≠ [] ∧ w.declares = some (relId, relation) ∧
      decoder.relation relId ≠ some relation

theorem store_of_none {w : WireMessage} (h : w.declares = none) (decoder : Decoder) :
    w.store decoder = decoder := by
  rw [WireMessage.store, h]

theorem relation_store {w : WireMessage} {relId : Nat} {relation : Relation}
    (h : w.declares = some (relId, relation)) (decoder : Decoder) (other : Nat) :
    (w.store decoder).relation other =
      if other = relId then some relation else decoder.relation other := by
  rw [WireMessage.store, h]
  change List.lookup other ((relId, relation) :: decoder.relations) = _
  rw [List.lookup_cons]
  by_cases hother : other = relId
  · rw [if_pos hother, hother, beq_self_eq_true]
  · rw [if_neg hother, beq_eq_false_iff_ne.mpr hother]
    rfl

/-- The table is the same where the relation was declared just so. -/
theorem forall_relation_store_iff (w : WireMessage) (decoder : Decoder) :
    (∀ other, (w.store decoder).relation other = decoder.relation other) ↔
      ∀ relId relation, w.declares = some (relId, relation) →
        decoder.relation relId = some relation := by
  cases hdeclares : w.declares with
  | none =>
    rw [store_of_none hdeclares]
    exact iff_of_true (fun _ => rfl) nofun
  | some entry =>
    obtain ⟨relId, relation⟩ := entry
    simp only [relation_store hdeclares, Option.some.injEq, Prod.mk.injEq]
    constructor
    · rintro h _ _ ⟨rfl, rfl⟩
      have hrel := h relId
      rw [if_pos rfl] at hrel
      exact hrel.symm
    · intro h other
      split_ifs with hother
      · rw [hother, h relId relation ⟨rfl, rfl⟩]
      · rfl

/-- A message is accepted, however it is written out. -/
theorem decodeLaw_encode (decoder : Decoder) (w : WireMessage) : DecodeLaw decoder w.encode := by
  have hrun := fun w' : WireMessage => (decodeIn_encode decoder w' []).1 rfl
  simp only [List.append_nil] at hrun
  -- another message of the same bytes is read the same way
  have hsame : ∀ w' : WireMessage, w'.encode = w.encode →
      w'.message = w.message ∧ w'.store decoder = w.store decoder := by
    intro w' heq
    have hboth := (hrun w').symm.trans (heq ▸ hrun w)
    rwa [Prod.mk.injEq, Except.ok.injEq] at hboth
  refine ⟨fun message => ?_, fun w' heq => ?_, fun e he => ?_⟩
  · rw [hrun, Except.ok.injEq]
    constructor
    · rintro rfl
      exact ⟨w, rfl, rfl⟩
    · rintro ⟨w', heq, rfl⟩
      exact (hsame w' heq).1.symm
  · rw [hrun]
    exact (hsame w' heq).2.symm
  · rw [hrun] at he
    cases he

/-- What is refused is no message; the law then asks for the same table. -/
theorem decodeLaw_of_error_iff {decoder after : Decoder} {raw : Bytes} {e : SaciError}
    (hrun : decoder.decodeIn raw = (.error e, after)) :
    DecodeLaw decoder raw ↔ ∀ other, after.relation other = decoder.relation other := by
  have hnot : ∀ w : WireMessage, w.encode ≠ raw := by
    intro w heq
    have hrun' := (decodeIn_encode decoder w []).1 rfl
    rw [List.append_nil, heq, hrun] at hrun'
    cases hrun'
  constructor
  · intro h other
    have hkeeps := h.keeps e (by rw [hrun]) other
    rwa [hrun] at hkeeps
  · intro h
    refine ⟨fun message => ?_, fun w heq => absurd heq (hnot w), fun _ _ other => ?_⟩
    · rw [hrun]
      exact iff_of_false nofun fun ⟨w, heq, _⟩ => hnot w heq
    · rw [hrun]
      exact h other

/-- The decoder does what is claimed, except of a relation that is refused for bytes left over. -/
theorem decodeLaw_iff (decoder : Decoder) (raw : Bytes) :
    DecodeLaw decoder raw ↔ ¬RelationWithMore decoder raw := by
  by_cases hmessage : ∃ (w : WireMessage) (extra : Bytes), raw = w.encode ++ extra
  · obtain ⟨w, extra, rfl⟩ := hmessage
    by_cases hextra : extra = []
    · rw [hextra, List.append_nil]
      refine iff_of_true (decodeLaw_encode decoder w) ?_
      rintro ⟨w', _, _, extra', heq, hne, -⟩
      have hrun := (decodeIn_encode decoder w []).1 rfl
      obtain ⟨e, hrun'⟩ := (decodeIn_encode decoder w' extra').2 hne
      rw [List.append_nil, heq, hrun'] at hrun
      cases hrun
    · obtain ⟨e, hrun⟩ := (decodeIn_encode decoder w extra).2 hextra
      rw [decodeLaw_of_error_iff hrun, forall_relation_store_iff]
      constructor
      · rintro h ⟨w', relId, relation, extra', heq, hne, hdeclares, hnew⟩
        obtain ⟨e', hrun'⟩ := (decodeIn_encode decoder w' extra').2 hne
        rw [← heq, hrun] at hrun'
        have hstore := congrArg (fun d : Decoder => d.relation relId) (congrArg Prod.snd hrun')
        dsimp only at hstore
        rw [relation_store hdeclares, if_pos rfl, (forall_relation_store_iff w decoder).mpr h]
          at hstore
        exact hnew hstore
      · intro h relId relation hdeclares
        by_contra hnew
        exact h ⟨w, relId, relation, extra, rfl, hextra, hdeclares, hnew⟩
  · have hnone : ∀ (w : WireMessage) extra, raw ≠ w.encode ++ extra := fun w extra heq =>
      hmessage ⟨w, extra, heq⟩
    obtain ⟨e, hrun⟩ := decodeIn_of_forall_ne decoder hnone
    refine iff_of_true ((decodeLaw_of_error_iff hrun).mpr fun _ => rfl) ?_
    rintro ⟨w, _, _, extra, heq, -⟩
    exact hnone w extra heq

namespace Sample

/-- The relation `a.b` without columns, under the number 1. -/
def relation : WireMessage :=
  .relation (.ofNat 4 1) ⟨"a", by decide⟩ ⟨"b", by decide⟩ 0x64 [] (by decide)

/-- A byte too many: the message is refused, and the relation is in the table. -/
theorem refused_relation_stored :
    relation.encode ++ [0] = [0x52, 0, 0, 0, 1, 0x61, 0, 0x62, 0, 0x64, 0, 0, 0] ∧
      (empty.decodeIn (relation.encode ++ [0])).1.toOption = none ∧
      ((empty.decodeIn (relation.encode ++ [0])).2.relation 1).isSome ∧
      ¬DecodeLaw empty (relation.encode ++ [0]) := by
  obtain ⟨e, hrun⟩ := (decodeIn_encode empty relation [0]).2 (List.cons_ne_nil _ _)
  have hstored : ((relation.store empty).relation 1).isSome := by decide
  refine ⟨by decide, ?_, ?_, fun h => ?_⟩
  · rw [hrun]
    rfl
  · rw [hrun]
    exact hstored
  · rw [(decodeLaw_of_error_iff hrun).mp h 1] at hstored
    exact absurd hstored (by decide)

end Sample
end Decoder
end Saci.Pgoutput
