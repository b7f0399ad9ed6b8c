import Mathlib.Data.List.Basic
import Mathlib.Data.String.Basic
import Saci.Library.BigEndian

/-!
# Codecs

A codec writes a value as bytes and reads one value off the front of its input. It carries two
laws: it reads back what it wrote, whatever follows, and what it accepts it also accepts with more
bytes behind. So no proper prefix of an encoding is read (`decode_of_append_eq`). The combinators
build the codec of a type from those of its parts, in a compact binary format: numbers in groups of
seven bits, sequences after their length, sum types after the index of the variant.
-/

universe u v

/-- A writer and a reader of values of one type. -/
structure Codec (α : Type u) where
  encode : α → Bytes
  decode : Bytes → Option (α × Bytes)
  decode_encode (a : α) (rest : Bytes) : decode (encode a ++ rest) = some (a, rest)
  decode_append {input rest : Bytes} {a : α} (more : Bytes) (h : decode input = some (a, rest)) :
    decode (input ++ more) = some (a, rest ++ more)

namespace Codec

variable {α : Type u} {β : Type v}

theorem decode_encode_self (c : Codec α) (a : α) : c.decode (c.encode a) = some (a, []) := by
  simpa using c.decode_encode a []

/-- A proper prefix of an encoding is not accepted. -/
theorem decode_of_append_eq (c : Codec α) {a : α} {front back : Bytes}
    (h : front ++ back = c.encode a) (hback : back ≠ []) : c.decode front = none := by
  cases hfront : c.decode front with
  | none => rfl
  | some read =>
    have hmore := c.decode_append back hfront
    rw [h, c.decode_encode_self] at hmore
    have hnil := congrArg (fun r : α × Bytes => r.2) (Option.some.inj hmore)
    exact absurd (List.append_eq_nil_iff.mp hnil.symm).2 hback

/-! ## Combinators -/

/-- One byte as it is. -/
def byte : Codec UInt8 where
  encode b := [b]
  decode
    | [] => none
    | b :: rest => some (b, rest)
  decode_encode _ _ := rfl
  decode_append {input _ _} _ h := by
    cases input with
    | nil => cases h
    | cons b rest => cases h; rfl

/-- Values that are written as values of another type, some of which stand for nothing. -/
def pmap (c : Codec α) (put : β → α) (get : α → Option β) (get_put : ∀ b, get (put b) = some b) :
    Codec β where
  encode b := c.encode (put b)
  decode input := (c.decode input).bind fun (a, rest) => (get a).map (·, rest)
  decode_encode b rest := by simp [c.decode_encode, get_put]
  decode_append more h := by
    obtain ⟨⟨a, rest⟩, hread, hget⟩ := Option.bind_eq_some_iff.mp h
    obtain ⟨b, hb, heq⟩ := Option.map_eq_some_iff.mp hget
    cases heq
    simp [c.decode_append more hread, hb]

/-- A value and then another, whose type the first decides. -/
def sigma {F : α → Type v} (c : Codec α) (d : (a : α) → Codec (F a)) : Codec (Sigma F) where
  encode x := c.encode x.1 ++ (d x.1).encode x.2
  decode input := (c.decode input).bind fun (a, rest) =>
    ((d a).decode rest).map fun (b, rest) => (⟨a, b⟩, rest)
  decode_encode x rest := by simp [c.decode_encode, (d x.1).decode_encode, List.append_assoc]
  decode_append more h := by
    obtain ⟨⟨a, mid⟩, hread, hrest⟩ := Option.bind_eq_some_iff.mp h
    obtain ⟨⟨b, rest⟩, hread', heq⟩ := Option.map_eq_some_iff.mp hrest
    cases heq
    simp [c.decode_append more hread, (d a).decode_append more hread']

/-- A value and then another. -/
def pair (c : Codec α) (d : Codec β) : Codec (α × β) :=
  (c.sigma fun _ => d).pmap (fun x => ⟨x.1, x.2⟩) (fun x => some (x.1, x.2)) fun _ => rfl

@[simp] theorem encode_pmap (c : Codec α) (put : β → α) (get : α → Option β)
    (get_put : ∀ b, get (put b) = some b) (b : β) :
    (c.pmap put get get_put).encode b = c.encode (put b) := rfl

@[simp] theorem encode_sigma {F : α → Type v} (c : Codec α) (d : (a : α) → Codec (F a))
    (x : Sigma F) : (c.sigma d).encode x = c.encode x.1 ++ (d x.1).encode x.2 := rfl

@[simp] theorem encode_pair (c : Codec α) (d : Codec β) (x : α × β) :
    (c.pair d).encode x = c.encode x.1 ++ d.encode x.2 := rfl

/-! ## Numbers -/

/-- The groups of seven bits of a number, the lowest first; the high bit says that more follow. -/
def putVarint (n : Nat) : Bytes :=
  if n < 128 then [.ofNat n] else .ofNat (n % 128 + 128) :: putVarint (n / 128)

def getVarint : Bytes → Option (Nat × Bytes)
  | [] => none
  | b :: rest =>
    if b.toNat < 128 then some (b.toNat, rest)
    else (getVarint rest).map fun (n, rest) => (b.toNat - 128 + 128 * n, rest)

theorem getVarint_putVarint (n : Nat) (rest : Bytes) :
    getVarint (putVarint n ++ rest) = some (n, rest) := by
  induction n using Nat.strongRecOn with
  | ind n ih =>
    rw [putVarint]
    split_ifs with hlt
    · have hn : (UInt8.ofNat n).toNat = n := by simp; omega
      simp [getVarint, hn, hlt]
    · have hn : (UInt8.ofNat (n % 128 + 128)).toNat = n % 128 + 128 := by simp; omega
      have hge : ¬ n % 128 + 128 < 128 := by omega
      rw [List.cons_append, getVarint, hn, if_neg hge, ih (n / 128) (by omega), Option.map_some]
      dsimp only
      rw [Nat.add_sub_cancel, Nat.mod_add_div]

theorem getVarint_append {input rest : Bytes} {n : Nat} (more : Bytes)
    (h : getVarint input = some (n, rest)) : getVarint (input ++ more) = some (n, rest ++ more) := by
  induction input generalizing n with
  | nil => cases h
  | cons b input ih =>
    rw [getVarint] at h
    rw [List.cons_append, getVarint]
    split_ifs at h ⊢ with hlt
    · cases h; rfl
    · obtain ⟨⟨m, rest⟩, hread, heq⟩ := Option.map_eq_some_iff.mp h
      cases heq
      rw [ih hread, Option.map_some]

def varint : Codec Nat := ⟨putVarint, getVarint, getVarint_putVarint, getVarint_append⟩

theorem varint_encode_ne_nil (n : Nat) : varint.encode n ≠ [] := by
  change putVarint n ≠ []
  rw [putVarint]
  split_ifs <;> simp

/-- A number below 128 is one byte. -/
theorem varint_encode_of_lt {n : Nat} (h : n < 128) : varint.encode n = [.ofNat n] := by
  change putVarint n = _
  rw [putVarint, if_pos h]

def uint32 : Codec UInt32 :=
  varint.pmap (·.toNat) (fun n => if n < UInt32.size then some (.ofNat n) else none)
    fun n => by simp [n.toNat_lt]

def uint64 : Codec UInt64 :=
  varint.pmap (·.toNat) (fun n => if n < UInt64.size then some (.ofNat n) else none)
    fun n => by simp [n.toNat_lt]

@[simp] theorem encode_uint32 (n : UInt32) : uint32.encode n = varint.encode n.toNat := rfl

@[simp] theorem encode_uint64 (n : UInt64) : uint64.encode n = varint.encode n.toNat := rfl

/-! ## Sequences -/

/-- Read so many values. -/
def getMany (c : Codec α) : Nat → Bytes → Option (List α × Bytes)
  | 0, input => some ([], input)
  | n + 1, input => (c.decode input).bind fun (a, rest) =>
    (c.getMany n rest).map fun (l, rest) => (a :: l, rest)

theorem getMany_flatMap_encode (c : Codec α) (l : List α) (rest : Bytes) :
    c.getMany l.length (l.flatMap c.encode ++ rest) = some (l, rest) := by
  induction l with
  | nil => rfl
  | cons a l ih => simp [getMany, List.append_assoc, c.decode_encode, ih]

theorem getMany_append (c : Codec α) {n : Nat} {input rest : Bytes} {l : List α} (more : Bytes)
    (h : c.getMany n input = some (l, rest)) :
    c.getMany n (input ++ more) = some (l, rest ++ more) := by
  induction n generalizing input l with
  | zero => cases h; rfl
  | succ n ih =>
    obtain ⟨⟨a, mid⟩, hread, hrest⟩ := Option.bind_eq_some_iff.mp h
    obtain ⟨⟨l', rest'⟩, hmany, heq⟩ := Option.map_eq_some_iff.mp hrest
    cases heq
    simp [getMany, c.decode_append more hread, ih hmany]

/-- The length of a list and then its elements. -/
def list (c : Codec α) : Codec (List α) where
  encode l := varint.encode l.length ++ l.flatMap c.encode
  decode input := (varint.decode input).bind fun (n, rest) => c.getMany n rest
  decode_encode l rest := by
    rw [List.append_assoc, varint.decode_encode]
    exact c.getMany_flatMap_encode l rest
  decode_append more h := by
    obtain ⟨⟨n, mid⟩, hread, hmany⟩ := Option.bind_eq_some_iff.mp h
    rw [varint.decode_append more hread]
    exact c.getMany_append more hmany

@[simp] theorem encode_list (c : Codec α) (l : List α) :
    c.list.encode l = varint.encode l.length ++ l.flatMap c.encode := rfl

/-- A list takes at least the room of its elements. -/
theorem le_length_encode_list (c : Codec α) {l : List α} {n : Nat}
    (h : ∀ a ∈ l, n ≤ (c.encode a).length) : l.length * n ≤ (c.list.encode l).length := by
  have hflat : l.length * n ≤ (l.flatMap c.encode).length := by
    induction l with
    | nil => simp
    | cons a l ih =>
      have hhead := h a List.mem_cons_self
      have htail := ih fun b hb => h b (List.mem_cons_of_mem _ hb)
      simp only [List.flatMap_cons, List.length_append, List.length_cons, Nat.succ_mul]
      omega
  rw [encode_list, List.length_append]
  omega

def bytes : Codec Bytes := byte.list

@[simp] theorem encode_bytes (l : Bytes) : bytes.encode l = varint.encode l.length ++ l := by
  have hflat : l.flatMap byte.encode = l := List.flatMap_singleton' l
  rw [bytes, encode_list, hflat]

/-- A fixed number of bytes as they are. -/
def octets (n : Nat) : Codec (Octets n) where
  encode l := l.1
  decode input :=
    if h : n ≤ input.length then
      some (⟨input.take n, by rw [List.length_take, min_eq_left h]⟩, input.drop n)
    else none
  decode_encode l rest := by
    obtain ⟨l, rfl⟩ := l
    simp
  decode_append more h := by
    split_ifs at h with hle
    cases h
    have hle' := hle.trans (List.length_append ▸ Nat.le_add_right _ more.length)
    simp only [dif_pos hle', List.take_append_of_le_length hle,
      List.drop_append_of_le_length hle]

/-- The UTF-8 bytes of a string. -/
def string : Codec String :=
  bytes.pmap (fun s => s.toByteArray.data.toList) (fun l => String.fromUTF8? ⟨l.toArray⟩)
    fun s => dif_pos s.isValidUTF8

@[simp] theorem encode_string (s : String) :
    string.encode s = bytes.encode s.toByteArray.data.toList := rfl

/-- Nothing, or a value. -/
def option (c : Codec α) : Codec (Option α) where
  encode
    | none => [0]
    | some a => 1 :: c.encode a
  decode
    | 0 :: rest => some (none, rest)
    | 1 :: rest => (c.decode rest).map fun (a, rest) => (some a, rest)
    | _ => none
  decode_encode a rest := by cases a <;> simp [c.decode_encode]
  decode_append more h := by
    split at h
    · cases h; rfl
    · obtain ⟨⟨a, rest⟩, hread, heq⟩ := Option.map_eq_some_iff.mp h
      cases heq
      simp [c.decode_append more hread]
    · cases h

@[simp] theorem encode_none (c : Codec α) : c.option.encode none = [0] := rfl

end Codec
