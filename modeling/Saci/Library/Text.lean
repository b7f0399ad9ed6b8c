import Mathlib.Data.List.Basic

/-!
# Texts

What a program does to a text before it reads it: white space is cut off its ends, and it is cut in two at
the first separator. A text is the list of its characters.
-/

namespace Text

/-- Unicode's white space. -/
def isWhitespace (c : Char) : Bool :=
  let n := c.toNat
  9 ≤ n && n ≤ 13 || n = 0x20 || n = 0x85 || n = 0xA0 || n = 0x1680 || 0x2000 ≤ n && n ≤ 0x200A ||
    n = 0x2028 || n = 0x2029 || n = 0x202F || n = 0x205F || n = 0x3000

/-- The text without the white space at its ends. -/
def trim (text : List Char) : List Char :=
  ((text.dropWhile isWhitespace).reverse.dropWhile isWhitespace).reverse

/-- Whether two texts are the same but for the case of ASCII letters. -/
def eqIgnoreAsciiCase (a b : List Char) : Bool := a.map Char.toLower = b.map Char.toLower

/-- Whether a minus stands in front, and the text behind a sign. -/
def stripSign : List Char → Bool × List Char
  | '-' :: rest => (true, rest)
  | '+' :: rest => (false, rest)
  | rest => (false, rest)

def stripPrefix (front text : List Char) : Option (List Char) :=
  if front.isPrefixOf text then some (text.drop front.length) else none

def stripSuffix (back text : List Char) : Option (List Char) :=
  if back.isSuffixOf text then some (text.take (text.length - back.length)) else none

/-- The two parts at the first separator. -/
def splitOnce (sep : Char) : List Char → Option (List Char × List Char)
  | [] => none
  | c :: text =>
    if c = sep then some ([], text)
    else (splitOnce sep text).map fun (front, back) => (c :: front, back)

variable {text front back : List Char} {sep : Char}

theorem dropWhile_eq_self (h : ∀ c ∈ text.head?, isWhitespace c = false) :
    text.dropWhile isWhitespace = text := by
  cases text with
  | nil => rfl
  | cons c text => exact List.dropWhile_cons_of_neg (Bool.not_eq_true _ ▸ h c rfl)

/-- A text without white space at its ends stays as it is. -/
theorem trim_eq_self (hfirst : ∀ c ∈ text.head?, isWhitespace c = false)
    (hlast : ∀ c ∈ text.getLast?, isWhitespace c = false) : trim text = text := by
  rw [trim, dropWhile_eq_self hfirst, dropWhile_eq_self (by rwa [List.head?_reverse]), List.reverse_reverse]

theorem trim_of_forall (h : ∀ c ∈ text, isWhitespace c = false) : trim text = text :=
  trim_eq_self (fun c hc => h c (List.mem_of_head? hc)) fun c hc => h c (List.mem_of_getLast? hc)

theorem splitOnce_append (hfront : sep ∉ front) (back : List Char) :
    splitOnce sep (front ++ sep :: back) = some (front, back) := by
  induction front with
  | nil => rw [List.nil_append, splitOnce, if_pos rfl]
  | cons c front ih =>
    obtain ⟨hc, hfront⟩ := not_or.mp (mt List.mem_cons.mpr hfront)
    rw [List.cons_append, splitOnce, if_neg (Ne.symm hc), ih hfront]
    rfl

theorem splitOnce_eq_none_iff : splitOnce sep text = none ↔ sep ∉ text := by
  induction text with
  | nil => exact iff_of_true rfl List.not_mem_nil
  | cons c text ih =>
    rw [splitOnce]
    split_ifs with hc
    · exact iff_of_false nofun (not_not.mpr (hc ▸ List.mem_cons_self))
    · rw [Option.map_eq_none_iff, ih, List.mem_cons, not_or, and_iff_right (Ne.symm hc)]

/-- The first part ends at the first separator. -/
theorem splitOnce_eq_some_iff :
    splitOnce sep text = some (front, back) ↔ text = front ++ sep :: back ∧ sep ∉ front := by
  refine ⟨fun h => ?_, fun ⟨htext, hfront⟩ => htext ▸ splitOnce_append hfront back⟩
  induction text generalizing front with
  | nil => cases h
  | cons c text ih =>
    rw [splitOnce] at h
    split_ifs at h with hc
    · cases h
      exact ⟨hc ▸ rfl, List.not_mem_nil⟩
    · obtain ⟨⟨front', back'⟩, hsplit, hparts⟩ := Option.map_eq_some_iff.mp h
      cases hparts
      obtain ⟨rfl, hfront⟩ := ih hsplit
      exact ⟨rfl, fun hmem => (List.mem_cons.mp hmem).elim (Ne.symm hc) hfront⟩

/-- What stands before the first separator goes with what it is put before. -/
theorem splitOn_append (hfront : sep ∉ front) (back : List Char) :
    (front ++ back).splitOn sep = (back.splitOn sep).modifyHead (front ++ ·) := by
  induction front with
  | nil => exact (congrFun List.modifyHead_id _).symm
  | cons c front ih =>
    obtain ⟨hc, hfront⟩ := not_or.mp (mt List.mem_cons.mpr hfront)
    rw [List.cons_append, List.splitOn_cons_eq_if_modifyHead, if_neg (by simpa using Ne.symm hc), ih hfront,
      List.modifyHead_modifyHead]
    rfl

theorem splitOn_cons (text : List Char) : (sep :: text).splitOn sep = [] :: text.splitOn sep := by
  rw [List.splitOn_cons_eq_if_modifyHead, if_pos (beq_self_eq_true sep)]

end Text
