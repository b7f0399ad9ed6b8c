import Saci.Connectors.GtidMembers

/-!
# Printing a GTID set and reading it back

The printer joins the groups of one UUID into one entry, and the reader splits the text at every separator
before it looks at any part. `resume` is the reader in the middle of an entry: each piece that is printed
takes it on to what follows (`resume_group`, `resume_entry`), and by induction over the groups in their order
what is printed of them is read back (`resume_displayFrom`).
-/

namespace Saci.Mariadb

open Intervals Text

/-! ## UUIDs -/

/-- A character of a UUID, a tag or an interval. -/
def isPlain (c : Char) : Bool := c.isDigit || 'a' ≤ c && c ≤ 'z' || c = '_' || c = '-'

theorem digitChar_lt_16 : ∀ n < 16, isPlain n.digitChar = true ∧ n.digitChar ≠ '-' := by decide

theorem isPlain_spec {c : Char} (h : isPlain c = true) : isWhitespace c = false ∧ c ≠ ':' ∧ c ≠ ',' := by
  refine ⟨?_, ?_, ?_⟩
  · have hrange : 45 ≤ c.toNat ∧ c.toNat ≤ 122 := by
      simp [isPlain, Char.isDigit, UInt32.le_iff_toNat_le, Char.le_def] at h
      rcases h with ((h | h) | rfl) | rfl
      · omega
      · omega
      · decide
      · decide
    simp only [isWhitespace, Bool.or_eq_false_iff, Bool.and_eq_false_iff, decide_eq_false_iff_not]
    omega
  · rintro rfl
    exact absurd h (by decide)
  · rintro rfl
    exact absurd h (by decide)

theorem hexValue_digitChar : ∀ n < 16, hexValue n.digitChar = some (UInt8.ofNat n) := by decide

theorem ofNat_digits : ∀ hi < 16, ∀ lo < 16,
    UInt8.ofNat hi <<< 4 ||| UInt8.ofNat lo = UInt8.ofNat (16 * hi + lo) := by
  decide

/-- The two digits of a byte. -/
def hexPair (b : UInt8) : List Char := [(b.toNat / 16).digitChar, (b.toNat % 16).digitChar]

theorem hexBytes_flatMap (bytes : List UInt8) : hexBytes (bytes.flatMap hexPair) = some bytes := by
  induction bytes with
  | nil => rfl
  | cons b bytes ih =>
    have hlt := b.toNat_lt
    have hhi : b.toNat / 16 < 16 := by omega
    have hlo : b.toNat % 16 < 16 := by omega
    have hbyte : UInt8.ofNat (b.toNat / 16) <<< 4 ||| UInt8.ofNat (b.toNat % 16) = b := by
      rw [ofNat_digits _ hhi _ hlo, Nat.div_add_mod, UInt8.ofNat_toNat]
    rw [List.flatMap_cons, hexPair, List.cons_append, List.cons_append, List.nil_append, hexBytes,
      hexValue_digitChar _ hhi, hexValue_digitChar _ hlo, ih]
    exact congrArg (fun b => some (b :: bytes)) hbyte

theorem hexPair_ne (b : UInt8) : (b.toNat / 16).digitChar ≠ '-' ∧ (b.toNat % 16).digitChar ≠ '-' := by
  have hlt := b.toNat_lt
  exact ⟨(digitChar_lt_16 _ (by omega)).2, (digitChar_lt_16 _ (by omega)).2⟩

/-- The hyphens stand where they are looked for, and between them are the digits of the bytes. -/
theorem formatUuid_spec (uuid : Uuid) :
    (formatUuid uuid).toList.filter (· ≠ '-') = uuid.toList.flatMap hexPair ∧
      hyphens (formatUuid uuid).toList = [8, 13, 18, 23] ∧ (formatUuid uuid).toList.length = 36 := by
  obtain ⟨⟨bytes⟩, hsize⟩ := uuid
  have hlength : bytes.length = 16 := hsize
  have hhi : ∀ b : UInt8, (b.toNat / 16).digitChar ≠ '-' := fun b => (hexPair_ne b).1
  have hlo : ∀ b : UInt8, (b.toNat % 16).digitChar ≠ '-' := fun b => (hexPair_ne b).2
  rw [formatUuid, String.toList_ofList]
  match bytes, hlength with
  | [b₀, b₁, b₂, b₃, b₄, b₅, b₆, b₇, b₈, b₉, b₁₀, b₁₁, b₁₂, b₁₃, b₁₄, b₁₅], _ =>
    refine ⟨?_, ?_, rfl⟩
    · simp [hexPair, hhi, hlo]
    · simp [hyphens, hhi, hlo]

theorem parseUuid_formatUuid (uuid : Uuid) : parseUuid (formatUuid uuid).toList = .ok uuid := by
  obtain ⟨hdigits, hhyphens, hlength⟩ := formatUuid_spec uuid
  have hcount : (uuid.toList.flatMap hexPair).length = 32 := by
    rw [List.length_flatMap]
    simp [hexPair]
  unfold parseUuid
  dsimp only
  rw [hdigits, hhyphens, hlength, hcount, if_neg (by decide), if_neg (fun h => h.2 rfl), hexBytes_flatMap]
  refine congrArg Except.ok (Vector.ext fun i hi => ?_)
  simp [List.getD_eq_getElem?_getD]

theorem isPlain_uuid (uuid : Uuid) : ∀ c ∈ (formatUuid uuid).toList, isPlain c = true := by
  intro c hc
  by_cases hhyphen : c = '-'
  · rw [hhyphen]
    rfl
  · have hmem : c ∈ (formatUuid uuid).toList.filter (· ≠ '-') :=
      List.mem_filter.mpr ⟨hc, decide_eq_true hhyphen⟩
    rw [(formatUuid_spec uuid).1] at hmem
    obtain ⟨b, -, hb⟩ := List.mem_flatMap.mp hmem
    have hlt := b.toNat_lt
    rcases List.mem_cons.mp hb with rfl | hb
    · exact (digitChar_lt_16 _ (by omega)).1
    · rw [List.mem_singleton.mp hb]
      exact (digitChar_lt_16 _ (by omega)).1

theorem isPlain_of_isDigit {c : Char} (h : c.isDigit = true) : isPlain c = true := by
  rw [isPlain, h]
  rfl

/-! ## Numbers and intervals -/

theorem isDigit_decimal {n : Nat} {c : Char} (h : c ∈ decimal n) : c.isDigit = true :=
  Nat.isDigit_of_mem_toDigits (by decide) (by decide) h

theorem decimal_ne_nil (n : Nat) : decimal n ≠ [] := List.ne_nil_of_length_pos (Nat.length_toDigits_pos)

theorem hyphen_notMem_decimal (n : Nat) : '-' ∉ decimal n := fun h => absurd (isDigit_decimal h) (by decide)

theorem parseU64_of_isDigit {text : List Char} (hdigits : ∀ c ∈ text, c.isDigit = true) (hne : text ≠ []) :
    parseU64 text =
      if Nat.ofDigitChars 10 text 0 < 2 ^ 64 then some (Nat.ofDigitChars 10 text 0) else none := by
  unfold parseU64
  split
  · exact absurd (hdigits '+' List.mem_cons_self) (by decide)
  · dsimp only
    rw [List.isEmpty_eq_false_iff.mpr hne, List.all_eq_true.mpr hdigits, Nat.ofDigitChars_eq_foldl]
    rfl

theorem parseU64_decimal {n : Nat} (h : n < 2 ^ 64) : parseU64 (decimal n) = some n := by
  have hvalue : Nat.ofDigitChars 10 (decimal n) 0 = n := Nat.ofDigitChars_ten_toDigits
  rw [parseU64_of_isDigit (fun c => isDigit_decimal) (decimal_ne_nil n), hvalue, if_pos h]

theorem parseNumber_decimal {segment : List Char} {n : Nat} (hmem : 1 ≤ n ∧ n ≤ MAX_GNO) :
    parseNumber segment (decimal n) = .ok ⟨n, hmem⟩ :=
  parseNumber_eq_ok_iff.mpr (parseU64_decimal (by rw [MAX_GNO] at hmem; omega))

/-- A printed interval is read back. -/
theorem parseInterval_intervalText (range : GnoRange) :
    parseInterval (intervalText (range.start, range.stop)) = .ok range := by
  have hstart : 1 ≤ range.start ∧ range.start ≤ MAX_GNO := ⟨range.one_le, range.start_le.trans range.le_max⟩
  have hstop : 1 ≤ range.stop ∧ range.stop ≤ MAX_GNO := ⟨range.one_le.trans range.start_le, range.le_max⟩
  unfold parseInterval intervalText
  dsimp only
  by_cases heq : range.start = range.stop
  · rw [if_pos heq, splitOnce_eq_none_iff.mpr (hyphen_notMem_decimal _)]
    dsimp only
    rw [parseNumber_decimal hstart]
    obtain ⟨start, stop, _, _, _⟩ := range
    cases heq
    rfl
  · rw [if_neg heq, splitOnce_append (hyphen_notMem_decimal _)]
    dsimp only
    rw [parseNumber_decimal hstart, ok_bind, parseNumber_decimal hstop, ok_bind, dif_neg (not_lt.mpr range.start_le)]

theorem isPlain_intervalText {i : Interval} : ∀ c ∈ intervalText i, isPlain c = true := by
  intro c hc
  rw [intervalText] at hc
  split_ifs at hc
  · exact isPlain_of_isDigit (isDigit_decimal hc)
  · rcases List.mem_append.mp hc with hc | hc
    · exact isPlain_of_isDigit (isDigit_decimal hc)
    · rcases List.mem_cons.mp hc with rfl | hc
      · rfl
      · exact isPlain_of_isDigit (isDigit_decimal hc)

/-- An interval starts with a digit, and a tag does not. -/
theorem head_intervalText (i : Interval) : ∃ c, (intervalText i).head? = some c ∧ startsTag c = false := by
  obtain ⟨c, rest, hcons⟩ := List.exists_cons_of_ne_nil (decimal_ne_nil i.1)
  have hdigit := isDigit_decimal (hcons ▸ List.mem_cons_self : c ∈ decimal i.1)
  refine ⟨c, ?_, ?_⟩
  · rw [intervalText]
    split_ifs <;> rw [hcons] <;> rfl
  · simp [Char.isDigit, UInt32.le_iff_toNat_le] at hdigit
    simp only [startsTag, Char.le_def, UInt32.le_iff_toNat_le, decide_eq_false_iff_not]
    rintro (⟨ha, -⟩ | rfl)
    · have ha : 97 ≤ c.toNat := ha
      omega
    · exact absurd hdigit.2 (by decide)

/-! ## Tags -/

/-- A tag is told from a range by its first character. -/
theorem isTag_spec {tag : String} (h : isTag tag = true) :
    (∃ c, tag.toList.head? = some c ∧ startsTag c = true) ∧ ∀ c ∈ tag.toList, isPlain c = true := by
  rw [isTag] at h
  cases htext : tag.toList with
  | nil => rw [htext] at h; cases h
  | cons c rest =>
    rw [htext] at h
    simp only [Bool.and_eq_true, Bool.or_eq_true, List.all_eq_true, decide_eq_true_eq, isTag.lower] at h
    obtain ⟨⟨hfirst, hrest⟩, -⟩ := h
    refine ⟨⟨c, rfl, by simpa [startsTag] using hfirst⟩, fun d hd => ?_⟩
    rcases List.mem_cons.mp hd with rfl | hd
    · simp only [isPlain, Bool.or_eq_true, Bool.and_eq_true, decide_eq_true_eq]
      tauto
    · have := hrest d hd
      simp only [isPlain, Bool.or_eq_true, Bool.and_eq_true, decide_eq_true_eq]
      tauto

/-! ## Reading goes on behind what is read -/

/-- Entries one after the other. -/
def parseEntries (set : GtidSet) (text : List Char) : Except String GtidSet :=
  (text.splitOn ',').foldlM parseEntry set

/-- What is left of a text, in the middle of an entry. -/
def resume (entry : List Char) (uuid : Uuid) (state : EntryState) (text : List Char) : Except String GtidSet := do
  let state ← (((text.splitOn ',').headD []).splitOn ':').tail.foldlM (parseSegment uuid entry) state
  let set ← state.finish entry
  (text.splitOn ',').tail.foldlM parseEntry set

/-- Whether a text begins where a segment ends. -/
def Boundary (text : List Char) : Prop := ∀ c ∈ text.head?, c = ':' ∨ c = ','

section
variable {entry segment text : List Char} {uuid uuid' : Uuid} {state state' : EntryState} {set : GtidSet}

theorem exists_splitOn (sep : Char) (text : List Char) :
    ∃ first rest, text.splitOn sep = first :: rest :=
  List.exists_cons_of_ne_nil (List.splitOn_ne_nil sep text)

/-- Before the first separator of such a text there is nothing. -/
theorem Boundary.splitOn (h : Boundary text) :
    ∃ segments, ((text.splitOn ',').headD []).splitOn ':' = [] :: segments := by
  cases text with
  | nil => exact ⟨[], rfl⟩
  | cons c text =>
    rcases h c rfl with rfl | rfl
    · obtain ⟨first, rest, hsplit⟩ := exists_splitOn ',' text
      refine ⟨first.splitOn ':', ?_⟩
      rw [List.splitOn_cons_eq_if_modifyHead, if_neg (by decide), hsplit]
      exact splitOn_cons first
    · refine ⟨[], ?_⟩
      rw [splitOn_cons]
      rfl

/-- A segment is read, and reading goes on behind it. -/
theorem resume_segment (hcolon : ':' ∉ segment) (hcomma : ',' ∉ segment) (h : Boundary text)
    (hstep : parseSegment uuid entry state segment = .ok state') :
    resume entry uuid state (':' :: (segment ++ text)) = resume entry uuid state' text := by
  obtain ⟨first, rest, hsplit⟩ := exists_splitOn ',' text
  obtain ⟨segments, hsegments⟩ := h.splitOn
  rw [hsplit, List.headD_cons] at hsegments
  have hentries : (':' :: (segment ++ text)).splitOn ',' = (':' :: (segment ++ first)) :: rest := by
    rw [List.splitOn_cons_eq_if_modifyHead, if_neg (by decide), splitOn_append hcomma, hsplit]
    rfl
  have hread : (':' :: (segment ++ first)).splitOn ':' = [] :: segment :: segments := by
    rw [splitOn_cons, splitOn_append hcolon, hsegments, List.modifyHead_cons, List.append_nil]
  rw [resume, resume, hentries, hsplit, List.headD_cons, List.headD_cons, hread, hsegments, List.tail_cons,
    List.tail_cons, List.foldlM_cons, hstep, ok_bind]
  rfl

/-- An entry is read from behind its UUID. -/
theorem parseEntries_uuid (set : GtidSet) (uuid : Uuid) (h : Boundary text) :
    ∃ entry, parseEntries set ((formatUuid uuid).toList ++ text) =
      resume entry uuid ⟨set, none, true, false⟩ text := by
  obtain ⟨first, rest, hsplit⟩ := exists_splitOn ',' text
  obtain ⟨segments, hsegments⟩ := h.splitOn
  rw [hsplit, List.headD_cons] at hsegments
  have hplain : ∀ c ∈ (formatUuid uuid).toList, c ≠ ':' ∧ c ≠ ',' := fun c hc =>
    (isPlain_spec (isPlain_uuid uuid c hc)).2
  have hread : ((formatUuid uuid).toList ++ first).splitOn ':' = (formatUuid uuid).toList :: segments := by
    rw [splitOn_append fun hc => (hplain _ hc).1 rfl, hsegments, List.modifyHead_cons, List.append_nil]
  refine ⟨(formatUuid uuid).toList ++ first, ?_⟩
  rw [parseEntries, splitOn_append fun hc => (hplain _ hc).2 rfl, hsplit, List.modifyHead_cons, List.foldlM_cons,
    parseEntry, resume, hsplit, hread]
  dsimp only [List.headD_cons, List.tail_cons]
  rw [parseUuid_formatUuid, ok_bind, hsegments, List.tail_cons, bind_assoc]

/-- The next entry is read once this one is. -/
theorem resume_entry (hany : state.any = true) (hseen : state.intervalSeen = true) :
    resume entry uuid state (',' :: text) = parseEntries state.set text := by
  have hfinish : state.finish entry = .ok state.set := by rw [EntryState.finish, hany, hseen]; rfl
  rw [resume, splitOn_cons, List.headD_cons, List.splitOn_nil, List.tail_cons, List.foldlM_nil, pure_bind, hfinish,
    ok_bind]
  rfl

end

/-! ## The groups -/

section
variable {entry text : List Char} {uuid uuid' : Uuid} {tag : Option String} {state : EntryState}
  {intervals : List Interval}

/-- Intervals within the numbers that are assigned. -/
def InRange (intervals : List Interval) : Prop := ∀ i ∈ intervals, 1 ≤ i.1 ∧ i.1 ≤ i.2 ∧ i.2 ≤ MAX_GNO

def intervalsText (intervals : List Interval) : List Char := intervals.flatMap fun i => ':' :: intervalText i

theorem boundary_intervalsText (h : Boundary text) : Boundary (intervalsText intervals ++ text) := by
  cases intervals with
  | nil => exact h
  | cons i intervals =>
    rintro c hc
    cases hc
    exact .inl rfl

/-- An interval is read back. -/
theorem resume_interval {i : Interval} (hrange : 1 ≤ i.1 ∧ i.1 ≤ i.2 ∧ i.2 ≤ MAX_GNO) (h : Boundary text) :
    ∃ set, set.members = state.set.members ∪ under (uuid, state.tag) (covered [i]) ∧
      resume entry uuid state (':' :: (intervalText i ++ text)) =
        resume entry uuid ⟨set, state.tag, true, true⟩ text := by
  let range : GnoRange := ⟨i.1, i.2, hrange.1, hrange.2.1, hrange.2.2⟩
  refine ⟨state.set.addRange (uuid, state.tag) range, ?_, ?_⟩
  · rw [members_addRange, covered, covered, Finset.union_empty]
  · have hplain : ∀ c ∈ intervalText i, c ≠ ':' ∧ c ≠ ',' := fun c hc => (isPlain_spec (isPlain_intervalText c hc)).2
    refine resume_segment (fun hc => (hplain _ hc).1 rfl) (fun hc => (hplain _ hc).2 rfl) h ?_
    obtain ⟨c, hhead, hstart⟩ := head_intervalText i
    rw [parseSegment, hhead]
    dsimp only
    rw [hstart, if_neg Bool.false_ne_true, parseInterval_intervalText range, ok_bind]
    rfl

/-- The intervals of a group are read back. -/
theorem resume_intervals (hrange : InRange intervals) (h : Boundary text) :
    ∃ set, set.members = state.set.members ∪ under (uuid, state.tag) (covered intervals) ∧
      resume entry uuid state (intervalsText intervals ++ text) =
        resume entry uuid ⟨set, state.tag, state.intervalSeen || !intervals.isEmpty,
          state.any || !intervals.isEmpty⟩ text := by
  induction intervals generalizing state with
  | nil =>
    refine ⟨state.set, ?_, ?_⟩
    · rw [covered, under, Finset.image_empty, Finset.union_empty]
    · simp [intervalsText]
  | cons i intervals ih =>
    obtain ⟨hi, hintervals⟩ := List.forall_mem_cons.mp hrange
    obtain ⟨set, hset, hresume⟩ := @resume_interval entry (intervalsText intervals ++ text) uuid state i hi
      (boundary_intervalsText h)
    obtain ⟨set', hset', hresume'⟩ := @ih ⟨set, state.tag, true, true⟩ hintervals
    refine ⟨set', ?_, ?_⟩
    · rw [hset', hset, Finset.union_assoc, under, under, ← Finset.image_union, ← covered_append]
      rfl
    · have htext : intervalsText (i :: intervals) ++ text =
          ':' :: (intervalText i ++ (intervalsText intervals ++ text)) := by
        simp [intervalsText]
      rw [htext, hresume, hresume']
      simp

/-- What may be printed of a group. -/
structure Printable (tag : Option String) (intervals : List Interval) : Prop where
  isTag : ∀ t ∈ tag, isTag t = true
  ne_nil : intervals ≠ []
  inRange : InRange intervals

def groupText (tag : Option String) (intervals : List Interval) : List Char :=
  (tag.elim [] fun tag => ':' :: tag.toList) ++ intervalsText intervals

theorem boundary_groupText (h : Boundary text) : Boundary (groupText tag intervals ++ text) := by
  cases tag with
  | none => exact boundary_intervalsText h
  | some tag =>
    rintro c hc
    cases hc
    exact .inl rfl

/-- A group is read back; one without a tag where an entry begins. -/
theorem resume_group (hprint : Printable tag intervals) (htag : tag = none → state.tag = none)
    (hseen : state.intervalSeen = true) (h : Boundary text) :
    ∃ set, set.members = state.set.members ∪ under (uuid, tag) (covered intervals) ∧
      resume entry uuid state (groupText tag intervals ++ text) = resume entry uuid ⟨set, tag, true, true⟩ text := by
  have hempty : intervals.isEmpty = false := List.isEmpty_eq_false_iff.mpr hprint.ne_nil
  cases tag with
  | none =>
    obtain ⟨set, hset, hresume⟩ := @resume_intervals entry text uuid state intervals hprint.inRange h
    rw [htag rfl, hempty, Bool.not_false, Bool.or_true, Bool.or_true] at hresume
    rw [htag rfl] at hset
    exact ⟨set, hset, hresume⟩
  | some tag =>
    have hvalid := hprint.isTag tag rfl
    obtain ⟨⟨c, hhead, hstart⟩, hplain⟩ := isTag_spec hvalid
    have hplain : ∀ c ∈ tag.toList, c ≠ ':' ∧ c ≠ ',' := fun c hc => (isPlain_spec (hplain c hc)).2
    have hstep : parseSegment uuid entry state tag.toList = .ok ⟨state.set, some tag, false, true⟩ := by
      rw [parseSegment, hhead]
      dsimp only
      rw [hstart, if_pos rfl, hseen, if_neg (by decide), String.ofList_toList, checkTag, if_pos hvalid, ok_bind]
      rfl
    obtain ⟨set, hset, hresume⟩ := @resume_intervals entry text uuid ⟨state.set, some tag, false, true⟩ intervals
      hprint.inRange h
    refine ⟨set, hset, ?_⟩
    rw [hempty, Bool.not_false, Bool.or_true, Bool.or_true] at hresume
    rw [← hresume, ← resume_segment (fun hc => (hplain _ hc).1 rfl) (fun hc => (hplain _ hc).2 rfl)
      (boundary_intervalsText h) hstep, groupText, Option.elim_some, List.cons_append, List.cons_append,
      List.append_assoc]

end

/-! ## The set -/

section
variable {entry : List Char} {uuid : Uuid} {previous : Option Uuid} {state : EntryState}
  {entries : List (GtidGroup × List Interval)}

theorem displayFrom_cons (tag : Option String) (intervals : List Interval) :
    displayFrom previous (((uuid, tag), intervals) :: entries) =
      (if previous = some uuid then [] else (if previous.isSome then [','] else []) ++ (formatUuid uuid).toList) ++
        (groupText tag intervals ++ displayFrom (some uuid) entries) := by
  rw [displayFrom, groupText, intervalsText, List.append_assoc, List.append_assoc, List.append_assoc]

theorem boundary_displayFrom : Boundary (displayFrom (some uuid) entries) := by
  induction entries generalizing uuid with
  | nil => exact nofun
  | cons e entries ih =>
    obtain ⟨⟨uuid', tag⟩, intervals⟩ := e
    rw [displayFrom_cons, Option.isSome_some, if_pos rfl]
    split_ifs with heq
    · exact boundary_groupText ih
    · rintro c hc
      cases hc
      exact .inr rfl

/-- Of one UUID, only the first group has no tag. -/
theorem ne_none_of_key_lt {tag tag' : Option String} (h : GtidGroup.key (uuid, tag) < GtidGroup.key (uuid, tag')) :
    tag' ≠ none := by
  rintro rfl
  rcases Prod.Lex.toLex_lt_toLex.mp h with hlt | ⟨-, hlt⟩
  · exact lt_irrefl _ hlt
  · exact not_lt_bot hlt

/-- The transactions of groups. -/
def transactionsOf (entries : List (GtidGroup × List Interval)) : Finset (Σ _ : GtidGroup, Nat) :=
  entries.foldr (fun e members => under e.1 (covered e.2) ∪ members) ∅

/-- What is printed of groups in order is read back, one group after the other. -/
theorem resume_displayFrom {tag : Option String} {intervals : List Interval} (hprint : Printable tag intervals)
    (hentries : ∀ e ∈ entries, Printable e.1.2 e.2)
    (hsorted : ((uuid, tag) :: entries.map Prod.fst).Pairwise fun a b => GtidGroup.key a < GtidGroup.key b)
    (hseen : state.intervalSeen = true) (htag : tag = none → state.tag = none) :
    ∃ set, resume entry uuid state (groupText tag intervals ++ displayFrom (some uuid) entries) = .ok set ∧
      set.members = state.set.members ∪ transactionsOf (((uuid, tag), intervals) :: entries) := by
  induction entries generalizing entry uuid tag intervals state with
  | nil =>
    obtain ⟨set, hset, hresume⟩ := @resume_group entry (displayFrom (some uuid) []) uuid tag state intervals hprint
      htag hseen boundary_displayFrom
    refine ⟨set, hresume.trans rfl, hset.trans ?_⟩
    rw [transactionsOf, List.foldr_cons, List.foldr_nil, Finset.union_empty]
  | cons e entries ih =>
    obtain ⟨⟨uuid', tag'⟩, intervals'⟩ := e
    obtain ⟨hnext, hrest⟩ := List.forall_mem_cons.mp hentries
    obtain ⟨hless, htail⟩ := List.pairwise_cons.mp hsorted
    obtain ⟨set, hset, hresume⟩ := @resume_group entry
      (displayFrom (some uuid) (((uuid', tag'), intervals') :: entries)) uuid tag state intervals hprint htag hseen
      boundary_displayFrom
    have hmembers : set.members ∪ transactionsOf (((uuid', tag'), intervals') :: entries) =
        state.set.members ∪ transactionsOf (((uuid, tag), intervals) :: ((uuid', tag'), intervals') :: entries) := by
      rw [hset, Finset.union_assoc]
      rfl
    rw [hresume, displayFrom_cons, Option.isSome_some, if_pos rfl]
    by_cases heq : uuid = uuid'
    · subst heq
      have htag' : tag' = none → tag = none := fun h =>
        absurd h (ne_none_of_key_lt (hless (uuid, tag') List.mem_cons_self))
      obtain ⟨set', hread, hset'⟩ := @ih entry uuid ⟨set, tag, true, true⟩ tag' intervals' hnext hrest htail rfl htag'
      refine ⟨set', ?_, hset'.trans hmembers⟩
      rw [if_pos rfl]
      exact hread
    · obtain ⟨entry', hentry⟩ := @parseEntries_uuid (groupText tag' intervals' ++ displayFrom (some uuid') entries)
        set uuid' (boundary_groupText boundary_displayFrom)
      obtain ⟨set', hread, hset'⟩ := @ih entry' uuid' ⟨set, none, true, false⟩ tag' intervals' hnext hrest htail rfl
        fun _ => rfl
      refine ⟨set', ?_, hset'.trans hmembers⟩
      rw [if_neg fun h => heq (Option.some.inj h), List.append_assoc, List.cons_append, List.nil_append,
        resume_entry rfl rfl, hentry]
      exact hread

end

/-! ## The set -/

namespace GtidSet

variable {set : GtidSet} {group : GtidGroup} {intervals : List Interval} {text : List Char}

theorem mem_entries :
    (group, intervals) ∈ set.entries ↔ group ∈ set.groups ∧ intervals = set.intervals group := by
  rw [entries, List.mem_map]
  constructor
  · rintro ⟨group', hmem, heq⟩
    cases heq
    exact ⟨Finmap.mem_keys.mp ((Finset.mem_sort _).mp hmem), rfl⟩
  · rintro ⟨hmem, rfl⟩
    exact ⟨group, (Finset.mem_sort _).mpr (Finmap.mem_keys.mpr hmem), rfl⟩

theorem map_fst_entries (set : GtidSet) : set.entries.map Prod.fst = set.groups.keys.sort GtidGroup.le := by
  rw [entries, List.map_map]
  exact List.map_id _

theorem entries_sorted (set : GtidSet) :
    (set.entries.map Prod.fst).Pairwise fun a b => GtidGroup.key a < GtidGroup.key b := by
  rw [map_fst_entries]
  refine ((Finset.pairwise_sort _ GtidGroup.le).and (Finset.sort_nodup _ GtidGroup.le)).imp ?_
  rintro a b ⟨hle, hne⟩
  exact lt_of_le_of_ne hle (GtidGroup.key_injective.ne hne)

theorem mem_transactionsOf {entries : List (GtidGroup × List Interval)} {x : Σ _ : GtidGroup, Nat} :
    x ∈ transactionsOf entries ↔ ∃ e ∈ entries, x ∈ under e.1 (covered e.2) := by
  induction entries with
  | nil => simp [transactionsOf]
  | cons e entries ih =>
    rw [transactionsOf, List.foldr_cons, Finset.mem_union, ← transactionsOf, ih, List.exists_mem_cons_iff]

/-- The entries hold the transactions of the set. -/
theorem transactionsOf_entries (set : GtidSet) : transactionsOf set.entries = set.members := by
  ext ⟨group, n⟩
  rw [mem_transactionsOf, mem_members]
  constructor
  · rintro ⟨⟨group', intervals⟩, he, hx⟩
    obtain ⟨rfl, hn⟩ := mem_under.mp hx
    exact (mem_entries.mp he).2 ▸ hn
  · intro hn
    have hgroup : group ∈ set.groups := by
      by_contra hnot
      rw [intervals_of_notMem hnot] at hn
      exact absurd hn (Finset.notMem_empty n)
    exact ⟨(group, set.intervals group), mem_entries.mpr ⟨hgroup, rfl⟩, mem_under.mpr ⟨rfl, hn⟩⟩

/-- Where the transactions are admissible the intervals are in range. -/
theorem inRange (h : ∀ x ∈ set.members, Admissible x) (group : GtidGroup) : InRange (set.intervals group) := by
  intro i hi
  have hle := (set.canonical_intervals group).nonempty i hi
  have hmem : ∀ n, i.1 ≤ n → n ≤ i.2 → 1 ≤ n ∧ n ≤ MAX_GNO := fun n hn hn' =>
    (h ⟨group, n⟩ (mem_members.mpr (mem_covered.mpr ⟨i, hi, hn, hn'⟩))).2
  exact ⟨(hmem i.1 le_rfl hle).1, hle, (hmem i.2 hle le_rfl).2⟩

theorem printable (h : ∀ x ∈ set.members, Admissible x) : ∀ e ∈ set.entries, Printable e.1.2 e.2 := by
  rintro ⟨group, intervals⟩ he
  obtain ⟨hgroup, rfl⟩ := mem_entries.mp he
  obtain ⟨n, hn⟩ := covered_nonempty hgroup
  exact ⟨(h ⟨group, n⟩ (mem_members.mpr hn)).1, (set.canonical group _ (lookup_of_mem hgroup)).2, inRange h group⟩

end GtidSet

/-- Nothing that is printed is white space. -/
theorem isWhitespace_displayFrom {previous : Option Uuid} {entries : List (GtidGroup × List Interval)}
    (hprint : ∀ e ∈ entries, Printable e.1.2 e.2) :
    ∀ c ∈ displayFrom previous entries, isWhitespace c = false := by
  induction entries generalizing previous with
  | nil => exact nofun
  | cons e entries ih =>
    obtain ⟨⟨uuid, tag⟩, intervals⟩ := e
    obtain ⟨hfirst, hrest⟩ := List.forall_mem_cons.mp hprint
    intro c hc
    rw [displayFrom_cons] at hc
    rcases List.mem_append.mp hc with hc | hc
    · split_ifs at hc
      · cases hc
      · rcases List.mem_cons.mp hc with rfl | hc
        · decide
        · exact (isPlain_spec (isPlain_uuid uuid c hc)).1
      · exact (isPlain_spec (isPlain_uuid uuid c hc)).1
    · rcases List.mem_append.mp hc with hc | hc
      · rcases List.mem_append.mp hc with hc | hc
        · cases tag with
          | none => cases hc
          | some tag =>
            rcases List.mem_cons.mp hc with rfl | hc
            · decide
            · exact (isPlain_spec ((isTag_spec (hfirst.isTag tag rfl)).2 c hc)).1
        · obtain ⟨i, -, hc⟩ := List.mem_flatMap.mp hc
          rcases List.mem_cons.mp hc with rfl | hc
          · decide
          · exact (isPlain_spec (isPlain_intervalText c hc)).1
      · exact ih hrest c hc

/-- A reading that succeeds does so whatever its errors are called. -/
theorem foldlM_mapError_iff {f : GtidSet → List Char → Except String GtidSet} (g : String → String)
    {entries : List (List Char)} {set set' : GtidSet} :
    entries.foldlM (fun set entry => (f set entry).mapError g) set = .ok set' ↔ entries.foldlM f set = .ok set' := by
  induction entries generalizing set with
  | nil => exact Iff.rfl
  | cons entry entries ih =>
    rw [List.foldlM_cons, List.foldlM_cons]
    cases f set entry with
    | error e => exact iff_of_false nofun nofun
    | ok next => exact ih

/-- **What is printed is read back, with white space anywhere in it.** -/
theorem parseGtidSet_display {set : GtidSet} (h : ∀ x ∈ set.members, Admissible x) {text : List Char}
    (htext : (text.filter fun c => !isWhitespace c) = set.display.filter fun c => !isWhitespace c) :
    parseGtidSet text = .ok set := by
  have hdisplay : (set.display.filter fun c => !isWhitespace c) = set.display :=
    List.filter_eq_self.mpr fun c hc => by
      rw [isWhitespace_displayFrom (GtidSet.printable h) c hc]
      rfl
  unfold parseGtidSet
  dsimp only
  rw [htext, hdisplay]
  have hmembers := set.transactionsOf_entries
  have hprint := GtidSet.printable h
  have hsorted := set.entries_sorted
  rw [GtidSet.display]
  cases hentries : set.entries with
  | nil =>
    rw [hentries] at hmembers
    exact congrArg Except.ok (GtidSet.eq_of_members_eq hmembers)
  | cons e entries =>
    obtain ⟨⟨uuid, tag⟩, intervals⟩ := e
    rw [hentries] at hmembers hprint hsorted
    obtain ⟨hfirst, hrest⟩ := List.forall_mem_cons.mp hprint
    obtain ⟨entry, hentry⟩ := @parseEntries_uuid (groupText tag intervals ++ displayFrom (some uuid) entries)
      ∅ uuid (boundary_groupText boundary_displayFrom)
    obtain ⟨set', hread, hset'⟩ := @resume_displayFrom entry uuid ⟨∅, none, true, false⟩ entries tag intervals
      hfirst hrest hsorted rfl fun _ => rfl
    obtain rfl : set' = set := GtidSet.eq_of_members_eq (hset'.trans ((Finset.empty_union _).trans hmembers))
    have hne : ((formatUuid uuid).toList ++ (groupText tag intervals ++ displayFrom (some uuid) entries)).isEmpty =
        false := by
      refine List.isEmpty_eq_false_iff.mpr (List.ne_nil_of_length_pos ?_)
      rw [List.length_append, (formatUuid_spec uuid).2.2]
      omega
    rw [displayFrom_cons, if_neg (Option.some_ne_none uuid).symm, Option.isSome_none, if_neg Bool.false_ne_true,
      List.nil_append, hne, if_neg Bool.false_ne_true]
    exact (foldlM_mapError_iff _).mpr (hentry.trans hread)

end Saci.Mariadb
