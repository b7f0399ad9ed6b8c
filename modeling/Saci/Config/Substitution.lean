import Mathlib.Data.List.Dedup
import Mathlib.Data.String.Basic
import Saci.Core.Error
import Saci.Library.Table

/-!
# Variable substitution

`substitute_with`, `substitute_vars` and `resolve_declared_or_env` (`saci-config/src/lib.rs`). The
recursion goes through the resolver that `substitute_with` is given and through the stack of names
under expansion, which the model threads as a state; it is bounded by a depth, and each descent puts
one more declared name on the stack, so a depth larger than the number of declared names is enough
(`substituteVars_spec`). What the environment answers for a name is a parameter.
-/

namespace Saci.Substitution

/-- What a bounded descent answers; `none` when it would go deeper than its bound. -/
abbrev Outcome (α : Type) := Option (SaciResult α)

def unclosedPlaceholder : SaciError := .configuration "unclosed '$\x7b' in config — missing '\x7d'"

def unsetVariable (varName : String) : SaciError :=
  .configuration ("env var '$\x7b" ++ varName ++ "\x7d' is not set and has no default")

def cyclicReference (name : String) : SaciError :=
  .configuration ("cyclic variable reference: $\x7b" ++ name ++ "\x7d")

/-! ## Scanning -/

/-- The loop that collects a placeholder up to its closing brace. -/
def takePlaceholder (placeholder : String) : List Char → Option (String × List Char)
  | [] => none
  | inner :: chars =>
    if inner = '}' then some (placeholder, chars) else takePlaceholder (placeholder.push inner) chars

/-- Where a placeholder's default begins: what stands before the first `:-` and what after it. -/
def findFallback : List Char → Option (List Char × List Char)
  | [] => none
  | ch :: chars =>
    if ch = ':' ∧ chars.head? = some '-' then some ([], chars.tail)
    else (findFallback chars).map fun (before, after) => (ch :: before, after)

/-- A placeholder's variable name and its default. -/
def splitFallback (placeholder : String) : String × Option String :=
  match findFallback placeholder.toList with
  | some (before, after) => (String.ofList before, some (String.ofList after))
  | none => (placeholder, none)

theorem length_takePlaceholder {chars rest : List Char} {acc placeholder : String}
    (h : takePlaceholder acc chars = some (placeholder, rest)) : rest.length < chars.length := by
  induction chars generalizing acc with
  | nil => cases h
  | cons inner chars ih =>
    rw [takePlaceholder] at h
    split_ifs at h with hclose
    · cases h
      exact Nat.lt_succ_self _
    · exact (ih h).trans (Nat.lt_succ_self _)

theorem lt_length_cons_of_takePlaceholder {ch : Char} {chars rest : List Char}
    {acc placeholder : String} (h : takePlaceholder acc chars.tail = some (placeholder, rest)) :
    rest.length < (ch :: chars).length := by
  have hlt := length_takePlaceholder h
  rw [List.length_tail] at hlt
  rw [List.length_cons]
  omega

section
variable {σ : Type} (resolve : String → σ → Outcome (Option String × σ))

/-- The loop of `substitute_with` over the characters that are left. -/
def substituteFrom (chars : List Char) (result : String) (state : σ) : Outcome (String × σ) :=
  match chars with
  | [] => some (.ok (result, state))
  | ch :: chars =>
    if ch = '$' ∧ chars.head? = some '{' then
      match _h : takePlaceholder "" chars.tail with
      | none => some (.error unclosedPlaceholder)
      | some (placeholder, rest) =>
        let (varName, fallback) := splitFallback placeholder
        match resolve varName state with
        | none => none
        | some (.error e) => some (.error e)
        | some (.ok (some val, state)) => substituteFrom rest (result ++ val) state
        | some (.ok (none, state)) =>
          match fallback with
          | some default => substituteFrom rest (result ++ default) state
          | none => some (.error (unsetVariable varName))
    else substituteFrom chars (result.push ch) state
termination_by chars.length
decreasing_by
  all_goals first
    | exact Nat.lt_succ_self _
    | exact lt_length_cons_of_takePlaceholder _h

/-- Substitute the placeholders of a text by asking `resolve`, whose state it threads. -/
def substituteWith (raw : String) (state : σ) : Outcome (String × σ) :=
  substituteFrom resolve raw.toList "" state

end

/-- `substitute_env_vars`. -/
def substituteEnvVars (env : String → Option String) (raw : String) : Outcome String :=
  (substituteWith (fun name (_ : Unit) => some (.ok (env name, ()))) raw ()).map (·.map Prod.fst)

section
variable (declared : Table String String) (env : String → Option String)

/-- Resolve one name, with the stack of the names being expanded. -/
def resolveDeclaredOrEnv : Nat → String → List String → Outcome (Option String × List String)
  | 0, _, _ => none
  | depth + 1, name, stack =>
    match declared.get name with
    | some value =>
      if stack.any (· == name) then some (.error (cyclicReference name))
      else
        match substituteWith (resolveDeclaredOrEnv depth) value (stack ++ [name]) with
        | none => none
        | some (.error e) => some (.error e)
        | some (.ok (expanded, stack)) => some (.ok (some expanded, stack.dropLast))
    | none => some (.ok (env name, stack))

/-- The closure of `substitute_vars`: each placeholder of the text starts with an empty stack. -/
def resolveFresh (depth : Nat) (name : String) (_ : Unit) : Outcome (Option String × Unit) :=
  (resolveDeclaredOrEnv declared env depth name []).map (·.map fun (value, _) => (value, ()))

/-- `substitute_vars`, with a bound on how deep it descends. -/
def substituteVars (depth : Nat) (raw : String) : Outcome String :=
  (substituteWith (resolveFresh declared env depth) raw ()).map (·.map Prod.fst)

end

/-! ## The pieces of a text -/

/-- What the scan finds: a character that stands for itself, a placeholder with its name and
default, or a placeholder that is not closed, with all that is left of the text. -/
inductive Piece
  | literal (ch : Char)
  | placeholder (varName : String) (fallback : Option String)
  | unclosed (rest : List Char)
  deriving DecidableEq

def pieces (chars : List Char) : List Piece :=
  match chars with
  | [] => []
  | ch :: chars =>
    if ch = '$' ∧ chars.head? = some '{' then
      match _h : takePlaceholder "" chars.tail with
      | none => [.unclosed chars.tail]
      | some (placeholder, rest) =>
        .placeholder (splitFallback placeholder).1 (splitFallback placeholder).2 :: pieces rest
    else .literal ch :: pieces chars
termination_by chars.length
decreasing_by
  all_goals first
    | exact Nat.lt_succ_self _
    | exact lt_length_cons_of_takePlaceholder _h

/-! ## What a substitution is for -/

section
variable (declared : Table String String) (env : String → Option String)

/-- A text with its placeholders replaced, while the names in `opened` are being expanded: by the
declared value, expanded in turn, else by what the environment says, else by the default. -/
inductive Expands : List String → List Piece → String → Prop
  | nil {opened : List String} : Expands opened [] ""
  | literal {opened : List String} {ch : Char} {rest : List Piece} {text : String} :
    Expands opened rest text → Expands opened (.literal ch :: rest) (String.singleton ch ++ text)
  | declared {opened : List String} {name value val text : String} {fallback : Option String}
    {rest : List Piece} : declared.get name = some value → name ∉ opened →
    Expands (opened ++ [name]) (pieces value.toList) val → Expands opened rest text →
    Expands opened (.placeholder name fallback :: rest) (val ++ text)
  | environment {opened : List String} {name val text : String} {fallback : Option String}
    {rest : List Piece} : declared.get name = none → env name = some val →
    Expands opened rest text → Expands opened (.placeholder name fallback :: rest) (val ++ text)
  | fallback {opened : List String} {name default text : String} {rest : List Piece} :
    declared.get name = none → env name = none → Expands opened rest text →
    Expands opened (.placeholder name (some default) :: rest) (default ++ text)

/-- A placeholder the scan comes to, and the names that are being expanded there. -/
inductive Visit
  | closed (opened : List String) (varName : String) (fallback : Option String)
  | unclosed

/-- The placeholders that a scan comes to: from left to right, each after all that stands before it
has been expanded, descending into the declared values. -/
inductive Reaches : List String → List Piece → Visit → Prop
  | here {opened : List String} {name : String} {fallback : Option String} {rest : List Piece} :
    Reaches opened (.placeholder name fallback :: rest) (.closed opened name fallback)
  | unclosed {opened : List String} {left : List Char} {rest : List Piece} :
    Reaches opened (.unclosed left :: rest) .unclosed
  | inside {opened : List String} {name value : String} {fallback : Option String}
    {rest : List Piece} {visit : Visit} : declared.get name = some value → name ∉ opened →
    Reaches (opened ++ [name]) (pieces value.toList) visit →
    Reaches opened (.placeholder name fallback :: rest) visit
  | later {opened : List String} {piece : Piece} {rest : List Piece} {text : String}
    {visit : Visit} : Expands declared env opened [piece] text → Reaches opened rest visit →
    Reaches opened (piece :: rest) visit

/-- A declared name is reached again while it is being expanded. -/
def Visit.Cyclic : Visit → Prop
  | .closed opened name _ => declared.get name ≠ none ∧ name ∈ opened
  | .unclosed => False

/-- The placeholder is closed and has a value: it is declared, set in the environment or has a
default. -/
def Visit.HasValue : Visit → Prop
  | .closed _ name fallback => declared.get name ≠ none ∨ env name ≠ none ∨ fallback ≠ none
  | .unclosed => False

end

/-! ## The loop over the pieces -/

section
variable {σ : Type} (resolve : String → σ → Outcome (Option String × σ))

/-- `substituteFrom` over pieces. -/
def fillIn : List Piece → String → σ → Outcome (String × σ)
  | [], result, state => some (.ok (result, state))
  | .literal ch :: rest, result, state => fillIn rest (result.push ch) state
  | .unclosed _ :: _, _, _ => some (.error unclosedPlaceholder)
  | .placeholder varName fallback :: rest, result, state =>
    match resolve varName state with
    | none => none
    | some (.error e) => some (.error e)
    | some (.ok (some val, state)) => fillIn rest (result ++ val) state
    | some (.ok (none, state)) =>
      match fallback with
      | some default => fillIn rest (result ++ default) state
      | none => some (.error (unsetVariable varName))

theorem substituteFrom_eq_fillIn (chars : List Char) (result : String) (state : σ) :
    substituteFrom resolve chars result state = fillIn resolve (pieces chars) result state := by
  fun_induction pieces chars generalizing result state with
  | case1 => rw [substituteFrom, fillIn]
  | case2 ch chars hopen hnone =>
    rw [substituteFrom, if_pos hopen, fillIn]
    split
    · rfl
    · next hsome =>
      rw [hnone] at hsome
      cases hsome
  | case3 ch chars hopen placeholder rest hsome ih =>
    rw [substituteFrom, if_pos hopen, fillIn]
    split
    · next hnone =>
      rw [hsome] at hnone
      cases hnone
    · next placeholder' rest' hsome' =>
      rw [hsome] at hsome'
      cases hsome'
      simp only [ih]
  | case4 ch chars hopen ih => rw [substituteFrom, if_neg hopen, fillIn, ih]

theorem substituteWith_eq_fillIn (raw : String) (state : σ) :
    substituteWith resolve raw state = fillIn resolve (pieces raw.toList) "" state :=
  substituteFrom_eq_fillIn resolve _ _ _

end

/-! ## The scan and its errors -/

section
variable {declared : Table String String} {env : String → Option String}

/-- The error that ends a scan at a visit. -/
def Visit.error (declared : Table String String) (env : String → Option String) :
    Visit → Option SaciError
  | .unclosed => some unclosedPlaceholder
  | .closed opened name fallback =>
    if declared.get name ≠ none then if name ∈ opened then some (cyclicReference name) else none
    else if env name ≠ none ∨ fallback ≠ none then none
    else some (unsetVariable name)

/-- What expands has no errors in it. -/
theorem Expands.error_eq_none {opened : List String} {ps : List Piece} {text : String}
    (h : Expands declared env opened ps text) {visit : Visit}
    (hreaches : Reaches declared env opened ps visit) : visit.error declared env = none := by
  induction h with
  | nil => cases hreaches
  | literal _ ih =>
    cases hreaches with
    | later _ hrest => exact ih hrest
  | declared hget hnot _ _ ihval ihrest =>
    cases hreaches with
    | here => simp [Visit.error, hget, hnot]
    | inside hget' _ hinside =>
      rw [hget, Option.some.injEq] at hget'
      subst hget'
      exact ihval hinside
    | later _ hrest => exact ihrest hrest
  | environment hget henv _ ih =>
    cases hreaches with
    | here => simp [Visit.error, hget, henv]
    | inside hget' =>
      rw [hget] at hget'
      cases hget'
    | later _ hrest => exact ih hrest
  | fallback hget henv _ ih =>
    cases hreaches with
    | here => simp [Visit.error, hget]
    | inside hget' =>
      rw [hget] at hget'
      cases hget'
    | later _ hrest => exact ih hrest

theorem Expands.unique {opened : List String} {ps : List Piece} {text text' : String}
    (h : Expands declared env opened ps text) (h' : Expands declared env opened ps text') :
    text = text' := by
  induction h generalizing text' with
  | nil => cases h'; rfl
  | literal _ ih =>
    cases h' with
    | literal hrest => rw [ih hrest]
  | declared hget _ _ _ ihval ihrest =>
    cases h' with
    | declared hget' _ hval hrest =>
      rw [hget, Option.some.injEq] at hget'
      subst hget'
      rw [ihval hval, ihrest hrest]
    | environment hget' => rw [hget] at hget'; cases hget'
    | fallback hget' => rw [hget] at hget'; cases hget'
  | environment hget henv _ ih =>
    cases h' with
    | declared hget' => rw [hget] at hget'; cases hget'
    | environment _ henv' hrest =>
      rw [henv, Option.some.injEq] at henv'
      rw [henv', ih hrest]
    | fallback _ henv' => rw [henv] at henv'; cases henv'
  | fallback hget henv _ ih =>
    cases h' with
    | declared hget' => rw [hget] at hget'; cases hget'
    | environment _ henv' => rw [henv] at henv'; cases henv'
    | fallback _ _ hrest => rw [ih hrest]

/-- A scan comes to one error only: everything before it has been expanded. -/
theorem Reaches.error_unique {opened : List String} {ps : List Piece} {visit visit' : Visit}
    {e e' : SaciError} (h : Reaches declared env opened ps visit)
    (he : visit.error declared env = some e) (h' : Reaches declared env opened ps visit')
    (he' : visit'.error declared env = some e') : visit = visit' := by
  induction h generalizing visit' with
  | here =>
    cases h' with
    | here => rfl
    | inside hget hnot => simp [Visit.error, hget, hnot] at he
    | later hexpands =>
      rw [hexpands.error_eq_none .here] at he
      cases he
  | unclosed =>
    cases h' with
    | unclosed => rfl
    | later hexpands => cases hexpands
  | inside hget hnot hinside ih =>
    cases h' with
    | here => simp [Visit.error, hget, hnot] at he'
    | inside hget' _ hinside' =>
      rw [hget, Option.some.injEq] at hget'
      subst hget'
      exact ih he hinside' he'
    | later hexpands =>
      rw [hexpands.error_eq_none (.inside hget hnot hinside)] at he
      cases he
  | later hexpands _ ih =>
    cases h' with
    | here =>
      rw [hexpands.error_eq_none .here] at he'
      cases he'
    | unclosed => cases hexpands
    | inside hget hnot hinside =>
      rw [hexpands.error_eq_none (.inside hget hnot hinside)] at he'
      cases he'
    | later _ hrest => exact ih he hrest he'

/-! ## What a name resolves to -/

/-- What a name resolves to while the names in `opened` are being expanded. -/
inductive Resolves (declared : Table String String) (env : String → Option String)
    (opened : List String) (name : String) : SaciResult (Option String) → Prop
  | expanded {value val : String} : declared.get name = some value → name ∉ opened →
    Expands declared env (opened ++ [name]) (pieces value.toList) val →
    Resolves declared env opened name (.ok (some val))
  | environment : declared.get name = none → Resolves declared env opened name (.ok (env name))
  | cyclic : declared.get name ≠ none → name ∈ opened →
    Resolves declared env opened name (.error (cyclicReference name))
  | failed {value : String} {visit : Visit} {e : SaciError} : declared.get name = some value →
    name ∉ opened → Reaches declared env (opened ++ [name]) (pieces value.toList) visit →
    visit.error declared env = some e → Resolves declared env opened name (.error e)

/-- What filling in the pieces gives: what they expand to, or the error of a visit. -/
def Fills (declared : Table String String) (env : String → Option String) (opened : List String)
    (ps : List Piece) (result : String) : SaciResult String → Prop
  | .ok text => ∃ added, text = result ++ added ∧ Expands declared env opened ps added
  | .error e => ∃ visit, Reaches declared env opened ps visit ∧ visit.error declared env = some e

/-- The error of a later piece is an error of the whole, and a later text is added. -/
theorem Fills.cons {opened : List String} {piece : Piece} {ps : List Piece}
    {result val : String} {answer : SaciResult String}
    (h : Fills declared env opened ps (result ++ val) answer)
    (hpiece : ∀ {rest text}, Expands declared env opened rest text →
      Expands declared env opened (piece :: rest) (val ++ text)) :
    Fills declared env opened (piece :: ps) result answer := by
  cases answer with
  | ok text =>
    obtain ⟨added, rfl, hexpands⟩ := h
    exact ⟨val ++ added, String.append_assoc, hpiece hexpands⟩
  | error e =>
    obtain ⟨visit, hreaches, herror⟩ := h
    exact ⟨visit, .later (hpiece .nil) hreaches, herror⟩

section
variable {σ : Type} {resolve : String → σ → Outcome (Option String × σ)}

/-- The loop does what its resolver does, and leaves the state as it was. -/
theorem fillIn_spec {opened : List String} {state : σ}
    (hresolve : ∀ name, ∃ answer, resolve name state = some (answer.map (·, state)) ∧
      Resolves declared env opened name answer) (ps : List Piece) (result : String) :
    ∃ answer, fillIn resolve ps result state = some (answer.map (·, state)) ∧
      Fills declared env opened ps result answer := by
  induction ps generalizing result with
  | nil => exact ⟨.ok result, rfl, "", String.append_empty.symm, .nil⟩
  | cons piece ps ih =>
    cases piece with
    | literal ch =>
      obtain ⟨answer, hfill, hfills⟩ := ih (result.push ch)
      rw [String.push_eq_append] at hfills
      exact ⟨answer, hfill, hfills.cons .literal⟩
    | unclosed => exact ⟨.error unclosedPlaceholder, rfl, .unclosed, .unclosed, rfl⟩
    | placeholder name fallback =>
      obtain ⟨answer, hanswer, hresolves⟩ := hresolve name
      rw [fillIn, hanswer]
      cases hresolves with
      | @expanded value val hget hnot hexpands =>
        obtain ⟨answer, hfill, hfills⟩ := ih (result ++ val)
        exact ⟨answer, hfill, hfills.cons (.declared hget hnot hexpands)⟩
      | environment hget =>
        cases henv : env name with
        | some val =>
          obtain ⟨answer, hfill, hfills⟩ := ih (result ++ val)
          exact ⟨answer, hfill, hfills.cons (.environment hget henv)⟩
        | none =>
          cases fallback with
          | some default =>
            obtain ⟨answer, hfill, hfills⟩ := ih (result ++ default)
            exact ⟨answer, hfill, hfills.cons (.fallback hget henv)⟩
          | none =>
            refine ⟨.error (unsetVariable name), rfl, _, .here, ?_⟩
            simp [Visit.error, hget, henv]
      | cyclic hget hmem =>
        refine ⟨.error (cyclicReference name), rfl, _, .here, ?_⟩
        simp [Visit.error, hget, hmem]
      | @failed _ visit e hget hnot hreaches herror =>
        exact ⟨.error e, rfl, visit, .inside hget hnot hreaches, herror⟩

end

/-! ## The descent -/

/-- How many declared names are not being expanded. -/
def unopened (declared : Table String String) (opened : List String) : Nat :=
  (declared.keys.filter (· ∉ opened)).length

/-- A descent opens one more declared name. -/
theorem unopened_lt {opened : List String} {name value : String}
    (hget : declared.get name = some value) (hnot : name ∉ opened) :
    unopened declared (opened ++ [name]) < unopened declared opened := by
  have hmem : name ∈ declared.keys.filter (· ∉ opened) := by
    simp [Table.mem_keys, hget, hnot]
  have hsplit : declared.keys.filter (· ∉ opened ++ [name]) =
      (declared.keys.filter (· ∉ opened)).filter (· ≠ name) := by
    rw [List.filter_filter]
    exact List.filter_congr fun key _ => by simp [and_comm]
  rw [unopened, unopened, hsplit]
  exact List.length_filter_lt_length_iff_exists.mpr ⟨name, hmem, by simp⟩

/-- With a depth larger than the number of names that may still be opened, a name resolves, and the
stack is left as it was. The induction is on the depth: each descent opens a name. -/
theorem resolveDeclaredOrEnv_spec {depth : Nat} {stack : List String}
    (h : unopened declared stack < depth) (name : String) :
    ∃ answer, resolveDeclaredOrEnv declared env depth name stack = some (answer.map (·, stack)) ∧
      Resolves declared env stack name answer := by
  induction depth generalizing stack name with
  | zero => exact absurd h (Nat.not_lt_zero _)
  | succ depth ih =>
    rw [resolveDeclaredOrEnv]
    cases hget : declared.get name with
    | none => exact ⟨.ok (env name), rfl, .environment hget⟩
    | some value =>
      by_cases hmem : name ∈ stack
      · refine ⟨.error (cyclicReference name), by simp [hmem, Except.map], ?_⟩
        exact .cyclic (by simp [hget]) hmem
      · have hdepth : unopened declared (stack ++ [name]) < depth := by
          have := unopened_lt hget hmem
          omega
        obtain ⟨answer, hfill, hfills⟩ :=
          fillIn_spec (fun inner => ih hdepth inner) (pieces value.toList) ""
        have hany : (stack.any (· == name)) = false := by
          simpa using fun x hx (heq : x = name) => hmem (heq ▸ hx)
        simp only [hany, Bool.false_eq_true, if_false, substituteWith_eq_fillIn, hfill]
        cases answer with
        | ok text =>
          obtain ⟨added, rfl, hexpands⟩ := hfills
          refine ⟨.ok (some ("" ++ added)), by simp [Except.map], ?_⟩
          rw [String.empty_append]
          exact .expanded hget hmem hexpands
        | error e =>
          obtain ⟨visit, hreaches, herror⟩ := hfills
          exact ⟨.error e, rfl, .failed hget hmem hreaches herror⟩

/-- The whole substitution, with enough depth. -/
theorem substituteVars_fills {depth : Nat} (h : declared.rows.length < depth) (raw : String) :
    ∃ answer, substituteVars declared env depth raw = some answer ∧
      Fills declared env [] (pieces raw.toList) "" answer := by
  have hdepth : unopened declared [] < depth := by
    refine lt_of_le_of_lt ?_ h
    exact (List.length_filter_le _ _).trans (by rw [Table.keys, List.length_map])
  have hresolve : ∀ name, ∃ answer,
      resolveFresh declared env depth name () = some (answer.map (·, ())) ∧
        Resolves declared env [] name answer := by
    intro name
    obtain ⟨answer, hanswer, hresolves⟩ := resolveDeclaredOrEnv_spec hdepth name
    refine ⟨answer, ?_, hresolves⟩
    rw [resolveFresh, hanswer]
    cases answer <;> rfl
  obtain ⟨answer, hfill, hfills⟩ := fillIn_spec hresolve (pieces raw.toList) ""
  refine ⟨answer, ?_, hfills⟩
  rw [substituteVars, substituteWith_eq_fillIn, hfill]
  cases answer <;> rfl

/-- The three errors of a scan have different texts. -/
theorem cyclicReference_ne (name varName : String) :
    cyclicReference name ≠ unclosedPlaceholder ∧ cyclicReference name ≠ unsetVariable varName := by
  have hfirst : ∀ {text text' : String}, SaciError.configuration text = .configuration text' →
      text.toList.head? = text'.toList.head? := by
    rintro text _ ⟨⟩
    rfl
  constructor
  · intro h
    have := hfirst h
    simp at this
  · intro h
    have := hfirst h
    simp at this

theorem cyclic_iff_error {visit : Visit} :
    visit.Cyclic declared ↔ ∃ name, visit.error declared env = some (cyclicReference name) := by
  cases visit with
  | unclosed =>
    refine ⟨False.elim, fun ⟨name, h⟩ => ?_⟩
    exact (cyclicReference_ne name "").1 (Option.some.inj h).symm
  | closed opened name fallback =>
    constructor
    · rintro ⟨hget, hmem⟩
      exact ⟨name, by simp [Visit.error, hget, hmem]⟩
    · rintro ⟨other, h⟩
      rw [Visit.error] at h
      split_ifs at h with hget hmem
      · exact ⟨hget, hmem⟩
      · exact absurd (Option.some.inj h).symm (cyclicReference_ne other name).2

/-- Without a cycle, a visit is an error exactly when its placeholder is not closed or has no
value. -/
theorem hasValue_iff_error {visit : Visit} (h : ¬visit.Cyclic declared) :
    visit.HasValue declared env ↔ visit.error declared env = none := by
  cases visit with
  | unclosed => simp [Visit.HasValue, Visit.error]
  | closed opened name fallback =>
    rw [Visit.HasValue, Visit.error]
    split_ifs with hget hmem hvalue
    · exact absurd ⟨hget, hmem⟩ h
    · simp [hget]
    · simp [hvalue]
    · simpa [hget] using hvalue

/-- An answer is an error exactly when the scan comes to a visit with that error. -/
theorem Fills.error_iff {ps : List Piece} {result : String} {answer : SaciResult String}
    {opened : List String} (h : Fills declared env opened ps result answer) (e : SaciError) :
    answer = .error e ↔
      ∃ visit, Reaches declared env opened ps visit ∧ visit.error declared env = some e := by
  constructor
  · rintro rfl
    exact h
  · rintro ⟨visit, hreaches, herror⟩
    cases answer with
    | ok text =>
      obtain ⟨_, _, hexpands⟩ := h
      rw [hexpands.error_eq_none hreaches] at herror
      cases herror
    | error e' =>
      obtain ⟨visit', hreaches', herror'⟩ := h
      rw [hreaches.error_unique herror hreaches' herror', herror', Option.some.injEq] at herror
      rw [herror]

theorem Fills.ok_iff {ps : List Piece} {answer : SaciResult String} {opened : List String}
    (h : Fills declared env opened ps "" answer) (text : String) :
    answer = .ok text ↔ Expands declared env opened ps text := by
  constructor
  · rintro rfl
    obtain ⟨added, rfl, hexpands⟩ := h
    rwa [String.empty_append]
  · intro hexpands
    cases answer with
    | ok text' =>
      obtain ⟨added, rfl, hexpands'⟩ := h
      rw [String.empty_append, hexpands'.unique hexpands]
    | error e =>
      obtain ⟨visit, hreaches, herror⟩ := h
      rw [hexpands.error_eq_none hreaches] at herror
      cases herror

/-- The answer is one, whatever the depth. -/
theorem Fills.eq {ps : List Piece} {answer answer' : SaciResult String} {opened : List String}
    (h : Fills declared env opened ps "" answer) (h' : Fills declared env opened ps "" answer') :
    answer = answer' := by
  cases answer' with
  | ok text => exact (h.ok_iff text).mpr ((h'.ok_iff text).mp rfl)
  | error e => exact (h.error_iff e).mpr h'

end

/-- Substitution returns whatever the depth it is given beyond the number of declared names. It
reports a cycle exactly when the scan comes to a declared name that is being expanded; where it comes
to none, it succeeds exactly when each placeholder it comes to is closed and has a value; and what it
returns is the text with each placeholder replaced. -/
theorem substituteVars_spec (declared : Table String String) (env : String → Option String)
    (raw : String) : ∃ answer : SaciResult String,
      (∀ depth, declared.rows.length < depth →
        substituteVars declared env depth raw = some answer) ∧
      ((∃ name, answer = .error (cyclicReference name)) ↔
        ∃ visit, Reaches declared env [] (pieces raw.toList) visit ∧ visit.Cyclic declared) ∧
      ((¬∃ visit, Reaches declared env [] (pieces raw.toList) visit ∧ visit.Cyclic declared) →
        ((∃ text, answer = .ok text) ↔
          ∀ visit, Reaches declared env [] (pieces raw.toList) visit → visit.HasValue declared env)) ∧
      ∀ text, answer = .ok text ↔ Expands declared env [] (pieces raw.toList) text := by
  obtain ⟨answer, _, hfills⟩ : ∃ answer, substituteVars declared env (declared.rows.length + 1) raw =
      some answer ∧ Fills declared env [] (pieces raw.toList) "" answer :=
    substituteVars_fills (Nat.lt_succ_self _) raw
  refine ⟨answer, fun depth hdepth => ?_, ?_, fun hacyclic => ?_, hfills.ok_iff⟩
  · obtain ⟨answer', hanswer', hfills'⟩ := substituteVars_fills hdepth raw
    rw [hanswer', hfills'.eq hfills]
  · constructor
    · rintro ⟨name, h⟩
      obtain ⟨visit, hreaches, herror⟩ := (hfills.error_iff _).mp h
      exact ⟨visit, hreaches, cyclic_iff_error.mpr ⟨name, herror⟩⟩
    · rintro ⟨visit, hreaches, hcyclic⟩
      obtain ⟨name, herror⟩ := cyclic_iff_error.mp hcyclic
      exact ⟨name, (hfills.error_iff _).mpr ⟨visit, hreaches, herror⟩⟩
  · have hvalue : ∀ visit, Reaches declared env [] (pieces raw.toList) visit →
        (visit.HasValue declared env ↔ visit.error declared env = none) :=
      fun visit hreaches => hasValue_iff_error fun hcyclic => hacyclic ⟨visit, hreaches, hcyclic⟩
    constructor
    · rintro ⟨text, h⟩ visit hreaches
      exact (hvalue visit hreaches).mpr (((hfills.ok_iff text).mp h).error_eq_none hreaches)
    · intro hall
      cases answer with
      | ok text => exact ⟨text, rfl⟩
      | error e =>
        obtain ⟨visit, hreaches, herror⟩ := hfills
        rw [(hvalue visit hreaches).mp (hall visit hreaches)] at herror
        cases herror

end Saci.Substitution
