import Mathlib.Data.List.Forall2
import Saci.Service.DeadLetterQueue

/-!
# Dead letter conservation

What a replay does with every letter that was in the store. The course of a drain is read off its
fetches alone; the drain is then described in closed form by the offers made along it, and the
replay keeps account of every letter exactly when it is not cancelled at the wrong moment.
-/

namespace Saci

variable {σ : Type} {ipc : ArrowIpcTransformer} {filter : ReplayFilter} {ctx : ReplayCtx σ}

/-! ## Offers -/

/-- The offers of letters in turn. -/
def offers (ipc : ArrowIpcTransformer) (filter : ReplayFilter) (ctx : ReplayCtx σ) :
    σ × List Nat → List Letter → (σ × List Nat) × List Offer
  | s, [] => (s, [])
  | s, letter :: letters =>
    let (s, offered) := offer ipc filter ctx s letter
    let (s, rest) := offers ipc filter ctx s letters
    (s, offered :: rest)

namespace Offer

def kept? : Offer → Option Letter
  | kept letter => some letter
  | delivered _ _ => none

def delivered? : Offer → Option (Nat × Letter)
  | kept _ => none
  | delivered index letter => some (index, letter)

end Offer

/-- A letter that is written back: as it was, or marked as failed again if it was offered. -/
def WrittenBackAs (filter : ReplayFilter) (letter back : Letter) : Prop :=
  back = letter ∨ filter.admits letter = true ∧ ∃ e now, back = letter.retried e now

/-- An offered letter is delivered to the node it names, or kept. -/
theorem offer_spec (ipc : ArrowIpcTransformer) (filter : ReplayFilter) (ctx : ReplayCtx σ)
    (s : σ × List Nat) (letter : Letter) :
    (∃ index, (offer ipc filter ctx s letter).2 = .delivered index letter ∧
        filter.admits letter = true ∧ ctx.ids[index]? = some letter.sink) ∨
      ∃ back, (offer ipc filter ctx s letter).2 = .kept back ∧ WrittenBackAs filter letter back := by
  unfold offer
  split
  · next hadmits =>
    split
    · exact .inr ⟨_, rfl, .inl rfl⟩
    next index hindex =>
    obtain ⟨hlt, hid, -⟩ := List.findIdx?_eq_some_iff_getElem.mp hindex
    have hsink : ctx.ids[index]? = some letter.sink :=
      List.getElem?_eq_some_iff.mpr ⟨hlt, of_decide_eq_true hid⟩
    split
    · exact .inr ⟨_, rfl, .inl rfl⟩
    split
    · exact .inr ⟨_, rfl, .inl rfl⟩
    split
    · exact .inr ⟨_, rfl, .inr ⟨hadmits, _, _, rfl⟩⟩
    split
    · exact .inl ⟨_, rfl, hadmits, hsink⟩
    · exact .inr ⟨_, rfl, .inr ⟨hadmits, _, _, rfl⟩⟩
  · exact .inr ⟨_, rfl, .inl rfl⟩

theorem offers_append (s : σ × List Nat) (front back : List Letter) :
    offers ipc filter ctx s (front ++ back) =
      ((offers ipc filter ctx (offers ipc filter ctx s front).1 back).1,
        (offers ipc filter ctx s front).2 ++
          (offers ipc filter ctx (offers ipc filter ctx s front).1 back).2) := by
  induction front generalizing s with
  | nil => rfl
  | cons letter front ih =>
    have hrest := ih (offer ipc filter ctx s letter).1
    simp only [List.cons_append, offers, hrest]

theorem length_offers (s : σ × List Nat) (letters : List Letter) :
    (offers ipc filter ctx s letters).2.length = letters.length := by
  induction letters generalizing s with
  | nil => rfl
  | cons letter letters ih => exact congrArg (· + 1) (ih _)

/-- An offer is a delivery or keeps the letter. -/
theorem length_kept_add_delivered (os : List Offer) :
    (os.filterMap Offer.kept?).length + (os.filterMap Offer.delivered?).length = os.length := by
  induction os with
  | nil => rfl
  | cons offered os ih =>
    cases offered with
    | kept letter =>
      rw [List.filterMap_cons_some (f := Offer.kept?) rfl, List.filterMap_cons_none (f := Offer.delivered?) rfl]
      simp only [List.length_cons]
      omega
    | delivered index letter =>
      rw [List.filterMap_cons_none (f := Offer.kept?) rfl, List.filterMap_cons_some (f := Offer.delivered?) rfl]
      simp only [List.length_cons]
      omega

/-! ## The course of a drain -/

/-- The letters of a window, up to a row that does not decode. -/
def decodeRows : List (RecordBatch × Nat) → List Letter × Option SaciError
  | [] => ([], none)
  | (batch, row) :: rows =>
    match Letter.fromRow batch row with
    | .error e => ([], some e)
    | .ok letter =>
      let (letters, error) := decodeRows rows
      (letter :: letters, error)

/-- How a drain comes to its end. -/
inductive DrainStop
  /-- The source reports its end, or a fetch fails. -/
  | fetched
  /-- Shutdown is seen; the flag says that the fetch before it brought an empty window. -/
  | cancelled (afterEmpty : Bool)
  /-- A row of the window does not decode; these letters were in front of it. -/
  | undecodable (front : List Letter)

/-- The course of a drain as its turns and the store alone decide it: the letters of the windows that
were gone through, how it stops, and which messages are consumed by then. -/
structure Course where
  windows : List (List Letter)
  stop : DrainStop
  consumed : List RecordBatch
  left : List RecordBatch

def DrainStop.behindEmpty (windows : List (List Letter)) : DrainStop → DrainStop
  | .cancelled afterEmpty => .cancelled (afterEmpty || windows.isEmpty)
  | stop => stop

/-- The course from where one window is held and the rest has not been fetched. -/
def course (held rest : List RecordBatch) : List DrainTurn → Course
  | [] => ⟨[], .fetched, held, rest⟩
  | .cancelled :: _ => ⟨[], .cancelled false, [], held ++ rest⟩
  | .error _ :: _ => ⟨[], .fetched, held, rest⟩
  | .window messages :: turns =>
    let window := rest.take messages
    if (envelopeRows window).isEmpty then
      let behind := course window (rest.drop messages) turns
      { behind with
        stop := behind.stop.behindEmpty behind.windows
        consumed := held ++ behind.consumed }
    else
      match decodeRows (envelopeRows window) with
      | (front, some _) => ⟨[], .undecodable front, held, rest⟩
      | (letters, none) =>
        let behind := course window (rest.drop messages) turns
        { behind with windows := letters :: behind.windows, consumed := held ++ behind.consumed }

namespace Course

/-- The letters whose windows are consumed when the drain stops: a window that was looked at last is
not, unless an empty one came behind it. -/
def settled (c : Course) : List Letter :=
  match c.stop with
  | .cancelled false => c.windows.dropLast.flatten
  | _ => c.windows.flatten

/-- The letters offered. -/
def offered (c : Course) : List Letter :=
  match c.stop with
  | .undecodable front => c.windows.flatten ++ front
  | _ => c.windows.flatten

/-- The letters whose offers are still in hand: a cancelled drain drops those of the last window. -/
def inHand (c : Course) : List Letter :=
  match c.stop with
  | .cancelled _ => c.windows.dropLast.flatten
  | _ => c.windows.flatten

end Course

/-- The rows of a window that decode as these letters. -/
def Decoded (messages : List RecordBatch) (letters : List Letter) : Prop :=
  List.Forall₂ (fun row letter => Letter.fromRow row.1 row.2 = .ok letter) (envelopeRows messages)
    letters

theorem envelopeRows_append (front back : List RecordBatch) :
    envelopeRows (front ++ back) = envelopeRows front ++ envelopeRows back :=
  List.flatMap_append

theorem Decoded.append {front back : List RecordBatch} {letters more : List Letter}
    (h : Decoded front letters) (hback : Decoded back more) :
    Decoded (front ++ back) (letters ++ more) := by
  unfold Decoded
  rw [envelopeRows_append]
  exact List.rel_append h hback

theorem decodeRows_ok {rows : List (RecordBatch × Nat)} {letters : List Letter}
    (h : decodeRows rows = (letters, none)) :
    List.Forall₂ (fun row letter => Letter.fromRow row.1 row.2 = .ok letter) rows letters := by
  induction rows generalizing letters with
  | nil =>
    obtain ⟨rfl, -⟩ := Prod.mk.inj h
    exact .nil
  | cons head rows ih =>
    obtain ⟨batch, row⟩ := head
    rw [decodeRows] at h
    cases hrow : Letter.fromRow batch row with
    | error e =>
      rw [hrow] at h
      exact nomatch (Prod.mk.inj h).2
    | ok letter =>
      rw [hrow] at h
      obtain ⟨rfl, herror⟩ := Prod.mk.inj h
      exact .cons hrow (ih (Prod.ext rfl herror))

/-- The letters behind the consumed messages, if those of the window that is held are given. -/
def Course.settledFrom (held : List Letter) (c : Course) : List Letter :=
  match c.stop with
  | .cancelled false => (held :: c.windows).dropLast.flatten
  | _ => (held :: c.windows).flatten

theorem settledFrom_nil (c : Course) : c.settledFrom [] = c.settled := by
  obtain ⟨windows, stop, consumed, left⟩ := c
  unfold Course.settledFrom Course.settled
  cases windows with
  | nil => rfl
  | cons letters windows => rfl

/-- The consumed messages hold the letters that are settled. -/
theorem consumed_decoded {held : List RecordBatch} {letters : List Letter} (rest : List RecordBatch)
    (turns : List DrainTurn) (hheld : Decoded held letters) :
    Decoded (course held rest turns).consumed ((course held rest turns).settledFrom letters) := by
  have hnone : Decoded [] [] := .nil
  have hall : ∀ {held letters}, Decoded held letters → Decoded held [letters].flatten := by
    intro held letters h
    rwa [List.flatten_cons, List.flatten_nil, List.append_nil]
  induction turns generalizing held rest letters with
  | nil => exact hall hheld
  | cons turn turns ih =>
    cases turn with
    | cancelled => exact hnone
    | error e => exact hall hheld
    | window messages =>
      rw [course]
      dsimp only
      split
      · next hempty =>
        have hwindow : Decoded (rest.take messages) [] := by
          unfold Decoded
          rw [List.isEmpty_iff.mp hempty]
          exact .nil
        have hbehind := hheld.append (ih (rest.drop messages) hwindow)
        generalize course (rest.take messages) (rest.drop messages) turns = behind at *
        obtain ⟨windows, stop, consumed, left⟩ := behind
        rw [settledFrom_nil] at hbehind
        cases windows with
        | nil => cases stop with
          | fetched => exact hbehind
          | undecodable front => exact hbehind
          | cancelled afterEmpty => cases afterEmpty with
            | false => exact hbehind
            | true => exact hbehind
        | cons next windows => cases stop with
          | fetched => exact hbehind
          | undecodable front => exact hbehind
          | cancelled afterEmpty => cases afterEmpty with
            | false => exact hbehind
            | true => exact hbehind
      · split
        · exact hall hheld
        · next more hdecode =>
          have hbehind := hheld.append (ih (rest.drop messages) (decodeRows_ok hdecode))
          generalize course (rest.take messages) (rest.drop messages) turns = behind at *
          obtain ⟨windows, stop, consumed, left⟩ := behind
          cases stop with
          | fetched => exact hbehind
          | undecodable front => exact hbehind
          | cancelled afterEmpty => cases afterEmpty with
            | false => exact hbehind
            | true => exact hbehind

theorem consumed_append_left (held rest : List RecordBatch) (turns : List DrainTurn) :
    (course held rest turns).consumed ++ (course held rest turns).left = held ++ rest := by
  induction turns generalizing held rest with
  | nil => rfl
  | cons turn turns ih =>
    cases turn with
    | cancelled => rfl
    | error e => rfl
    | window messages =>
      have hrest := ih (rest.take messages) (rest.drop messages)
      rw [List.take_append_drop] at hrest
      rw [course]
      dsimp only
      split
      · exact (List.append_assoc ..).trans (congrArg (held ++ ·) hrest)
      · split
        · rfl
        · exact (List.append_assoc ..).trans (congrArg (held ++ ·) hrest)

/-! ## The drain along its course -/

/-- The drain once letters have been offered. -/
def Drain.offerAll (ipc : ArrowIpcTransformer) (filter : ReplayFilter) (ctx : ReplayCtx σ)
    (st : Drain σ) (letters : List Letter) : Drain σ :=
  { st with
    sinks := (offers ipc filter ctx st.sinks letters).1
    retained := st.retained ++ (offers ipc filter ctx st.sinks letters).2.filterMap Offer.kept?
    delivered :=
      st.delivered ++ (offers ipc filter ctx st.sinks letters).2.filterMap Offer.delivered? }

theorem offerAll_note (st : Drain σ) (letter : Letter) (letters : List Letter) :
    (st.note (offer ipc filter ctx st.sinks letter).1
      (offer ipc filter ctx st.sinks letter).2).offerAll ipc filter ctx letters =
        st.offerAll ipc filter ctx (letter :: letters) := by
  unfold Drain.offerAll
  rw [offers]
  dsimp only
  cases (offer ipc filter ctx st.sinks letter).2 with
  | kept back =>
    rw [List.filterMap_cons_some (f := Offer.kept?) rfl,
      List.filterMap_cons_none (f := Offer.delivered?) rfl]
    simp only [Drain.note, List.append_assoc, List.singleton_append]
  | delivered index letter =>
    rw [List.filterMap_cons_none (f := Offer.kept?) rfl,
      List.filterMap_cons_some (f := Offer.delivered?) rfl]
    simp only [Drain.note, List.append_assoc, List.singleton_append]

theorem offerRows_eq (st : Drain σ) (rows : List (RecordBatch × Nat)) :
    st.offerRows ipc filter ctx rows =
      (st.offerAll ipc filter ctx (decodeRows rows).1, (decodeRows rows).2) := by
  induction rows generalizing st with
  | nil =>
    rw [Drain.offerRows, decodeRows]
    simp only [Drain.offerAll, offers, List.filterMap_nil, List.append_nil]
  | cons head rows ih =>
    obtain ⟨batch, row⟩ := head
    rw [Drain.offerRows, decodeRows]
    cases Letter.fromRow batch row with
    | error e => simp only [Drain.offerAll, offers, List.filterMap_nil, List.append_nil]
    | ok letter =>
      dsimp only
      rw [ih, offerAll_note]

/-- What a drain leaves, told by its course. -/
structure DrainedAlong (ipc : ArrowIpcTransformer) (filter : ReplayFilter) (ctx : ReplayCtx σ)
    (st : Drain σ) (c : Course) (r : Drain σ) : Prop where
  left : r.held ++ r.rest = c.left
  delivered : r.delivered = st.delivered ++
    (offers ipc filter ctx st.sinks c.offered).2.filterMap Offer.delivered?
  retained : r.retained = match c.stop, c.windows with
    | .cancelled _, [] => st.retained.take st.window
    | _, _ => st.retained ++ (offers ipc filter ctx st.sinks c.inHand).2.filterMap Offer.kept?

/-- A window gone through, in front of the course behind it. -/
theorem DrainedAlong.behind {r : Drain σ} {letters : List Letter} {c : Course}
    (st st' : Drain σ) (held : List RecordBatch) (hwindow : st'.window = st'.retained.length)
    (hsinks : st'.sinks = st.sinks) (hretained : st'.retained = st.retained)
    (hdelivered : st'.delivered = st.delivered)
    (h : DrainedAlong ipc filter ctx (st'.offerAll ipc filter ctx letters) c r) :
    DrainedAlong ipc filter ctx st
      { c with windows := letters :: c.windows, consumed := held ++ c.consumed } r := by
  obtain ⟨hleft, hdelivered', hretained'⟩ := h
  -- the offers of this window come first, and those of the course behind it follow on them
  have hfollow : ∀ more, (offers ipc filter ctx st.sinks (letters ++ more)).2 =
      (offers ipc filter ctx st.sinks letters).2 ++
        (offers ipc filter ctx (offers ipc filter ctx st.sinks letters).1 more).2 :=
    fun more => congrArg Prod.snd (offers_append _ _ _)
  have hoffered : ∀ more, st.delivered ++ (offers ipc filter ctx st.sinks letters).2.filterMap
        Offer.delivered? ++ (offers ipc filter ctx (offers ipc filter ctx st.sinks letters).1
          more).2.filterMap Offer.delivered? =
      st.delivered ++ (offers ipc filter ctx st.sinks (letters ++ more)).2.filterMap
        Offer.delivered? := by
    intro more
    rw [hfollow, List.filterMap_append, List.append_assoc]
  have hkept : ∀ more, st.retained ++ (offers ipc filter ctx st.sinks letters).2.filterMap
        Offer.kept? ++ (offers ipc filter ctx (offers ipc filter ctx st.sinks letters).1
          more).2.filterMap Offer.kept? =
      st.retained ++ (offers ipc filter ctx st.sinks (letters ++ more)).2.filterMap
        Offer.kept? := by
    intro more
    rw [hfollow, List.filterMap_append, List.append_assoc]
  obtain ⟨windows, stop, consumed, left⟩ := c
  simp only [Drain.offerAll, hsinks, hretained, hdelivered] at hdelivered' hretained' hwindow
  refine ⟨hleft, ?_, ?_⟩
  · cases stop with
    | fetched => exact hdelivered'.trans (hoffered _)
    | cancelled afterEmpty => exact hdelivered'.trans (hoffered _)
    | undecodable front =>
      refine (hdelivered'.trans (hoffered _)).trans ?_
      simp only [Course.offered, List.flatten_cons, List.append_assoc]
  · cases stop with
    | fetched => exact hretained'.trans (hkept _)
    | undecodable front => exact hretained'.trans (hkept _)
    | cancelled afterEmpty =>
      cases windows with
      | nil =>
        -- the cut goes back to where this window started
        refine hretained'.trans ((List.take_left' hwindow.symm).trans ?_)
        exact (List.append_nil _).symm
      | cons next windows =>
        refine (hretained'.trans (hkept _)).trans ?_
        simp only [Course.inHand, List.dropLast_cons_cons, List.flatten_cons]

theorem drain_along {trigger : DlqTrigger} (htrigger : trigger ≠ .purge) (st : Drain σ)
    (turns : List DrainTurn) :
    DrainedAlong ipc filter ctx st (course st.held st.rest turns)
      (st.drain ipc filter ctx trigger turns) := by
  have hnothing : ∀ (os : List (Nat × Letter)), os =
      os ++ (offers ipc filter ctx st.sinks []).2.filterMap Offer.delivered? :=
    fun os => (List.append_nil os).symm
  have hnothing' : ∀ (letters : List Letter), letters =
      letters ++ (offers ipc filter ctx st.sinks []).2.filterMap Offer.kept? :=
    fun letters => (List.append_nil letters).symm
  induction turns generalizing st with
  | nil => exact ⟨rfl, hnothing _, hnothing' _⟩
  | cons turn turns ih =>
    cases turn with
    | cancelled => exact ⟨rfl, hnothing _, rfl⟩
    | error e => exact ⟨rfl, hnothing _, hnothing' _⟩
    | window messages =>
      rw [Drain.drain, course]
      dsimp only
      by_cases hempty : (envelopeRows (st.rest.take messages)).isEmpty
      · rw [if_pos hempty, if_pos hempty]
        obtain ⟨hleft, hdelivered, hretained⟩ := ih
          { st with held := st.rest.take messages, rest := st.rest.drop messages }
          hnothing hnothing'
        generalize course (st.rest.take messages) (st.rest.drop messages) turns = behind at *
        obtain ⟨windows, stop, consumed, left⟩ := behind
        cases stop with
        | fetched => exact ⟨hleft, hdelivered, hretained⟩
        | cancelled afterEmpty =>
          cases windows with
          | nil => exact ⟨hleft, hdelivered, hretained⟩
          | cons letters windows => exact ⟨hleft, hdelivered, hretained⟩
        | undecodable front => exact ⟨hleft, hdelivered, hretained⟩
      · rw [if_neg hempty, if_neg hempty, if_neg htrigger, offerRows_eq]
        cases hdecode : decodeRows (envelopeRows (st.rest.take messages)) with
        | mk letters error =>
          cases error with
          | some e =>
            refine ⟨List.take_append_drop .., rfl, ?_⟩
            exact (List.take_left' rfl).trans (hnothing' _)
          | none =>
            let st' : Drain σ := { st with
              held := st.rest.take messages
              rest := st.rest.drop messages
              window := st.retained.length }
            have hdrained : DrainedAlong ipc filter ctx (st'.offerAll ipc filter ctx letters)
                (course (st.rest.take messages) (st.rest.drop messages) turns)
                ((st'.offerAll ipc filter ctx letters).drain ipc filter ctx trigger turns) :=
              ih _ (fun os => (List.append_nil os).symm) (fun letters => (List.append_nil letters).symm)
            exact hdrained.behind st st' st.held rfl rfl rfl rfl

end Saci
