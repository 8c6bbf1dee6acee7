import Drafting.Proofs.Grammar.Texts
import Drafting.Proofs.Stepping.Engine

/-!
# Actions that follow a reading

An action on a cursor follows a reading of the text ahead when it does to the cursor what the reading
says: it has the same result or is refused for the same cause, and it leaves the cursor where the
reading leaves off. As a reading knows no mishap but a refusal, such an action meets with no other.

## Main definitions

* `outcome` — the end of an action.
* `told` — what a reading tells of it.
* `Follows` — an action that does what a reading says.
-/

namespace Drafting

/-! ## Places of a cursor -/

namespace Cursor

variable {cursor : Cursor} {left left' : List Char}

theorem rest_movedTo (h : left <:+ cursor.rest) : (cursor.movedTo left).rest = left := by
  obtain ⟨taken, htaken⟩ := h
  have hoffset : (cursor.movedTo left).offset = cursor.offset + taken.length := by
    simp [movedTo, ← htaken]
  rw [rest, hoffset, ← List.drop_drop]
  change cursor.rest.drop taken.length = left
  rw [← htaken, List.drop_left]

theorem movedTo_movedTo (h : left <:+ cursor.rest) (h' : left' <:+ left) :
    (cursor.movedTo left).movedTo left' = cursor.movedTo left' := by
  have hlength := h.length_le
  have hlength' := h'.length_le
  have hrest := rest_movedTo h
  simp only [movedTo] at hrest ⊢
  rw [hrest]
  congr 1
  omega

/-- A move over what is taken from the text. -/
theorem movedTo_append {taken : List Char} (h : taken ++ left <:+ cursor.rest) :
    { cursor.movedTo (taken ++ left) with
      offset := (cursor.movedTo (taken ++ left)).offset + taken.length } =
      cursor.movedTo left := by
  have hlength := h.length_le
  rw [List.length_append] at hlength
  simp only [movedTo, List.length_append]
  congr 1
  omega

end Cursor

namespace Stepping

open Grammar (Result Reading Fault)

variable {α β γ : Type} {f : β → α} {text left : List Char}

/-! ## Actions on a cursor -/

/-- The end of an action, and the cursor after it. -/
def outcome (action : Action α) (cursor : Cursor) : Except Mishap α × Cursor := action cursor

@[simp] theorem outcome_pure (a : α) (cursor : Cursor) : outcome (pure a) cursor = (.ok a, cursor) :=
  rfl

@[simp] theorem outcome_throw (mishap : Mishap) (cursor : Cursor) :
    outcome (throw mishap : Action α) cursor = (.error mishap, cursor) := rfl

@[simp] theorem outcome_bind (action : Action γ) (next : γ → Action α) (cursor : Cursor) :
    outcome (action >>= next) cursor =
      match outcome action cursor with
      | (.ok a, after) => outcome (next a) after
      | (.error mishap, after) => (.error mishap, after) := by
  change (match action cursor with | (a, after) => ExceptT.bindCont next a after) = _
  rw [outcome]
  rcases action cursor with ⟨_ | _, after⟩ <;> rfl

@[simp] theorem outcome_get (cursor : Cursor) : outcome get cursor = (.ok cursor, cursor) := rfl

@[simp] theorem outcome_modify (f : Cursor → Cursor) (cursor : Cursor) :
    outcome (modify f) cursor = (.ok ⟨⟩, f cursor) := rfl

/-- What a reading of the text ahead tells of an action on a cursor that started at `start`. -/
def told (start : Cursor) (f : β → α) : Result (β × List Char) → Except Mishap α × Cursor
  | .ok (b, left) => (.ok (f b), start.movedTo left)
  | .error fault =>
    (.error (.refused fault.cause (start.movedTo fault.left)), start.movedTo fault.unread)

/-- Where the text is ahead, the action does what the reading of it says. -/
structure Follows (start : Cursor) (f : β → α) (action : Action α) (reading : Reading β)
    (text : List Char) : Prop where
  agrees : text <:+ start.rest → outcome action (start.movedTo text) = told start f (reading text)
  suffix : ∀ ⦃b left⦄, reading text = .ok (b, left) → left <:+ text

variable {start : Cursor} {reading : Reading β}

namespace Follows

variable {action : Action α}

/-- An action that moves over some of the text and succeeds. -/
theorem of_outcome {b : β} (hreading : reading text = .ok (b, left)) (hleft : left <:+ text)
    (h : text <:+ start.rest →
      outcome action (start.movedTo text) = (.ok (f b), start.movedTo left)) :
    Follows start f action reading text where
  agrees hstart := by rw [h hstart, hreading, told]
  suffix := by
    intro b' left' hok
    obtain ⟨-, rfl⟩ := Prod.mk.inj (Except.ok.inj (hreading.symm.trans hok))
    exact hleft

theorem taken (f : β → α) (b : β) (text : List Char) : Follows start f (pure (f b)) (pure b) text :=
  .of_outcome rfl (List.suffix_refl text) fun _ => rfl

theorem refused (f : β → α) {cause : Cause} (hcause : cause.token = [])
    (hreading : reading text = .error ⟨cause, text⟩) :
    Follows start f (refuse cause) reading text where
  agrees h := by simp [refuse, told, Fault.unread, hcause, hreading]
  suffix := by simp [hreading]

theorem bind {δ : Type} {first : Action γ} {next : γ → Action α} {k : δ → γ}
    {reading : Reading δ} {after : δ → Reading β} (h : Follows start k first reading text)
    (hnext : ∀ b left, reading text = .ok (b, left) →
      Follows start f (next (k b)) (after b) left) :
    Follows start f (first >>= next) (reading >>= after) text := by
  cases hreading : reading text with
  | error fault =>
    have hfault : (reading >>= after) text = .error fault := by
      rw [Grammar.bind_apply, hreading]
      rfl
    refine ⟨fun hstart => ?_, fun b left hok => absurd (hfault.symm.trans hok) (by simp)⟩
    rw [outcome_bind, h.agrees hstart, hreading, hfault]
    rfl
  | ok result =>
    obtain ⟨b, left⟩ := result
    have hnext' : (reading >>= after) text = after b left := by
      rw [Grammar.bind_apply, hreading]
      rfl
    have hleft := h.suffix hreading
    have hafter := hnext b left hreading
    refine ⟨fun hstart => ?_, fun c left' hok => (hafter.suffix (hnext'.symm.trans hok)).trans hleft⟩
    rw [outcome_bind, h.agrees hstart, hreading, hnext']
    exact hafter.agrees (hleft.trans hstart)

/-- An action of which the reading of the text does not tell. -/
theorem after {first : Action γ} {next : γ → Action α} {a : γ} {later : Reading β}
    (hreading : reading text = later left) (hleft : left <:+ text)
    (hfirst : text <:+ start.rest →
      outcome first (start.movedTo text) = (.ok a, start.movedTo left))
    (h : Follows start f (next a) later left) :
    Follows start f (first >>= next) reading text := by
  refine ⟨fun hstart => ?_, fun b rest hok => (h.suffix (hreading.symm.trans hok)).trans hleft⟩
  rw [outcome_bind, hfirst hstart, hreading]
  exact h.agrees (hleft.trans hstart)

end Follows

/-! ## Characters and tokens -/

theorem outcome_ahead (h : text <:+ start.rest) :
    outcome ahead (start.movedTo text) = (.ok text, start.movedTo text) := by
  simp only [ahead, outcome_bind, outcome_get, outcome_pure, Cursor.rest_movedTo h]

theorem outcome_peek (h : text <:+ start.rest) :
    outcome peek (start.movedTo text) = (.ok text.head?, start.movedTo text) := by
  simp only [peek, outcome_bind, outcome_ahead h, outcome_pure]

theorem outcome_take {token : List Char} (htext : text = token ++ left) (h : text <:+ start.rest) :
    outcome (take token) (start.movedTo text) = (.ok token, start.movedTo left) := by
  subst htext
  simp only [take, outcome_bind, outcome_modify, outcome_pure, Cursor.movedTo_append h]

theorem outcome_advance {c : Char} (h : c :: left <:+ start.rest) :
    outcome advance (start.movedTo (c :: left)) = (.ok c, start.movedTo left) := by
  have htake : outcome (take [c]) (start.movedTo (c :: left)) = (.ok [c], start.movedTo left) :=
    outcome_take rfl h
  simp only [advance, outcome_bind, outcome_ahead h, htake, outcome_pure]

theorem outcome_skipBlanks (h : text <:+ start.rest) :
    outcome skipBlanks (start.movedTo text) = (.ok (), start.movedTo (dropBlanks text)) := by
  rw [skipBlanks, outcome_modify, Cursor.rest_movedTo h,
    Cursor.movedTo_movedTo h (dropBlanks_suffix text)]

theorem outcome_rounds (h : text <:+ start.rest) :
    outcome (Engine.rounds : Action Nat) (start.movedTo text) =
      (.ok (text.length + 1), start.movedTo text) := by
  change outcome (ahead >>= fun text => pure (text.length + 1)) _ = _
  simp only [outcome_bind, outcome_ahead h, outcome_pure]

theorem expect_follows (c : Char) (text : List Char) :
    Follows start id (expect c) (Engine.take c) text := by
  refine .after rfl (List.suffix_refl text) outcome_peek ?_
  cases text with
  | nil => exact .refused id rfl rfl
  | cons d left =>
    by_cases hd : d = c
    · subst hd
      have htake : (Engine.take d : Reading Unit) (d :: left) = (pure () : Reading Unit) left := by
        rw [Grammar.take_apply, Grammar.expect, if_pos rfl]
        rfl
      simp only [List.head?_cons, if_true]
      exact .after htake (List.suffix_cons d left) outcome_advance (.taken id () left)
    · simp only [List.head?_cons, if_neg hd]
      exact .refused id rfl (by simp [Grammar.expect, Ne.symm hd, Bind.bind, Except.bind])

theorem readToken_follows (text : List Char) :
    Follows start id readToken Engine.takeToken text := by
  refine .after rfl (List.suffix_refl text) outcome_ahead ?_
  cases text with
  | nil => exact .refused id rfl rfl
  | cons c rest =>
    cases hc : isBlank c with
    | true =>
      simp only [hc, if_true]
      exact .refused id rfl (by simp [Grammar.readToken, hc])
    | false =>
      have hsplit : c :: rest =
          c :: rest.takeWhile (!isDelimiter ·) ++ rest.dropWhile (!isDelimiter ·) := by simp
      simp only [hc, Bool.false_eq_true, if_false]
      have hread : (Engine.takeToken : Reading _) (c :: rest) =
          .ok (c :: rest.takeWhile (!isDelimiter ·), rest.dropWhile (!isDelimiter ·)) := by
        simp [Grammar.readToken, hc]
      exact .of_outcome hread (hsplit ▸ List.suffix_append _ _) (outcome_take hsplit)

end Stepping

end Drafting
