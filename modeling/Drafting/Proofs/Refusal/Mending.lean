import Drafting.Proofs.Grammar.Completeness
import Drafting.Proofs.Refusal.Lookahead

/-!
# Readings that can be completed

A reading that is refused for what comes next could have gone on: after what was taken, some other
text completes it. A reading that has come to its end can also end there, before the end of the text
or a closing sign. Readings that are put together from such readings are such readings, as long as
some text completes what remains to be read; that text is handed on from the innermost reading
outwards.

## Main definitions

* `Cause.Mendable` — the causes that another text would not have.
* `Closed`, `Fresh` — what may come after a formula inside another one, and what may be put in its
  place.
* `Completes` — a text that a reading takes in full, whatever closed text comes next.
* `Mends` — a reading that can end where it ends, and be completed where it is refused.
* `Viable` — a reading of nested formulas that can be completed everywhere, or for which there is no
  room.

Main statements: `Mends.bind` and `Mends.nesting`.
-/

namespace Drafting

/-- The causes that another text would not have after what was taken. -/
def Cause.Mendable : Cause → Prop
  | unexpected .. | endOfText _ | blankToken | misplacedOperator _ | trailingText => True
  | tooDeep | outOfRange _ | tooManyDigits .. => False

namespace Grammar

/-- The end of the text, or a sign that closes a nested formula. -/
def Closed (text : List Char) : Prop := ∀ c ∈ text.head?, c ∈ closers

/-- A text that does not start with a blank, and does not go on with an operator before it. -/
def Fresh (text : List Char) : Prop := ∀ c ∈ text.head?, isBlank c = false ∧ c ≠ '='

variable {α β : Type} {text left more ahead : List Char}

theorem closed_nil : Closed [] := by simp [Closed]

theorem Closed.append (h : Closed text) (h' : Closed ahead) : Closed (text ++ ahead) := by
  cases text with
  | nil => exact h'
  | cons c text => exact h

theorem Fresh.append (h : Fresh text) (h' : Fresh ahead) : Fresh (text ++ ahead) := by
  cases text with
  | nil => exact h'
  | cons c text => exact h

theorem Closed.fresh (h : Closed text) : Fresh text := by
  intro c hc
  rcases cases_closers (h c hc) with rfl | rfl | rfl | rfl <;> decide

theorem Closed.atDelimiter (h : Closed text) : AtDelimiter text := by
  intro c hc
  rcases cases_closers (h c hc) with rfl | rfl | rfl | rfl <;> decide

theorem Fresh.dropBlanks_eq (h : Fresh text) : dropBlanks text = text := by
  cases text with
  | nil => rfl
  | cons c text => exact dropBlanks_cons_of_not_blank (h c rfl).1

/-- No operator and no conditional is ahead of a closing sign. -/
theorem Closed.lead_eq_none (h : Closed text) : Lead.ofText? text = none := by
  cases text with
  | nil => rfl
  | cons c text => rcases cases_closers (h c rfl) with rfl | rfl | rfl | rfl <;> rfl

theorem Closed.head?_ne {c : Char} (h : Closed text) (hc : c ∉ closers) : text.head? ≠ some c :=
  fun hhead => hc (h c hhead)

/-- The reading takes the text in full, with one result whatever closed text comes next. -/
def CompletesAs (reading : List Char → Result (α × List Char)) (text : List Char) (a : α) : Prop :=
  ∀ after, Closed after → reading (text ++ after) = .ok (a, after)

def Completes (reading : List Char → Result (α × List Char)) (text : List Char) : Prop :=
  ∃ a, CompletesAs reading text a

theorem Completes.skipping {reading : List Char → Result (α × List Char)}
    (h : Completes reading more) (hfresh : Fresh more) :
    Completes (fun text => reading (dropBlanks text)) more := by
  obtain ⟨a, hmore⟩ := h
  refine ⟨a, fun after hafter => ?_⟩
  have hsolid : dropBlanks (more ++ after) = more ++ after :=
    (hfresh.append hafter.fresh).dropBlanks_eq
  simp only [hsolid]
  exact hmore after hafter

theorem Completes.map {reading : List Char → Result (α × List Char)} (h : Completes reading more)
    (f : α → β) :
    Completes (fun text => do let (a, left) ← reading text; return (f a, left)) more := by
  obtain ⟨a, hmore⟩ := h
  refine ⟨f a, fun after hafter => ?_⟩
  simp only [hmore after hafter]
  rfl

/-- A closed text, if any, completes the reading. -/
def Meets (reading : List Char → Result (α × List Char)) : Prop :=
  ∃ more, Closed more ∧ Completes reading more

/-- A reading that ends can end before any closed text, and one that is refused can be completed. -/
structure Mends (reading : List Char → Result (α × List Char)) (text : List Char) : Prop where
  close : ∀ ⦃a left⦄, reading text = .ok (a, left) →
    ∃ taken, text = taken ++ left ∧ CompletesAs reading taken a
  mend : ∀ ⦃cause left⦄, reading text = .error ⟨cause, left⟩ → cause.Mendable →
    ∃ taken more, text = taken ++ left ∧ (taken = [] → Fresh more) ∧
      Completes reading (taken ++ more)
  ends : ∀ ⦃wanted left⦄, reading text = .error ⟨.endOfText wanted, left⟩ → left = []

namespace Mends

variable {reading reading' : List Char → Result (α × List Char)}

/-! ### Readings put together -/

/-- A refusal after some text. -/
theorem of_error_after (before : List Char) {cause : Cause}
    (h : reading (before ++ left) = .error ⟨cause, left⟩)
    (hends : ∀ wanted, cause = .endOfText wanted → left = []) (hfresh : before = [] → Fresh more)
    (hmore : Completes reading (before ++ more)) : Mends reading (before ++ left) where
  close := by simp [h]
  mend := by
    intro _ left hfault _
    obtain ⟨-, rfl⟩ := fault_inj h hfault
    exact ⟨before, more, rfl, hfresh, hmore⟩
  ends := by
    intro wanted left hfault
    obtain ⟨rfl, rfl⟩ := fault_inj h hfault
    exact hends wanted rfl

/-- A refusal of the text from its start on. -/
theorem of_error {cause : Cause} (h : reading text = .error ⟨cause, text⟩)
    (hends : ∀ wanted, cause = .endOfText wanted → text = []) (hfresh : Fresh more)
    (hmore : Completes reading more) : Mends reading text :=
  of_error_after [] h hends (fun _ => hfresh) hmore

/-- A refusal that nothing could have mended. -/
theorem of_not_mendable {fault : Fault} (h : reading text = .error fault)
    (hcause : ¬ fault.cause.Mendable) : Mends reading text where
  close := by simp [h]
  mend := by
    intro cause left hfault hmendable
    obtain rfl := Except.error.inj (h.symm.trans hfault)
    exact absurd hmendable hcause
  ends := by
    intro wanted left hfault
    obtain rfl := Except.error.inj (h.symm.trans hfault)
    exact absurd trivial hcause

/-- A reading that takes nothing. -/
theorem of_ok {a : α} (h : reading text = .ok (a, text)) (hclose : CompletesAs reading [] a) :
    Mends reading text where
  close := by
    intro _ left hok
    obtain ⟨rfl, rfl⟩ := Prod.mk.inj (Except.ok.inj (h.symm.trans hok))
    exact ⟨[], rfl, hclose⟩
  mend := by simp [h]
  ends := by simp [h]

theorem pure (a : α) (text : List Char) : Mends (fun text => .ok (a, text)) text :=
  of_ok rfl fun _ _ => rfl

/-- A reading that goes on like another one after some text. Where the other one is refused at once,
the completion is supplied. -/
theorem after_of (before : List Char) (h : Mends reading left)
    (heq : ∀ ahead, ahead.head? = left.head? ∨ Closed ahead →
      reading' (before ++ ahead) = reading ahead)
    (hstart : ∀ cause, reading left = .error ⟨cause, left⟩ → cause.Mendable →
      ∃ more, Fresh more ∧ Completes reading' (before ++ more)) :
    Mends reading' (before ++ left) where
  close := by
    intro a rest hok
    rw [heq left (.inl rfl)] at hok
    obtain ⟨taken, rfl, hclose⟩ := h.close hok
    refine ⟨before ++ taken, by simp, fun after hafter => ?_⟩
    rw [List.append_assoc, heq, hclose after hafter]
    cases taken with
    | nil => exact .inr hafter
    | cons c taken => exact .inl rfl
  mend := by
    intro cause rest hfault hcause
    rw [heq left (.inl rfl)] at hfault
    obtain ⟨taken, more, rfl, -, a, hmore⟩ := h.mend hfault hcause
    cases taken with
    | nil =>
      -- nothing was taken, so that another completion may change what comes right after `before`
      obtain ⟨more, hfresh, hmore⟩ := hstart cause hfault hcause
      exact ⟨before, more, rfl, fun _ => hfresh, hmore⟩
    | cons c taken =>
      refine ⟨before ++ c :: taken, more, by simp, by simp, a, fun after hafter => ?_⟩
      have hreading := heq (c :: taken ++ more ++ after) (.inl rfl)
      rw [hmore after hafter] at hreading
      simpa using hreading
  ends := by
    intro wanted rest hfault
    rw [heq left (.inl rfl)] at hfault
    exact h.ends hfault

/-- A reading that goes on like another one after some text, whatever operand or sign comes next. -/
theorem after (before : List Char) (h : Mends reading left)
    (heq : ∀ ahead, ahead.head? = left.head? ∨ Fresh ahead →
      reading' (before ++ ahead) = reading ahead) :
    Mends reading' (before ++ left) := by
  refine h.after_of before (fun ahead hahead => heq ahead (hahead.imp_right Closed.fresh))
    fun cause hfault hcause => ?_
  obtain ⟨taken, more, htaken, hfresh, a, hmore⟩ := h.mend hfault hcause
  obtain rfl : taken = [] := List.self_eq_append_left.1 htaken
  refine ⟨more, hfresh rfl, a, fun after hafter => ?_⟩
  rw [List.append_assoc, heq _ (.inr ((hfresh rfl).append hafter.fresh))]
  exact hmore after hafter

/-- A reading that is another one wherever the same character comes next. The other one takes
something, so that the end of what is taken cannot change that character. -/
theorem of_head (h : Mends reading text)
    (heq : ∀ ahead, ahead.head? = text.head? → reading' ahead = reading ahead)
    (htakes : ∀ a, reading text ≠ .ok (a, text)) (hfresh : Fresh more)
    (hmore : Completes reading' more) : Mends reading' text where
  close := by
    intro a left hok
    rw [heq text rfl] at hok
    obtain ⟨taken, rfl, hclose⟩ := h.close hok
    cases taken with
    | nil => exact absurd hok (htakes a)
    | cons c taken =>
      refine ⟨c :: taken, rfl, fun after hafter => ?_⟩
      rw [heq (c :: taken ++ after) rfl]
      exact hclose after hafter
  mend := by
    intro cause left hfault hcause
    rw [heq text rfl] at hfault
    obtain ⟨taken, more', rfl, -, a, hmore'⟩ := h.mend hfault hcause
    cases taken with
    | nil => exact ⟨[], more, rfl, fun _ => hfresh, hmore⟩
    | cons c taken =>
      refine ⟨c :: taken, more', rfl, by simp, a, fun after hafter => ?_⟩
      rw [heq (c :: taken ++ more' ++ after) rfl]
      exact hmore' after hafter
  ends := by
    intro wanted left hfault
    rw [heq text rfl] at hfault
    exact h.ends hfault

theorem of_cons {c : Char} (h : Mends reading (c :: text))
    (heq : ∀ tail, reading' (c :: tail) = reading (c :: tail))
    (htakes : ∀ a, reading (c :: text) ≠ .ok (a, c :: text)) (hfresh : Fresh more)
    (hmore : Completes reading' more) : Mends reading' (c :: text) := by
  refine h.of_head (fun ahead hahead => ?_) htakes hfresh hmore
  obtain ⟨tail, rfl⟩ := List.head?_eq_some_iff.1 hahead
  exact heq tail

theorem skipping (h : Mends reading (dropBlanks text)) :
    Mends (fun text => reading (dropBlanks text)) text := by
  obtain ⟨gap, hgap, htext⟩ := skips_dropBlanks text
  rw [htext]
  refine h.after gap fun ahead hahead => ?_
  have hsolid : dropBlanks ahead = ahead := hahead.elim dropBlanks_eq_of_head? Fresh.dropBlanks_eq
  rw [dropBlanks_append hgap, hsolid]

/-- One reading after another, which some closed text completes. -/
theorem bind {next : α × List Char → Result (β × List Char)} (hahead : LooksAhead reading text)
    (h : Mends reading text)
    (hnext : ∀ a left, reading text = .ok (a, left) → Mends (fun text => next (a, text)) left)
    (hmeets : ∀ a, Meets fun text => next (a, text)) :
    Mends (fun text => reading text >>= next) text := by
  cases hreading : reading text with
  | ok result =>
    obtain ⟨a, left⟩ := result
    obtain ⟨taken, rfl, htaken⟩ := hahead.ok hreading
    obtain ⟨taken', htaken', hclose⟩ := h.close hreading
    obtain rfl := List.append_cancel_right htaken'
    -- where the first reading has ended it can also end before any closed text
    have heq : ∀ ahead, ahead.head? = left.head? ∨ Closed ahead →
        (reading (taken ++ ahead) >>= next) = next (a, ahead) := by
      intro ahead hnextCharacter
      rw [hnextCharacter.elim (htaken ahead) (hclose ahead)]
      rfl
    refine (hnext a left hreading).after_of taken heq fun cause _ _ => ?_
    obtain ⟨more, hclosed, b, hmore⟩ := hmeets a
    refine ⟨more, hclosed.fresh, b, fun after hafter => ?_⟩
    rw [List.append_assoc]
    exact (heq _ (.inr (hclosed.append hafter))).trans (hmore after hafter)
  | error fault =>
    have hbind : (reading text >>= next) = .error fault := by rw [hreading]; rfl
    refine ⟨by simp [hbind], fun cause left hfault hcause => ?_, fun wanted left hfault => ?_⟩
    · obtain rfl := Except.error.inj (hbind.symm.trans hfault)
      obtain ⟨taken, more, htext, hfresh, a, hmore⟩ := h.mend hreading hcause
      obtain ⟨more', hclosed, b, hmore'⟩ := hmeets a
      refine ⟨taken, more ++ more', htext, fun htaken => (hfresh htaken).append hclosed.fresh, b,
        fun after hafter => ?_⟩
      have hfirst := hmore (more' ++ after) (hclosed.append hafter)
      simp only [List.append_assoc] at hfirst ⊢
      rw [hfirst]
      exact hmore' after hafter
    · obtain rfl := Except.error.inj (hbind.symm.trans hfault)
      exact h.ends hreading

theorem map (f : α → β) (h : Mends reading text) (hahead : LooksAhead reading text) :
    Mends (fun text => do let (a, left) ← reading text; return (f a, left)) text :=
  h.bind hahead (fun a left _ => .pure (f a) left) fun a => ⟨[], closed_nil, f a, fun _ _ => rfl⟩

end Mends

/-! ## Signs and nested formulas -/

section Signs

variable {c : Char} {next : List Char → Result (α × List Char)}

theorem Completes.expecting (h : Completes next more) (c : Char) :
    Completes (fun text => expect [c] text >>= next) (c :: more) := by
  obtain ⟨a, hmore⟩ := h
  exact ⟨a, fun after hafter => (expect_cons c next _).trans (hmore after hafter)⟩

/-- A wanted sign, and a reading after it. -/
theorem Mends.expecting (hc : Fresh [c]) (hnext : ∀ left, text = c :: left → Mends next left)
    (hmore : Completes next more) : Mends (fun text => expect [c] text >>= next) text := by
  have hfresh : Fresh (c :: more) := hc
  cases text with
  | nil => exact of_error rfl (fun _ _ => rfl) hfresh (hmore.expecting c)
  | cons d text =>
    by_cases hd : d = c
    · subst hd
      exact (hnext text rfl).after [d] fun ahead _ => expect_cons d next ahead
    · have hrefused : (expect [c] (d :: text) >>= next) = .error ⟨.unexpected [c] d, d :: text⟩ := by
        simp [expect, Bind.bind, Except.bind, Ne.symm hd]
      exact of_error hrefused (by simp) hfresh (hmore.expecting c)

theorem closed_closer (hc : c ∈ closers) (text : List Char) : Closed (c :: text) := by
  rintro d ⟨⟩
  exact hc

/-- A closing sign after blanks, and a reading after it. -/
theorem Mends.closing (hc : c ∈ closers) (hnext : ∀ left, Mends next left)
    (hmore : Completes next more) (text : List Char) :
    Mends (fun text => expect [c] (dropBlanks text) >>= next) text := by
  have hexpecting : Mends (fun text => expect [c] text >>= next) (dropBlanks text) :=
    expecting (closed_closer hc []).fresh (fun left _ => hnext left) hmore
  exact hexpecting.skipping

theorem meets_closing (hc : c ∈ closers) (hmore : Completes next more) :
    Meets (fun text => expect [c] (dropBlanks text) >>= next) := by
  have hclosed := closed_closer hc more
  exact ⟨c :: more, hclosed, (hmore.expecting c).skipping hclosed.fresh⟩

end Signs

/-- A reading for which there is room: it looks ahead, it can be completed, and it takes a name. -/
structure Roomy (nested : Nested) : Prop where
  shortens : Shortens nested
  looksAhead : ∀ text, LooksAhead nested text
  mends : ∀ text, Mends nested text
  completes : Completes nested ['b']

/-- There is room for the reading, or there is none for any text. -/
def Viable (nested : Nested) : Prop :=
  Roomy nested ∨ ∀ text, nested text = .error ⟨.tooDeep, text⟩

theorem Viable.bounded {nested : Nested} (h : Viable nested) : Bounded nested :=
  h.imp_left Roomy.looksAhead

theorem Viable.shortens {nested : Nested} (h : Viable nested) : Shortens nested := by
  rcases h with hroomy | hdeep
  · exact hroomy.shortens
  · intro text tree rest hok
    simp [hdeep] at hok

/-- A nested formula, and a reading after it. -/
theorem Mends.nesting {nested : Nested} {next : Formula × List Char → Result (α × List Char)}
    (h : Viable nested)
    (hnext : Roomy nested → ∀ tree text, Mends (fun text => next (tree, text)) text)
    (hmeets : Roomy nested → ∀ tree, Meets fun text => next (tree, text)) (text : List Char) :
    Mends (fun text => nested text >>= next) text := by
  rcases h with hroomy | hdeep
  · exact (hroomy.mends text).bind (hroomy.looksAhead text)
      (fun tree left _ => hnext hroomy tree left) (hmeets hroomy)
  · have hrefused : (nested text >>= next) = .error ⟨.tooDeep, text⟩ := by
      rw [hdeep]
      rfl
    exact of_not_mendable hrefused id

end Grammar

end Drafting
