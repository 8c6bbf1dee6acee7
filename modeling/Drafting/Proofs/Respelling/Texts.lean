import Drafting.Proofs.Grammar.Reader

/-!
# Respelled texts

Two texts that a reader of formulas cannot tell apart but for names: one is the other with its
characters replaced one by one and its gaps by other gaps, where no character with a meaning of its
own comes or goes. A text may also get blanks at its end.

## Main definitions

* `Formula.mapNames` — a formula with the characters of its names replaced.
* `Respelling` — what is replaced by what.
* `Respelling.Respells` — one text is spelt anew as another.
* `Respelling.ofGaps`, `Respelling.ofGapsOnly`, `Respelling.verbatim` — only gaps are replaced, with
  or without something added, and nothing at all.
* `Cause.Matches` — two causes that differ at most in the character found.
* `Cause.Fits` — what a cause says of a text is so.
-/

namespace Drafting

namespace Formula

/-- The formula with the characters of all its names replaced. -/
def mapNames (f : Char → Char) : Formula → Formula
  | integer value => integer value
  | decimal value => decimal value
  | reference mark stem => reference mark (stem.map f)
  | parenthesized inner => parenthesized (inner.mapNames f)
  | call function argument => call (function.map f) (argument.mapNames f)
  | callPair function first second =>
    callPair (function.map f) (first.mapNames f) (second.mapNames f)
  | binary left operator right => binary (left.mapNames f) operator (right.mapNames f)
  | conditional condition whenTrue whenFalse =>
    conditional (condition.mapNames f) (whenTrue.mapNames f) (whenFalse.mapNames f)

@[simp] theorem mapNames_id (tree : Formula) : tree.mapNames id = tree := by
  induction tree <;> simp_all [mapNames]

end Formula

/-- Two causes at two texts are the same, but that each may name the next character of its own
text. -/
def Cause.Matches (text text' : List Char) (cause cause' : Cause) : Prop :=
  cause' = cause ∨ ∃ wanted c c', text.head? = some c ∧ text'.head? = some c' ∧
    cause = unexpected wanted c ∧ cause' = unexpected wanted c'

namespace Cause.Matches

variable {text text' : List Char} {cause cause' : Cause}

theorem code?_eq (h : Matches text text' cause cause') : cause'.code? = cause.code? := by
  obtain rfl | ⟨wanted, c, c', -, -, rfl, rfl⟩ := h <;> rfl

theorem eq (h : Matches text text cause cause') : cause' = cause := by
  obtain rfl | ⟨wanted, c, c', hc, hc', rfl, rfl⟩ := h
  · rfl
  · rw [Option.some.inj (hc'.symm.trans hc)]

end Cause.Matches

/-- What the cause of a refusal at a text says of this text is so. -/
def Cause.Fits : Cause → List Char → Prop
  | unexpected _ found, text | misplacedOperator found, text => text.head? = some found
  | endOfText _, text => text = []
  | blankToken, text => ∃ c, text.head? = some c ∧ isBlank c = true
  | trailingText, text => text ≠ []
  | tooDeep, _ => True
  | outOfRange token, text => token <+: text ∧ ∃ negative coefficient exponent,
    Numeral.ofToken? token = some (.decimal negative coefficient exponent)
  | tooManyDigits token count, text => token <+: text ∧ ∃ negative digits,
    Numeral.ofToken? token = some (.whole negative digits) ∧ digits.length = count ∧
      Numeral.digitLimit < count

namespace Grammar

/-- The characters that have a meaning of their own outside names and numbers. The two separators of
arguments stand for each other, and are told apart by none. -/
def signs : List Char :=
  ['(', ')', '@', '#', '+', '*', '/', '^', '-', '?', ':', '>', '<', '=', '!']

theorem not_blank_of_mem_signs {c : Char} (h : c ∈ signs) : isBlank c = false := by
  have hsigns : signs.all (!isBlank ·) = true := by decide
  simpa using List.all_eq_true.1 hsigns c h

/-- A run of blanks, at least one. -/
def IsGap (gap : List Char) : Prop := gap ≠ [] ∧ ∀ c ∈ gap, isBlank c = true

/-- What may be replaced in a text. -/
structure Respelling where
  /-- The character in the place of another. -/
  char : Char → Char
  /-- The gaps that may stand in the place of another. -/
  gap : List Char → List Char → Prop
  /-- What may be added at the end. -/
  tail : List Char → Prop
  char_eq_iff : ∀ c ∈ signs, ∀ d, char d = c ↔ d = c
  isBlank_char : ∀ c, isBlank (char c) = isBlank c
  isDelimiter_char : ∀ c, isDelimiter (char c) = isDelimiter c
  separator_char : ∀ c, char c = ',' ∨ char c = ';' ↔ c = ',' ∨ c = ';'
  literal?_map : ∀ negative token, literal? negative (token.map char) = literal? negative token
  isGap_of_gap : ∀ ⦃before after⦄, gap before after → IsGap before ∧ IsGap after
  tail_nil : tail []
  isBlank_of_tail : ∀ ⦃added⦄, tail added → ∀ c ∈ added, isBlank c = true

namespace Respelling

/-- One text is spelt anew as another. -/
inductive Respells (ρ : Respelling) : List Char → List Char → Prop
  | tail {added} (h : ρ.tail added) : Respells ρ [] added
  | char {c text text'} (hc : isBlank c = false) (h : Respells ρ text text') :
      Respells ρ (c :: text) (ρ.char c :: text')
  | gap {before after text text'} (hgap : ρ.gap before after) (h : Respells ρ text text') :
      Respells ρ (before ++ text) (after ++ text')

variable {ρ : Respelling} {text text' rest : List Char} {c : Char}

theorem char_sign (hc : c ∈ signs) : ρ.char c = c := (ρ.char_eq_iff c hc c).2 rfl

/-- Only the signs matter to a function that is constant on all other characters. -/
theorem apply_char {β : Type} {f : Char → β} {b : β} (h : ∀ c ∉ signs, f c = b) (c : Char) :
    f (ρ.char c) = f c := by
  by_cases hc : c ∈ signs
  · rw [char_sign hc]
  · have hchar : ρ.char c ∉ signs := fun hmem => hc (((ρ.char_eq_iff _ hmem c).1 rfl) ▸ hmem)
    rw [h c hc, h _ hchar]

theorem map_eq_minusName_iff {name : List Char} :
    name.map ρ.char = minusName ↔ name = minusName := by
  have hminus := ρ.char_eq_iff '-' (by decide)
  cases name with
  | nil => simp [minusName]
  | cons c name => simp [minusName, hminus]

theorem dropBlanks_of_tail (h : ρ.tail text) : dropBlanks text = [] := by
  rw [← List.append_nil text, dropBlanks_append (ρ.isBlank_of_tail h), dropBlanks_nil]

namespace Respells

/-- Two texts end together, but for what is added, or begin with the same character spelt anew, or
both with a blank. -/
theorem cases_head (h : ρ.Respells text text') :
    text = [] ∧ ρ.tail text' ∨
      (∃ c rest rest', isBlank c = false ∧ text = c :: rest ∧ text' = ρ.char c :: rest' ∧
        ρ.Respells rest rest') ∨
      ∃ c c' rest rest', isBlank c = true ∧ isBlank c' = true ∧ text = c :: rest ∧
        text' = c' :: rest' := by
  cases h with
  | tail h => exact .inl ⟨rfl, h⟩
  | char hc h => exact .inr (.inl ⟨_, _, _, hc, rfl, rfl, h⟩)
  | gap hgap h =>
    obtain ⟨⟨hbefore, hblank⟩, hafter, hblank'⟩ := ρ.isGap_of_gap hgap
    obtain ⟨c, before, rfl⟩ := List.exists_cons_of_ne_nil hbefore
    obtain ⟨c', after, rfl⟩ := List.exists_cons_of_ne_nil hafter
    exact .inr (.inr ⟨c, c', _, _, hblank c (by simp), hblank' c' (by simp), rfl, rfl⟩)

theorem cons (hc : isBlank c = false) (h : ρ.Respells (c :: text) text') :
    ∃ rest', text' = ρ.char c :: rest' ∧ ρ.Respells text rest' := by
  rcases h.cases_head with
    ⟨heq, -⟩ | ⟨d, rest, rest', -, heq, htext', h⟩ | ⟨d, c', rest, rest', hd, -, heq, -⟩
  · simp at heq
  · obtain ⟨rfl, rfl⟩ := List.cons.inj heq
    exact ⟨rest', htext', h⟩
  · obtain ⟨rfl, -⟩ := List.cons.inj heq
    simp [hc] at hd

theorem cons_sign (hc : c ∈ signs) (h : ρ.Respells (c :: text) text') :
    ∃ rest', text' = c :: rest' ∧ ρ.Respells text rest' := by
  have := h.cons (not_blank_of_mem_signs hc)
  rwa [char_sign hc] at this

theorem dropBlanks (h : ρ.Respells text text') :
    ρ.Respells (dropBlanks text) (dropBlanks text') := by
  induction h with
  | tail h =>
    rw [dropBlanks_of_tail h]
    exact .tail ρ.tail_nil
  | char hc h =>
    rw [dropBlanks_cons_of_not_blank hc,
      dropBlanks_cons_of_not_blank ((ρ.isBlank_char _).trans hc)]
    exact .char hc h
  | gap hgap h ih =>
    obtain ⟨⟨-, hblank⟩, -, hblank'⟩ := ρ.isGap_of_gap hgap
    rwa [dropBlanks_append hblank, dropBlanks_append hblank']

theorem dropBlanks_eq_nil_iff (h : ρ.Respells text text') :
    Drafting.dropBlanks text' = [] ↔ Drafting.dropBlanks text = [] := by
  rcases h.dropBlanks.cases_head with ⟨htext, htail⟩ | ⟨c, rest, rest', -, htext, htext', -⟩ |
    ⟨c, c', rest, rest', hc, -, htext, -⟩
  · have hnil := dropBlanks_of_tail htail
    rw [dropBlanks_dropBlanks] at hnil
    simp [htext, hnil]
  · simp [htext, htext']
  · simp [isBlank_of_dropBlanks_eq_cons htext] at hc

/-! ### What comes next -/

/-- What depends on the next character alone is the same, where only signs count. -/
theorem head?_bind {β : Type} {f : Char → Option β} (hf : ∀ c ∉ signs, f c = none)
    (h : ρ.Respells text text') : text'.head?.bind f = text.head?.bind f := by
  have hblank {c : Char} (hc : isBlank c = true) : f c = none :=
    hf c fun hsign => by simp [not_blank_of_mem_signs hsign] at hc
  rcases h.cases_head with ⟨rfl, htail⟩ | ⟨c, rest, rest', -, rfl, rfl, -⟩ |
    ⟨c, c', rest, rest', hc, hc', rfl, rfl⟩
  · cases text' with
    | nil => rfl
    | cons c rest' => simp [hblank (ρ.isBlank_of_tail htail c (by simp))]
  · exact apply_char hf c
  · simp [hblank hc, hblank hc']

theorem lead_eq (h : ρ.Respells text text') : Lead.ofText? text' = Lead.ofText? text := by
  refine h.head?_bind fun c hc => ?_
  unfold Lead.ofChar?
  split <;> simp_all [signs]

theorem head?_eq_iff (hc : c ∈ signs) (h : ρ.Respells text text') :
    text'.head? = some c ↔ text.head? = some c := by
  let found (d : Char) : Option Char := if d = c then some d else none
  have hfound : ∀ d ∉ signs, found d = none := fun d hd => if_neg (ne_of_mem_of_not_mem hc hd).symm
  have hiff (text : List Char) : text.head? = some c ↔ text.head?.bind found = some c := by
    cases text <;> simp [found]
  rw [hiff, hiff, h.head?_bind hfound]

theorem separatorAhead_eq (h : ρ.Respells text text') :
    separatorAhead text' = separatorAhead text := by
  have hblank {c : Char} (hc : isBlank c = true) : c ≠ ',' ∧ c ≠ ';' := by
    refine ⟨?_, ?_⟩ <;> (rintro rfl; revert hc; decide)
  rcases h.cases_head with ⟨rfl, htail⟩ | ⟨c, rest, rest', -, rfl, rfl, -⟩ |
    ⟨c, c', rest, rest', hc, hc', rfl, rfl⟩
  · cases text' with
    | nil => rfl
    | cons c rest' =>
      have := hblank (ρ.isBlank_of_tail htail c (by simp))
      simp [separatorAhead, this]
  · simpa [separatorAhead, ← Bool.decide_or] using ρ.separator_char c
  · simp [separatorAhead, hblank hc, hblank hc']

/-! ### Tokens -/

theorem atDelimiter (h : ρ.Respells text text') (hend : AtDelimiter text) : AtDelimiter text' := by
  rcases h.cases_head with ⟨rfl, htail⟩ | ⟨c, rest, rest', -, rfl, rfl, -⟩ |
    ⟨c, c', rest, rest', -, hc', rfl, rfl⟩
  · exact fun c hc => isDelimiter_of_isBlank (ρ.isBlank_of_tail htail c (List.mem_of_mem_head? hc))
  · simpa [ρ.isDelimiter_char] using hend
  · simpa using isDelimiter_of_isBlank hc'

theorem exists_append {solid : List Char} (hsolid : NoBlanks solid)
    (h : ρ.Respells (solid ++ rest) text') :
    ∃ rest', text' = solid.map ρ.char ++ rest' ∧ ρ.Respells rest rest' := by
  induction solid generalizing text' with
  | nil => exact ⟨text', rfl, h⟩
  | cons c solid ih =>
    obtain ⟨hc, hsolid⟩ := noBlanks_cons.1 hsolid
    obtain ⟨start, rfl, hstart⟩ := h.cons hc
    obtain ⟨rest', rfl, hrest⟩ := ih hsolid hstart
    exact ⟨rest', rfl, hrest⟩

end Respells

theorem isToken_map {token : List Char} (h : IsToken token) : IsToken (token.map ρ.char) := by
  obtain ⟨c, body, rfl, hc, hbody⟩ := h
  refine ⟨ρ.char c, body.map ρ.char, rfl, (ρ.isBlank_char c).trans hc, fun d hd => ?_⟩
  obtain ⟨e, he, rfl⟩ := List.mem_map.1 hd
  exact (ρ.isDelimiter_char e).trans (hbody e he)

/-! ## Other gaps alone -/

/-- Only gaps are replaced, and something added. -/
def ofGaps (gap : List Char → List Char → Prop) (tail : List Char → Prop)
    (hgap : ∀ ⦃before after⦄, gap before after → IsGap before ∧ IsGap after) (hnil : tail [])
    (htail : ∀ ⦃added⦄, tail added → ∀ c ∈ added, isBlank c = true) : Respelling where
  char := id
  gap := gap
  tail := tail
  char_eq_iff _ _ _ := Iff.rfl
  isBlank_char _ := rfl
  isDelimiter_char _ := rfl
  separator_char _ := Iff.rfl
  literal?_map negative token := by rw [List.map_id]
  isGap_of_gap := hgap
  tail_nil := hnil
  isBlank_of_tail := htail

theorem respells_append {added : List Char} (hchar : ∀ c, ρ.char c = c)
    (hself : ∀ c, isBlank c = true → ρ.gap [c] [c]) (hadded : ρ.tail added) (text : List Char) :
    ρ.Respells text (text ++ added) := by
  induction text with
  | nil => exact .tail hadded
  | cons c text ih =>
    cases hc : isBlank c with
    | false => simpa [hchar] using Respells.char hc ih
    | true => exact .gap (hself c hc) ih

/-- The same gap in the place of a gap. -/
def SameGap (before after : List Char) : Prop := after = before ∧ IsGap before

theorem SameGap.isGap {before after : List Char} (h : SameGap before after) :
    IsGap before ∧ IsGap after := by
  obtain ⟨rfl, hgap⟩ := h
  exact ⟨hgap, hgap⟩

theorem sameGap_singleton (hc : isBlank c = true) : SameGap [c] [c] :=
  ⟨rfl, by simp, by simpa using hc⟩

theorem isBlank_of_eq_nil {added : List Char} (h : added = []) : ∀ c ∈ added, isBlank c = true := by
  simp [h]

/-- Only gaps are replaced, and nothing added. -/
def ofGapsOnly (gap : List Char → List Char → Prop)
    (hgap : ∀ ⦃before after⦄, gap before after → IsGap before ∧ IsGap after) : Respelling :=
  ofGaps gap (· = []) hgap rfl fun _ => isBlank_of_eq_nil

/-- Every text stands for itself alone. -/
def verbatim : Respelling := ofGapsOnly SameGap fun _ _ => SameGap.isGap

@[simp] theorem verbatim_char : verbatim.char = id := rfl

theorem respells_self (text : List Char) : verbatim.Respells text text := by
  have hself (c : Char) (hc : isBlank c = true) : verbatim.gap [c] [c] := sameGap_singleton hc
  simpa using respells_append (fun _ => rfl) hself rfl text

theorem verbatim_respells_iff : verbatim.Respells text text' ↔ text' = text := by
  constructor
  · intro h
    induction h with
    | tail h => exact h
    | char _ _ ih => rw [ih]; rfl
    | gap hgap _ ih => rw [ih, hgap.1]
  · rintro rfl
    exact respells_self _

end Respelling

end Grammar

end Drafting
