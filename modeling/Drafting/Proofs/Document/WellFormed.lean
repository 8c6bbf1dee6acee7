import Drafting.Proofs.Document.Markup
import Drafting.Proofs.Grammar.Acceptance
import Drafting.Rendering.OfText

/-!
# Well-formed documents

A stored document is always a document of the grammar, but its names may hold characters that no
document may hold: a token ends at delimiters only. The characters that are unfit for a document
come from the text that was read, every one of them and in their order, and from nowhere else.

## Main definitions

* `unfit` — the characters of a text that no document may hold.

Main statement: `wellFormed_storedDocument_iff`.
-/

namespace Drafting

open Markup Rendering Grammar

/-- The characters of a text that no document may hold, in their order. -/
def unfit (text : List Char) : List Char := text.filter fun c => ¬ IsChar c

variable {text rest : List Char}

@[simp] theorem unfit_nil : unfit [] = [] := rfl

@[simp] theorem unfit_append (text text' : List Char) :
    unfit (text ++ text') = unfit text ++ unfit text' := List.filter_append ..

theorem unfit_eq_nil_iff : unfit text = [] ↔ ∀ c ∈ text, IsChar c := by
  simp [unfit, List.filter_eq_nil_iff]

theorem unfit_cons (c : Char) (text : List Char) : unfit (c :: text) = unfit [c] ++ unfit text :=
  unfit_append [c] text

@[simp] theorem unfit_cons_of_isChar {c : Char} (h : IsChar c) (text : List Char) :
    unfit (c :: text) = unfit text := by
  simp [unfit, h]

/-! ## Documents -/

theorem unfit_escaped (text : List Char) : unfit (escaped text) = unfit text := by
  have hchar (c : Char) : unfit (escapedChar c) = unfit [c] := by
    unfold escapedChar
    split <;> rfl
  induction text with
  | nil => rfl
  | cons c text ih =>
    rw [escaped, List.flatMap_cons, ← escaped, unfit_append, hchar, ih, ← unfit_cons]

theorem unfit_element {tag : List Char} (htag : unfit tag = []) (attributes content : List Char) :
    unfit (element tag attributes content) = unfit attributes ++ unfit content := by
  simp (disch := decide) [element, htag]

theorem unfit_typedElement {tag : List Char} (htag : unfit tag = []) (type content : List Char) :
    unfit (typedElement tag type content) = unfit type ++ unfit content := by
  rw [typedElement, unfit_element htag]
  simp (disch := decide) [attributeText_eq, unfit_escaped]

/-- What is unfit for a document in the names of a formula. -/
def unfitNames : Formula → List Char
  | .integer _ | .decimal _ => []
  | .reference _ stem => unfit stem
  | .parenthesized inner => unfitNames inner
  | .call function argument => unfit function ++ unfitNames argument
  | .callPair function first second => unfit function ++ (unfitNames first ++ unfitNames second)
  | .binary left _ right => unfitNames left ++ unfitNames right
  | .conditional condition whenTrue whenFalse =>
    unfitNames condition ++ (unfitNames whenTrue ++ unfitNames whenFalse)

/-- The characters of a numeral are fit for a document. -/
theorem unfit_of_literal? {negative : Bool} {token : List Char} {number : Formula}
    (h : literal? negative token = .ok (some number)) : unfit token = [] := by
  refine unfit_eq_nil_iff.2 fun c hc => ?_
  rcases (isNumeral_of_literal? h).mem hc with hdigit | hsign
  · have hdigits : ∀ c ∈ ['0', '1', '2', '3', '4', '5', '6', '7', '8', '9'], IsChar c :=
      unfit_eq_nil_iff.1 (by decide)
    exact hdigits c (Numeral.isDigit_iff_mem.1 hdigit)
  · have hsigns : ∀ c ∈ ['+', '-', '.', 'e', 'E'], IsChar c := unfit_eq_nil_iff.1 (by decide)
    exact hsigns c hsign

/-- A document shows what is unfit in the names, in the order of the names. -/
theorem unfit_render {tree : Formula} (h : tree.Recordable) :
    unfit (tree.render documentStyle) = unfitNames tree := by
  induction tree with
  | integer value =>
    have hnumber : unfit (wholeText value) = [] := unfit_of_literal? (literal?_canonical_self h)
    refine (unfit_element (by decide) _ _).trans ?_
    rw [unfit_escaped]
    exact hnumber
  | decimal value =>
    have hnumber : unfit value.text = [] := unfit_of_literal? (literal?_canonical_self h)
    refine (unfit_element (by decide) _ _).trans ?_
    rw [unfit_escaped]
    exact hnumber
  | reference mark stem =>
    refine (unfit_element (by decide) _ _).trans ?_
    have hattribute : unfit (markAttribute mark) = [] := by cases mark <;> decide
    have hsign : unfit mark.sign = [] := by cases mark <;> decide
    rw [unfit_escaped, unfit_append, hattribute, hsign]
    rfl
  | parenthesized inner ih => exact (unfit_element (by decide) _ _).trans (ih h)
  | call function argument ih =>
    refine (unfit_typedElement (by decide) _ _).trans ?_
    rw [ih h, unfitNames]
  | callPair function first second ih₁ ih₂ =>
    refine (unfit_typedElement (by decide) _ _).trans ?_
    rw [unfit_append, ih₁ h.1, ih₂ h.2, unfitNames]
  | binary left op right ih₁ ih₂ =>
    have hop : unfit op.elementName = [] := by cases op <;> decide
    refine (unfit_typedElement (by decide) _ _).trans ?_
    rw [hop, unfit_append, ih₁ h.1, ih₂ h.2, unfitNames, List.nil_append]
  | conditional condition whenTrue whenFalse ih₁ ih₂ ih₃ =>
    refine (unfit_typedElement (by decide) _ _).trans ?_
    rw [unfit_append, unfit_append, ih₁ h.1, ih₂ h.2.1, ih₃ h.2.2, unfitNames]
    rfl

/-! ## Formulas that are read from a text -/

variable {category : Category}

theorem unfitNames_signed (negative : Bool) (operand : Formula) :
    unfitNames (signed negative operand) = unfitNames operand := by
  cases negative <;> rfl

theorem recordable_signed {operand : Formula} (negative : Bool) (h : operand.Recordable) :
    (signed negative operand).Recordable := by
  cases negative <;> exact h

theorem Formula.Literal.recordable {number : Formula} (h : number.Literal) : number.Recordable := by
  cases number with
  | integer | decimal => exact h
  | _ => exact h.elim

theorem unfitNames_literal {number : Formula} (h : number.Literal) : unfitNames number = [] := by
  cases number with
  | integer | decimal => rfl
  | _ => exact h.elim

theorem Grammar.Skips.unfit_eq (h : Skips text rest) : unfit text = unfit rest := by
  obtain ⟨gap, hgap, rfl⟩ := h
  have hblanks : ∀ c ∈ blanks, IsChar c := unfit_eq_nil_iff.1 (by decide)
  have hfit : unfit gap = [] :=
    unfit_eq_nil_iff.2 fun c hc => hblanks c (List.contains_iff_mem.1 (hgap c hc))
  rw [unfit_append, hfit, List.nil_append]

namespace Grammar.Derivation

/-- The numbers of a text are literals. -/
theorem recordable (d : Derivation category text rest) : d.tree.Recordable := by
  induction d with
  | plain _ body _ ih | operand body ih | group inner ih | unsigned _ body ih
  | negatedGroup _ inner ih | negatedValue _ _ body ih => exact ih
  | conditional _ condition _ whenTrue whenFalse ih ih₁ ih₂ => exact ⟨ih, ih₁, ih₂⟩
  | join op _ left _ _ _ right ih ih' => exact ⟨ih, ih'⟩
  | marked | negatedMarked => trivial
  | literal token _ _ number hnumber => exact (literal_of_token hnumber).recordable
  | name token =>
    have h : (Formula.reference .plain token).Recordable := trivial
    exact recordable_signed _ h
  | call token _ _ _ _ argument ih =>
    have h : (Formula.call token argument.tree).Recordable := ih
    exact recordable_signed _ h
  | callPair token _ _ _ _ _ first _ second ih ih' =>
    have h : (Formula.callPair token first.tree second.tree).Recordable := ⟨ih, ih'⟩
    exact recordable_signed _ h

/-- Whatever is unfit in a text is unfit in a name of its formula. -/
theorem unfitNames_append (d : Derivation category text rest) :
    unfitNames d.tree ++ unfit rest = unfit text := by
  induction d with
  | plain before body after ih => rw [before.unfit_eq, ← ih, after.unfit_eq, tree]
  | conditional before condition after whenTrue whenFalse ih ih₁ ih₂ =>
    have hafter := after.unfit_eq
    simp (disch := decide) only [unfit_cons_of_isChar] at hafter ih₁
    rw [before.unfit_eq, ← ih, hafter, ← ih₁, ← ih₂, tree, unfitNames]
    simp only [List.append_assoc]
  | operand body ih | unsigned _ body ih => exact ih
  | join op htier left before spells after right ih ih' =>
    have hop : unfit op.symbol = [] := by cases op <;> decide
    have hbefore := before.unfit_eq
    rw [spells.1, unfit_append, hop, List.nil_append, after.unfit_eq] at hbefore
    rw [← ih, hbefore, ← ih', tree, unfitNames, List.append_assoc]
  | group inner ih =>
    simp (disch := decide) only [unfit_cons_of_isChar] at ih ⊢
    exact ih
  | marked mark hmark stem hstem =>
    rcases (sign_of_ofSign? hmark).2 with rfl | rfl <;>
      simp (disch := decide) [tree, unfitNames]
  | negatedGroup before inner ih =>
    have hbefore := before.unfit_eq
    simp (disch := decide) only [unfit_cons_of_isChar] at hbefore ih ⊢
    rw [hbefore, ← ih]
    rfl
  | @negatedMarked text sign rest mark hmark stem before hstem =>
    have hbefore : unfit text = unfit (stem ++ rest) := by
      rw [before.unfit_eq]
      rcases (sign_of_ofSign? hmark).2 with rfl | rfl <;> rw [unfit_cons_of_isChar (by decide)]
    rw [unfit_cons_of_isChar (by decide), hbefore, unfit_append]
    rfl
  | negatedValue before hstart body ih =>
    rw [unfit_cons_of_isChar (by decide), before.unfit_eq, ← ih]
    rfl
  | literal token htoken hend number hnumber =>
    rw [tree, unfit_append, unfit_of_literal? hnumber,
      unfitNames_literal (literal_of_token hnumber)]
  | name token htoken =>
    rw [tree, unfitNames_signed, unfit_append]
    rfl
  | call token htoken _ _ before argument ih =>
    have hbefore := before.unfit_eq
    simp (disch := decide) only [unfit_cons_of_isChar] at hbefore ih
    rw [tree, unfitNames_signed, unfit_append, hbefore, ← ih, unfitNames, List.append_assoc]
  | @callPair _ _ _ separator middle _ token htoken _ _ hminus before first hseparator second ih
      ih' =>
    have hbefore := before.unfit_eq
    have hmiddle : unfit (separator :: middle) = unfit middle := by
      rcases hseparator with rfl | rfl <;> exact unfit_cons_of_isChar (by decide) _
    rw [hmiddle] at ih
    simp (disch := decide) only [unfit_cons_of_isChar] at hbefore ih'
    rw [tree, unfitNames_signed, unfit_append, hbefore, ← ih, ← ih', unfitNames]
    simp only [List.append_assoc]

end Grammar.Derivation

/-- A document is stored as one text only. -/
theorem wellFormed_stored_iff {tree : Formula} :
    WellFormed (stored (document tree)) ↔ ∀ c ∈ document tree, IsChar c := by
  constructor
  · rintro ⟨text, htext, -, hchars⟩
    exact stored_injective htext ▸ hchars
  · intro hchars
    exact ⟨document tree, rfl, isDocument_document tree, hchars⟩

/-- What is stored for a text is the document of the formula at its start: a declaration and one
element, well-formed exactly if all that was read may stand in a document. -/
theorem wellFormed_storedDocument_iff {options : Options} {bytes : ByteArray}
    (h : storedDocument options text = .ok bytes) :
    ∃ tree read rest, Grammar.formula (options.room 0) options.strict text = .ok (tree, rest) ∧
      text = read ++ rest ∧ bytes = stored (document tree) ∧ IsDocument (document tree) ∧
      (WellFormed bytes ↔ ∀ c ∈ read, IsChar c) := by
  obtain ⟨tree, hparse, rfl⟩ : ∃ tree, Formula.parse options text = .ok tree ∧
      stored (document tree) = bytes := by
    unfold storedDocument at h
    cases hparse : Formula.parse options text with
    | error failure => simp [hparse, Except.map] at h
    | ok tree => exact ⟨tree, rfl, by simpa [hparse, Except.map] using h⟩
  obtain ⟨rest, hformula⟩ := parse_eq_ok_iff.1 hparse
  obtain ⟨hexpression, -⟩ := formula_eq_ok_iff.1 hformula
  obtain ⟨d, rfl, -⟩ := (expression_sound _).derives hexpression
  obtain ⟨read, rfl⟩ := d.suffix
  refine ⟨d.tree, read, rest, hformula, rfl, rfl, isDocument_document _, ?_⟩
  have hnames : unfitNames d.tree = unfit read := by
    have hunfit := d.unfitNames_append
    rw [unfit_append] at hunfit
    exact List.append_cancel_right hunfit
  have hdeclaration : unfit declaration = [] := by decide
  rw [wellFormed_stored_iff, ← unfit_eq_nil_iff, ← unfit_eq_nil_iff, document, withDeclaration,
    unfit_append, hdeclaration, unfit_render d.recordable, hnames, List.nil_append]

/-- Markup in a name does no harm. -/
theorem wellFormed_storedDocument_ampersand :
    ∃ bytes, storedDocument {} ['&', '(', '"', ')'] = .ok bytes ∧ WellFormed bytes := by
  have h : storedDocument {} ['&', '(', '"', ')'] =
      .ok (stored (document (.call ['&'] (.reference .plain ['"'])))) := rfl
  obtain ⟨tree, read, rest, -, htext, -, -, hiff⟩ := wellFormed_storedDocument_iff h
  have hchars : ∀ c ∈ ['&', '(', '"', ')'], IsChar c := unfit_eq_nil_iff.1 (by decide)
  exact ⟨_, h, hiff.2 fun c hc => hchars c (htext ▸ List.mem_append_left rest hc)⟩

/-- A control character is a name like any other. -/
theorem not_wellFormed_storedDocument_control :
    ∃ bytes, storedDocument {} ['\x01'] = .ok bytes ∧ ¬ WellFormed bytes := by
  have h : storedDocument {} ['\x01'] = .ok (stored (document (.reference .plain ['\x01']))) := rfl
  refine ⟨_, h, fun hwellFormed => ?_⟩
  have hcontrol : unfit (document (.reference .plain ['\x01'])) ≠ [] := by decide
  exact hcontrol (unfit_eq_nil_iff.2 (wellFormed_stored_iff.1 hwellFormed))

end Drafting
