import Drafting.Proofs.Number.ReadBack
import Drafting.Proofs.Text.Token
import Drafting.Rendering.Canonical

/-!
# Canonical text, piece by piece

The canonical text of each kind of formula with whatever follows it, and the literals: the canonical
text of a literal is a token that stands for the literal, and a minus sign in front of it turns it.

## Main definitions

* `Formula.Literal` — the numbers that a text can hold.
* `Formula.Unsigned` — the literals written without a sign.
* `Formula.opposite` — a literal with its sign turned.

Main statements: `literal?_append_canonical`, `canonical_of_signed` and `isToken_literal`.
-/

namespace Drafting

namespace Rendering

variable {rest : List Char}

@[simp] theorem canonical_integer (value : Int) : canonical (.integer value) = wholeText value := rfl

@[simp] theorem canonical_decimal (value : Binary64) : canonical (.decimal value) = value.text := rfl

@[simp] theorem canonical_reference (mark : Mark) (stem : List Char) :
    canonical (.reference mark stem) = mark.sign ++ stem := rfl

@[simp] theorem canonical_negation (operand : Formula) :
    canonical operand.negation = '-' :: canonical operand := rfl

theorem canonical_parenthesized (inner : Formula) :
    canonical (.parenthesized inner) = '(' :: (canonical inner ++ [')']) := by
  simp [canonical, Formula.render, canonicalStyle]

theorem canonical_call {function : List Char} (h : function ≠ minusName) (argument : Formula) :
    canonical (.call function argument) = function ++ '(' :: (canonical argument ++ [')']) := by
  simp [canonical, Formula.render, canonicalStyle, h]

theorem canonical_callPair {function : List Char} (h : function ≠ minusName)
    (first second : Formula) :
    canonical (.callPair function first second) =
      function ++ '(' :: (canonical first ++ ',' :: (canonical second ++ [')'])) := by
  simp [canonical, Formula.render, canonicalStyle, h]

theorem canonical_binary (left : Formula) (op : Operator) (right : Formula) :
    canonical (.binary left op right) = canonical left ++ (op.symbol ++ canonical right) := by
  simp [canonical, Formula.render, canonicalStyle]

theorem canonical_conditional (condition whenTrue whenFalse : Formula) :
    canonical (.conditional condition whenTrue whenFalse) =
      canonical condition ++ '?' :: (canonical whenTrue ++ ':' :: canonical whenFalse) := by
  simp [canonical, Formula.render, canonicalStyle]

/-! With the text that follows: -/

theorem canonical_parenthesized_append (inner : Formula) :
    canonical (.parenthesized inner) ++ rest = '(' :: (canonical inner ++ ')' :: rest) := by
  simp [canonical_parenthesized]

theorem canonical_call_append {function : List Char} (h : function ≠ minusName)
    (argument : Formula) :
    canonical (.call function argument) ++ rest =
      function ++ '(' :: (canonical argument ++ ')' :: rest) := by
  simp [canonical_call h]

theorem canonical_callPair_append {function : List Char} (h : function ≠ minusName)
    (first second : Formula) :
    canonical (.callPair function first second) ++ rest =
      function ++ '(' :: (canonical first ++ ',' :: (canonical second ++ ')' :: rest)) := by
  simp [canonical_callPair h]

theorem canonical_binary_append (left : Formula) (op : Operator) (right : Formula) :
    canonical (.binary left op right) ++ rest =
      canonical left ++ (op.symbol ++ (canonical right ++ rest)) := by
  simp [canonical_binary]

theorem canonical_conditional_append (condition whenTrue whenFalse : Formula) :
    canonical (.conditional condition whenTrue whenFalse) ++ rest =
      canonical condition ++ '?' :: (canonical whenTrue ++ ':' :: (canonical whenFalse ++ rest)) := by
  simp [canonical_conditional]

end Rendering

/-! ## Literals -/

namespace Formula

/-- The numbers that a text can hold. -/
def Literal : Formula → Prop
  | integer value => (decimalDigits value.natAbs).length ≤ Numeral.digitLimit
  | decimal value => value.isFinite = true
  | _ => False

/-- The literals that are written without a sign. -/
def Unsigned : Formula → Prop
  | integer value => 0 ≤ value
  | decimal value => value.negative = false
  | _ => False

/-- A literal with its sign turned. -/
def opposite : Formula → Formula
  | integer value => integer (-value)
  | decimal value => decimal (-value)
  | other => other

/-- The opposite of a literal after a minus sign. -/
def turned (negative : Bool) (literal : Formula) : Formula :=
  if negative then literal.opposite else literal

end Formula

namespace Rendering

open Grammar

theorem isDelimiter_of_isDigit {c : Char} (h : c.isDigit = true) : isDelimiter c = false := by
  have hmem := Numeral.isDigit_iff_mem.1 h
  simp only [List.mem_cons, List.not_mem_nil, or_false] at hmem
  rcases hmem with rfl | rfl | rfl | rfl | rfl | rfl | rfl | rfl | rfl | rfl <;> rfl

theorem magnitude_lt_of_literal {value : Binary64} (h : (Formula.decimal value).Literal) :
    value.magnitude < Binary64.infinite := by
  simpa [Formula.Literal, Binary64.isFinite] using h

theorem text_of_literal {value : Binary64} (h : (Formula.decimal value).Literal) :
    value.text = if value.negative then '-' :: Binary64.magnitudeText value.magnitude
      else Binary64.magnitudeText value.magnitude :=
  if_neg (Nat.not_lt.2 (Nat.le_of_lt (magnitude_lt_of_literal h)))

theorem text_of_unsigned {value : Binary64} (h : (Formula.decimal value).Literal)
    (hunsigned : (Formula.decimal value).Unsigned) :
    value.text = Binary64.magnitudeText value.magnitude := by
  rw [text_of_literal h, if_neg (by simp [show value.negative = false from hunsigned])]

/-- The text of a literal without a sign: a digit, and no delimiter after it. -/
theorem exists_digits {literal : Formula} (h : literal.Literal) (hunsigned : literal.Unsigned) :
    ∃ c body, canonical literal = c :: body ∧ c.isDigit = true ∧
      ∀ d ∈ body, isDelimiter d = false := by
  cases literal with
  | integer value =>
    obtain ⟨n, rfl⟩ := Int.eq_ofNat_of_zero_le hunsigned
    obtain ⟨c, body, htext⟩ := List.exists_cons_of_ne_nil (decimalDigits_ne_nil n)
    have hdigit : ∀ d ∈ c :: body, d.isDigit = true := fun d hd =>
      isDigit_of_mem_decimalDigits (htext ▸ hd)
    exact ⟨c, body, htext, hdigit c (by simp), fun d hd =>
      isDelimiter_of_isDigit (hdigit d (by simp [hd]))⟩
  | decimal value =>
    obtain ⟨before, after, hparts, hbefore, hb, ha, -⟩ :=
      Binary64.exists_magnitudeText (magnitude_lt_of_literal h)
    obtain ⟨c, before, rfl⟩ := List.exists_cons_of_ne_nil hbefore
    rw [List.all_eq_true] at hb ha
    refine ⟨c, before ++ '.' :: after, (text_of_unsigned h hunsigned).trans hparts, hb c (by simp),
      fun d hd => ?_⟩
    rcases List.mem_append.1 hd with hd | hd
    · exact isDelimiter_of_isDigit (hb d (by simp [hd]))
    · rcases List.mem_cons.1 hd with rfl | hd
      · rfl
      · exact isDelimiter_of_isDigit (ha d hd)
  | _ => exact h.elim

/-- A literal without a sign, after a sign or none. -/
theorem literal?_append_canonical {sign : List Char} {literal : Formula} (negative : Bool)
    (hs : Numeral.IsSign sign) (h : literal.Literal) (hunsigned : literal.Unsigned) :
    literal? negative (sign ++ canonical literal) =
      .ok (some (literal.turned (decide (sign = ['-']) != negative))) := by
  cases literal with
  | integer value =>
    obtain ⟨n, rfl⟩ := Int.eq_ofNat_of_zero_le hunsigned
    refine (literal?_decimalDigits hs negative h).trans ?_
    cases negative <;> cases hsign : decide (sign = ['-']) <;> rfl
  | decimal value =>
    obtain ⟨_, magnitude, hlt⟩ := value
    obtain rfl := hunsigned
    rw [canonical_decimal, text_of_unsigned h rfl]
    refine (literal?_magnitudeText hs negative hlt (magnitude_lt_of_literal h)).trans ?_
    cases hsign : decide (sign = ['-']) != negative <;> rfl
  | _ => exact h.elim

/-- A literal with a sign is written as its opposite after a minus sign. -/
theorem canonical_of_signed {literal : Formula} (h : literal.Literal)
    (hsigned : ¬ literal.Unsigned) :
    canonical literal = '-' :: canonical literal.opposite ∧ literal.opposite.Literal ∧
      literal.opposite.Unsigned ∧ literal.opposite.opposite = literal := by
  cases literal with
  | integer value =>
    obtain ⟨n, rfl⟩ := Int.eq_negSucc_of_lt_zero (Int.not_le.1 hsigned)
    exact ⟨rfl, h, Int.natCast_nonneg (n + 1), rfl⟩
  | decimal value =>
    obtain ⟨negative, magnitude, hlt⟩ := value
    cases negative with
    | false => exact absurd rfl hsigned
    | true =>
      have hopposite : (Formula.decimal ⟨true, magnitude, hlt⟩).opposite.Literal := h
      refine ⟨?_, hopposite, rfl, rfl⟩
      rw [canonical_decimal, text_of_literal h, if_pos rfl]
      exact congrArg _ (text_of_unsigned hopposite rfl).symm
  | _ => exact h.elim

theorem isToken_unsigned {literal : Formula} (h : literal.Literal) (hunsigned : literal.Unsigned) :
    IsToken (canonical literal) := by
  obtain ⟨c, body, htext, hc, hbody⟩ := exists_digits h hunsigned
  exact ⟨c, body, htext, isBlank_of_not_delimiter (isDelimiter_of_isDigit hc), hbody⟩

theorem isToken_minus_unsigned {literal : Formula} (h : literal.Literal)
    (hunsigned : literal.Unsigned) : IsToken ('-' :: canonical literal) := by
  obtain ⟨c, body, htext, hc, hbody⟩ := exists_digits h hunsigned
  rw [htext]
  exact ⟨'-', c :: body, rfl, rfl, List.forall_mem_cons.2 ⟨isDelimiter_of_isDigit hc, hbody⟩⟩

/-- The canonical text of a literal is one token. -/
theorem isToken_literal {literal : Formula} (h : literal.Literal) : IsToken (canonical literal) := by
  by_cases hunsigned : literal.Unsigned
  · exact isToken_unsigned h hunsigned
  · obtain ⟨htext, hliteral, hopposite, -⟩ := canonical_of_signed h hunsigned
    rw [htext]
    exact isToken_minus_unsigned hliteral hopposite

/-- A literal's text is a minus sign, if any, and characters that end no token. -/
theorem cases_mem_canonical {literal : Formula} (h : literal.Literal) {c : Char}
    (hc : c ∈ canonical literal) : c = '-' ∨ isDelimiter c = false := by
  have hdigits {literal : Formula} (h : literal.Literal) (hunsigned : literal.Unsigned)
      (hc : c ∈ canonical literal) : isDelimiter c = false := by
    obtain ⟨d, body, htext, hd, hbody⟩ := exists_digits h hunsigned
    rw [htext] at hc
    rcases List.mem_cons.1 hc with rfl | hc
    · exact isDelimiter_of_isDigit hd
    · exact hbody c hc
  by_cases hunsigned : literal.Unsigned
  · exact .inr (hdigits h hunsigned hc)
  · obtain ⟨htext, hliteral, hopposite, -⟩ := canonical_of_signed h hunsigned
    rw [htext] at hc
    exact (List.mem_cons.1 hc).imp_right (hdigits hliteral hopposite)

/-- The literals that tokens stand for. -/
theorem literal_of_token {negative : Bool} {token : List Char} {number : Formula}
    (h : literal? negative token = .ok (some number)) : number.Literal := by
  rcases literal?_cases h with ⟨value, rfl, hvalue⟩ | ⟨value, rfl, hvalue⟩ <;> exact hvalue

end Rendering

end Drafting
