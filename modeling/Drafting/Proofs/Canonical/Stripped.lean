import Drafting.Proofs.Canonical.RoundTrip

/-!
# Meaning kept by canonical text

Canonical text drops the parentheses behind a minus sign, and the formula that it is read as may hold
others, so that a reading of it is compared with the formula without parentheses and with the minus
signs before numbers worked out. Of a formula that was read from a text, canonical text keeps this
much when its signs stand apart: no minus sign stands before another one, unless a number or
parentheses follow, and no operand that begins with an equals sign stands behind `>` or `<`.

## Main definitions

* `Formula.strip` — a formula without parentheses and without minus signs before numbers.
* `Formula.Apart` — the formulas whose signs stand apart.
* `Formula.Written` — the formulas that are read from texts without `==` and `!=`.

Main statements: `Derivation.written` and `Formula.Written.faithful`.
-/

namespace Drafting

open Grammar Rendering

namespace Formula

/-- What two operands and three are joined to. -/
def Operation : Formula → Prop
  | binary .. | conditional .. => True
  | _ => False

/-- No minus sign stands before an operation. -/
def NegatesNoOperation : Formula → Prop
  | integer _ | decimal _ | reference .. => True
  | parenthesized inner => inner.NegatesNoOperation
  | call function argument =>
    (function = minusName → ¬ argument.Operation) ∧ argument.NegatesNoOperation
  | callPair _ first second => first.NegatesNoOperation ∧ second.NegatesNoOperation
  | binary left _ right => left.NegatesNoOperation ∧ right.NegatesNoOperation
  | conditional condition whenTrue whenFalse =>
    condition.NegatesNoOperation ∧ whenTrue.NegatesNoOperation ∧ whenFalse.NegatesNoOperation

/-- The formula of the opposite sign: a number with its sign turned, and a call of the function `-`
of anything else. -/
def minus : Formula → Formula
  | integer value => integer (-value)
  | decimal value => decimal (-value)
  | operand => operand.negation

/-- The formula without its parentheses, and with the minus signs before numbers worked out. -/
def strip : Formula → Formula
  | integer value => integer value
  | decimal value => decimal value
  | reference mark stem => reference mark stem
  | parenthesized inner => inner.strip
  | call function argument =>
    if function = minusName then argument.strip.minus else call function argument.strip
  | callPair function first second => callPair function first.strip second.strip
  | binary left op right => binary left.strip op right.strip
  | conditional condition whenTrue whenFalse =>
    conditional condition.strip whenTrue.strip whenFalse.strip

/-- No minus sign stands before another one, unless a number without a sign or parentheses follow, and
what stands behind `>` or `<` does not begin with an equals sign. -/
def Apart : Formula → Prop
  | integer _ | decimal _ | reference .. => True
  | parenthesized inner => inner.Apart
  | call function argument =>
    argument.Apart ∧
      (function = minusName → ∀ operand, argument = negation operand → operand.Shielded)
  | callPair _ first second => first.Apart ∧ second.Apart
  | binary left op right =>
    left.Apart ∧ right.Apart ∧
      (op = .greater ∨ op = .less → (canonical right).head? ≠ some '=')
  | conditional condition whenTrue whenFalse =>
    condition.Apart ∧ whenTrue.Apart ∧ whenFalse.Apart

/-- The formulas that are read from texts without `==` and `!=` and negate no operation; with
`negative`, after a minus sign. -/
def Written (negative : Bool) : Formula → Prop
  | integer value => (integer value).Literal
  | decimal value => (decimal value).Literal
  | reference .plain name => NameToken (startsNoName negative) name
  | reference _ stem => IsToken stem
  | parenthesized inner => inner.Written false
  | call function argument =>
    if function = minusName then argument.Written true
    else NameToken (startsNoName negative) function ∧ argument.Written false
  | callPair function first second =>
    function ≠ minusName ∧ NameToken (startsNoName negative) function ∧
      first.Written false ∧ second.Written false
  | binary left op right =>
    negative = false ∧ left.Written false ∧ right.Written false ∧
      op.level ≤ left.rank ∧ op.level < right.rank ∧ op ≠ .equal ∧ op ≠ .notEqual
  | conditional condition whenTrue whenFalse =>
    negative = false ∧ condition.Written false ∧ whenTrue.Written false ∧
      whenFalse.Written false ∧ Operator.conditionalLevel < condition.rank

/-- A formula as it is, or with its sign turned. -/
def behind (negative : Bool) (operand : Formula) : Formula :=
  if negative then operand.minus else operand

/-! ## Signs -/

theorem minus_of_literal {literal : Formula} (h : literal.Literal) :
    literal.minus = literal.opposite := by
  cases literal with
  | integer | decimal => rfl
  | _ => exact h.elim

theorem minus_minus_of_literal {literal : Formula} (h : literal.Literal) :
    literal.minus.minus = literal := by
  cases literal with
  | integer value => exact congrArg integer (Int.neg_neg value)
  | decimal value =>
    obtain ⟨negative, magnitude, hlt⟩ := value
    cases negative <;> rfl
  | _ => exact h.elim

theorem strip_of_literal {literal : Formula} (h : literal.Literal) : literal.strip = literal := by
  cases literal with
  | integer | decimal => rfl
  | _ => exact h.elim

theorem strip_signed (negative : Bool) (operand : Formula) :
    (signed negative operand).strip = operand.strip.behind negative := by
  cases negative <;> rfl

theorem strip_turned {literal : Formula} (h : literal.Literal) (negative : Bool) :
    (turned negative literal).strip = literal.strip.behind negative := by
  rw [strip_of_literal h]
  cases negative with
  | false => exact strip_of_literal h
  | true =>
    cases literal with
    | integer | decimal => rfl
    | _ => exact h.elim

/-- Two minus signs are worked out before a number, and kept before parentheses. -/
theorem Shielded.strip_doubleNegation {formula : Formula} (h : formula.Shielded)
    (hfaithful : formula.Faithful false) (hstrip : (formula.reread false).strip = formula.strip) :
    (formula.reread false).doubleNegation.strip = formula.strip.minus.minus := by
  cases formula with
  | integer | decimal => exact (minus_minus_of_literal hfaithful).symm
  | parenthesized inner => exact congrArg (minus ∘ minus) hstrip
  | _ => exact h.elim

/-- The formula that canonical text is read as is the same but for parentheses and the minus signs
before numbers. -/
theorem Faithful.strip_reread {formula : Formula} {negative : Bool} (h : formula.Faithful negative) :
    (formula.reread negative).strip = formula.strip.behind negative := by
  induction formula generalizing negative with
  | integer value => exact strip_turned h negative
  | decimal value => exact strip_turned h negative
  | reference mark stem => exact strip_signed negative _
  | parenthesized inner ih =>
    have hinner := ih h
    cases negative with
    | false => exact hinner
    | true => exact congrArg minus hinner
  | call function argument ih =>
    by_cases hminus : function = minusName
    · subst hminus
      cases negative with
      | false => exact ih h
      | true => exact h.2.strip_doubleNegation h.1 (ih h.1)
    · simp only [Faithful, if_neg hminus] at h
      simp only [reread, strip, if_neg hminus]
      rw [strip_signed, strip, if_neg hminus, ih h.2]
      rfl
  | callPair function first second ih ih' =>
    rw [reread, strip_signed, strip, ih h.2.2.1, ih' h.2.2.2]
    rfl
  | binary left op right ih ih' =>
    obtain ⟨rfl, hl, hr, -⟩ := h
    rw [reread, strip, ih hl, ih' hr]
    rfl
  | conditional condition whenTrue whenFalse ih ih₁ ih₂ =>
    obtain ⟨rfl, hc, ht, hf, -⟩ := h
    rw [reread, strip, ih hc, ih₁ ht, ih₂ hf]
    rfl

/-! ## Formulas whose signs stand apart -/

/-- A formula that may follow a minus sign may stand alone, if it is a number or a group. -/
theorem Shielded.faithful {formula : Formula} (h : formula.Shielded)
    (hfaithful : formula.Faithful true) : formula.Faithful false := by
  cases formula with
  | integer | decimal | parenthesized => exact hfaithful
  | _ => exact h.elim

/-- Canonical text keeps a formula whose signs stand apart. -/
theorem Written.faithful {formula : Formula} {negative : Bool} (h : formula.Written negative)
    (hapart : formula.Apart)
    (hnegative : negative = true → ∀ operand, formula = negation operand → operand.Shielded) :
    formula.Faithful negative := by
  induction formula generalizing negative with
  | integer | decimal => exact h
  | reference mark stem => cases mark <;> exact h
  | parenthesized inner ih => exact ih h hapart (by simp)
  | call function argument ih =>
    obtain ⟨hargument, hshielded⟩ := hapart
    by_cases hminus : function = minusName
    · subst hminus
      have hafter := ih h hargument fun _ => hshielded rfl
      cases negative with
      | false => exact hafter
      | true =>
        have hshield := hnegative rfl argument rfl
        exact ⟨hshield.faithful hafter, hshield⟩
    · simp only [Written, if_neg hminus] at h
      simp only [Faithful, if_neg hminus]
      exact ⟨h.1, ih h.2 hargument (by simp)⟩
  | callPair function first second ih ih' =>
    obtain ⟨hminus, hname, hf, hs⟩ := h
    exact ⟨hminus, hname, ih hf hapart.1 (by simp), ih' hs hapart.2 (by simp)⟩
  | binary left op right ih ih' =>
    obtain ⟨rfl, hl, hr, hlevel, hlevel', hequal, hnotEqual⟩ := h
    obtain ⟨hleft, hright, halone⟩ := hapart
    refine ⟨rfl, ih hl hleft (by simp), ih' hr hright (by simp), hlevel, hlevel', halone, ?_⟩
    rintro (hop | hop)
    · exact absurd hop hequal
    · exact absurd hop hnotEqual
  | conditional condition whenTrue whenFalse ih ih₁ ih₂ =>
    obtain ⟨rfl, hc, ht, hf, hlevel⟩ := h
    exact ⟨rfl, ih hc hapart.1 (by simp), ih₁ ht hapart.2.1 (by simp), ih₂ hf hapart.2.2 (by simp),
      hlevel⟩

end Formula

/-! ## Formulas that are read from a text -/

namespace Grammar

/-- No `==` and no `!=` stands in the text. -/
def NoEquation (text : List Char) : Prop := ¬ ['=', '='] <:+: text ∧ ¬ ['!', '='] <:+: text

theorem NoEquation.suffix {text rest : List Char} (h : NoEquation text) (hsuffix : rest <:+ text) :
    NoEquation rest :=
  ⟨fun hmem => h.1 (hmem.trans hsuffix.isInfix), fun hmem => h.2 (hmem.trans hsuffix.isInfix)⟩

variable {category : Category} {text rest : List Char}

/-- The first character of a value is one that a value may begin with. -/
def Category.Admits : Category → List Char → Prop
  | value negative, text => ∀ c ∈ text.head?, Formula.startsNoName negative c = false
  | _, _ => True

theorem Tier.admits_operand (tier : Tier) (text : List Char) : tier.operand.Admits text := by
  cases tier <;> trivial

theorem startsNoNegated_of_startsNoValue {c : Char} (h : startsNoValue c = false) :
    startsNoNegated c = false := by
  simp only [startsNoValue, startsNoNegated, List.contains_eq_mem, decide_eq_false_iff_not] at h ⊢
  intro hmem
  exact h (List.mem_append_left ['+', '*', '/', '^', '-'] hmem)

/-- What may be written alone may be written after a minus sign, unless it is an operation. -/
theorem written_after_minus {formula : Formula} (h : formula.Written false)
    (hoperation : ¬ formula.Operation) : formula.Written true := by
  have hname {name : List Char} (h : Formula.NameToken (Formula.startsNoName false) name) :
      Formula.NameToken (Formula.startsNoName true) name :=
    ⟨h.1, h.2.1, fun c hc => startsNoNegated_of_startsNoValue (h.2.2 c hc)⟩
  cases formula with
  | integer | decimal | parenthesized => exact h
  | reference mark stem =>
    cases mark with
    | plain => exact hname h
    | custom | hashed => exact h
  | call function argument =>
    by_cases hminus : function = minusName
    · subst hminus
      exact h
    · simp only [Formula.Written, if_neg hminus] at h ⊢
      exact ⟨hname h.1, h.2⟩
  | callPair function first second => exact ⟨h.1, hname h.2.1, h.2.2⟩
  | binary | conditional => exact absurd trivial hoperation

theorem Formula.negatesNoOperation_signed {negative : Bool} {operand : Formula}
    (h : (signed negative operand).NegatesNoOperation) : operand.NegatesNoOperation := by
  cases negative with
  | false => exact h
  | true => exact h.2

theorem written_signed {negative : Bool} {operand : Formula} (h : operand.Written negative) :
    (signed negative operand).Written false := by
  cases negative <;> exact h

theorem Category.Admits.nameToken {negative : Bool} {token after : List Char}
    (h : (Category.value negative).Admits (token ++ after)) (htoken : IsToken token)
    (hname : ¬ Numeral.IsNumeral token) : Formula.NameToken (Formula.startsNoName negative) token :=
  ⟨htoken, hname, fun c hc => h c (by rwa [List.head?_append_of_ne_nil _ htoken.ne_nil])⟩

/-- What a text without `==` and `!=` is read as. -/
theorem Derivation.written (d : Derivation category text rest) (hadmits : category.Admits text)
    (htext : NoEquation text) (hnegates : d.tree.NegatesNoOperation) : d.tree.Written false := by
  induction d with
  | plain before body after ih => exact ih trivial (htext.suffix before.suffix) hnegates
  | conditional before condition after whenTrue whenFalse ih ih₁ ih₂ =>
    obtain ⟨hcondition, htrue, hfalse⟩ := hnegates
    have hstart := htext.suffix before.suffix
    have honTrue := hstart.suffix (suffix_of_cons (after.suffix.trans condition.suffix))
    have honFalse := honTrue.suffix (suffix_of_cons whenTrue.suffix)
    exact ⟨rfl, ih trivial hstart hcondition, ih₁ trivial honTrue htrue,
      ih₂ trivial honFalse hfalse, Int.lt_of_lt_of_le (by decide) condition.rank_le⟩
  | @operand tier text _ body ih => exact ih (tier.admits_operand text) htext hnegates
  | @join tier _ _ _ _ start _ op htier left before spells after right ih ih' =>
    subst htier
    have hsign := htext.suffix (before.suffix.trans left.suffix)
    have hstart := hsign.suffix (after.suffix.trans (spells.1 ▸ List.suffix_append _ _))
    have hlevel := left.rank_le
    have hlevel' := Int.lt_of_lt_of_le op.tier.level_lt_rank_operand right.rank_le
    rw [Category.rank, op.level_tier] at hlevel
    rw [op.level_tier] at hlevel'
    refine ⟨rfl, ih trivial htext hnegates.1, ih' (op.tier.admits_operand start) hstart hnegates.2,
      hlevel, hlevel', ?_, ?_⟩
    · rintro rfl
      exact hsign.1 (spells.1 ▸ (List.prefix_append _ _).isInfix)
    · rintro rfl
      exact hsign.2 (spells.1 ▸ (List.prefix_append _ _).isInfix)
  | group inner ih => exact ih trivial (htext.suffix (List.suffix_cons _ _)) hnegates
  | marked mark hmark stem hstem =>
    cases mark with
    | plain => exact absurd (sign_of_ofSign? hmark).1 (by simp [Mark.sign])
    | custom | hashed => exact hstem
  | unsigned hstart body ih =>
    refine ih ?_ htext hnegates
    rintro c ⟨⟩
    exact hstart
  | negatedGroup before inner ih =>
    have hstart := (htext.suffix (List.suffix_cons _ _)).suffix (suffix_of_cons before.suffix)
    exact written_after_minus (ih trivial hstart hnegates.2) (hnegates.1 rfl)
  | negatedMarked mark hmark stem before hstem =>
    cases mark with
    | plain => exact absurd (sign_of_ofSign? hmark).1 (by simp [Mark.sign])
    | custom | hashed => exact hstem
  | negatedValue before hstart body ih =>
    refine ih ?_ (htext.suffix (before.suffix.trans (List.suffix_cons _ _))) hnegates
    rintro c ⟨⟩
    exact hstart
  | literal token htoken hend number hnumber =>
    have hliteral := literal_of_token hnumber
    cases number with
    | integer | decimal => exact hliteral
    | _ => exact hliteral.elim
  | name token htoken hend hname => exact written_signed (hadmits.nameToken htoken hname)
  | call token htoken hend hname before argument ih =>
    have hcall := Formula.negatesNoOperation_signed hnegates
    have hstart := (htext.suffix (List.suffix_append token _)).suffix (suffix_of_cons before.suffix)
    have hargument := ih trivial hstart hcall.2
    refine written_signed ?_
    by_cases hminus : token = minusName
    · subst hminus
      exact written_after_minus hargument (hcall.1 rfl)
    · rw [Formula.Written, if_neg hminus]
      exact ⟨hadmits.nameToken htoken hname, hargument⟩
  | callPair token htoken hend hname hminus before first hseparator second ih ih' =>
    have hpair := Formula.negatesNoOperation_signed hnegates
    have hstart := (htext.suffix (List.suffix_append token _)).suffix (suffix_of_cons before.suffix)
    have hmiddle := hstart.suffix (suffix_of_cons first.suffix)
    exact written_signed ⟨hminus, hadmits.nameToken htoken hname, ih trivial hstart hpair.1,
      ih' trivial hmiddle hpair.2⟩

end Grammar

end Drafting
