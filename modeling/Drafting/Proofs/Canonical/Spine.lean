import Drafting.Proofs.Canonical.Idempotence
import Drafting.Proofs.Canonical.Stripped

/-!
# Derivations along their left end

A derivation of a text without blanks, followed from its first atom to the right, and what an atom
can be that begins with a given character or builds a given formula.

## Main definitions

* `Formula.Heads` — a formula at the left end of another one.
* `Spine` — a derivation followed along its left end.
* `Operand` — the names and calls in a text.

Main statements: `Derivation.spine` and `Derivation.value_cases`.
-/

namespace Drafting

open Grammar Rendering

/-! ## Left ends -/

namespace Formula

/-- The formula is at the left end of an operation. -/
def Heads (head : Formula) : Formula → Prop
  | binary left _ _ => left = head ∨ Heads head left
  | conditional condition _ _ => condition = head ∨ Heads head condition
  | _ => False

theorem heads_binary (left : Formula) (op : Operator) (right : Formula) :
    left.Heads (binary left op right) := .inl rfl

theorem heads_conditional (condition whenTrue whenFalse : Formula) :
    condition.Heads (conditional condition whenTrue whenFalse) := .inl rfl

theorem Heads.trans {a b c : Formula} (h : Heads a b) (h' : Heads b c) : Heads a c := by
  induction c with
  | binary left op right ih =>
    rcases h' with rfl | h'
    · exact .inr h
    · exact .inr (ih h')
  | conditional condition whenTrue whenFalse ih =>
    rcases h' with rfl | h'
    · exact .inr h
    · exact .inr (ih h')
  | _ => exact h'.elim

theorem Heads.operation {head formula : Formula} (h : Heads head formula) : formula.Operation := by
  cases formula with
  | binary | conditional => trivial
  | _ => exact h.elim

theorem Literal.not_operation {formula : Formula} (h : formula.Literal) : ¬ formula.Operation := by
  cases formula with
  | integer | decimal => exact id
  | _ => exact h.elim

theorem Literal.of_minus_minus {formula : Formula} (h : formula.minus.minus.Literal) :
    formula.Literal := by
  cases formula with
  | integer value =>
    rw [Literal, ← Int.neg_neg value]
    exact h
  | decimal value =>
    rw [Literal, ← value.neg_neg]
    exact h
  | _ => exact h.elim

theorem minus_not_operation (operand : Formula) : ¬ operand.minus.Operation := by
  cases operand <;> exact id

theorem minus_inj {a b : Formula} (h : a.minus = b.minus) : a = b := by
  cases a <;> cases b <;> simp_all [minus, negation, Binary64.neg_inj]

theorem behind_inj {negative : Bool} {a b : Formula} (h : a.behind negative = b.behind negative) :
    a = b := by
  cases negative with
  | false => exact h
  | true => exact minus_inj h

/-- No formula of the opposite sign is a name, or a call of another function than `-`. -/
theorem minus_ne_reference (operand : Formula) (mark : Mark) (stem : List Char) :
    operand.minus ≠ reference mark stem := by
  cases operand <;> simp [minus, negation]

theorem minus_ne_call (operand : Formula) {function : List Char} (h : function ≠ minusName)
    (argument : Formula) : operand.minus ≠ call function argument := by
  cases operand <;> simp [minus, negation, h.symm]

theorem minus_ne_callPair (operand : Formula) (function : List Char) (first second : Formula) :
    operand.minus ≠ callPair function first second := by
  cases operand <;> simp [minus, negation]

end Formula

namespace Grammar

/-- A derivation of a text without blanks, followed along its left end. -/
inductive Spine (text : List Char) : List Char → Formula → Prop
  | atom {rest} (d : Derivation .atom text rest) : Spine text rest d.tree
  | join {tree finish spelt rest} (op : Operator) (left : Spine text finish tree)
      (spells : Spells op finish spelt) (right : Derivation op.tier.operand spelt rest) :
      Spine text rest (.binary tree op right.tree)
  | conditional {tree onTrue onFalse rest} (condition : Spine text ('?' :: onTrue) tree)
      (whenTrue : Derivation .formula onTrue (':' :: onFalse))
      (whenFalse : Derivation .formula onFalse rest) :
      Spine text rest (.conditional tree whenTrue.tree whenFalse.tree)

variable {category : Category} {text rest : List Char}

theorem Tier.operand_ne_value (tier : Tier) (negative : Bool) : tier.operand ≠ .value negative := by
  cases tier <;> simp [operand]

/-- Every derivation but that of a value can be followed along its left end. -/
theorem Derivation.spine (d : Derivation category text rest)
    (hvalue : ∀ negative, category ≠ .value negative) (htext : NoBlanks text) :
    Spine text rest d.tree := by
  induction d with
  | plain before body after ih =>
    obtain rfl := before.eq_of_noBlanks htext
    obtain rfl := after.eq_of_noBlanks (htext.suffix body.suffix)
    exact ih (by simp) htext
  | conditional before condition after whenTrue whenFalse ih ih₁ ih₂ =>
    obtain rfl := before.eq_of_noBlanks htext
    have hfinish := after.eq_of_noBlanks (htext.suffix condition.suffix)
    subst hfinish
    exact .conditional (ih (by simp) htext) whenTrue whenFalse
  | @operand tier _ _ body ih => exact ih tier.operand_ne_value htext
  | join op htier left before spells after right ih ih' =>
    subst htier
    have hfinish := htext.suffix left.suffix
    obtain rfl := before.eq_of_noBlanks hfinish
    obtain rfl := after.eq_of_noBlanks (hfinish.right spells.1)
    exact .join op (ih (by simp) htext) spells right
  | group inner => exact .atom (.group inner)
  | marked mark hmark stem hstem hend => exact .atom (.marked mark hmark stem hstem hend)
  | unsigned hstart body => exact .atom (.unsigned hstart body)
  | negatedGroup before inner => exact .atom (.negatedGroup before inner)
  | negatedMarked mark hmark stem before hstem hend =>
    exact .atom (.negatedMarked mark hmark stem before hstem hend)
  | negatedValue before hstart body => exact .atom (.negatedValue before hstart body)
  | literal | name | call | callPair => exact absurd rfl (hvalue _)

/-! ## Atoms by their first character -/

theorem Derivation.of_group (d : Derivation .atom ('(' :: text) rest) :
    ∃ inner : Derivation .formula text (')' :: rest), d.tree = .parenthesized inner.tree := by
  obtain ⟨tree, htree, inner, rfl, -⟩ := group_of_derives ⟨d, rfl, Nat.le_refl _⟩
  exact ⟨inner, htree⟩

theorem Derivation.of_mark {mark : Mark} {sign : Char} (hmark : Mark.ofSign? sign = some mark)
    (d : Derivation .atom (sign :: text) rest) :
    ∃ stem, text = stem ++ rest ∧ d.tree = .reference mark stem := by
  have hsign := (sign_of_ofSign? hmark).2
  generalize htext : sign :: text = text' at d
  cases d with
  | marked mark' hmark' stem =>
    obtain ⟨rfl, rfl⟩ := List.cons.inj htext
    obtain rfl := Option.some.inj (hmark.symm.trans hmark')
    exact ⟨stem, rfl, rfl⟩
  | unsigned hstart =>
    obtain ⟨rfl, -⟩ := List.cons.inj htext
    rcases hsign with rfl | rfl <;> exact absurd hstart (by decide)
  | group | negatedGroup | negatedMarked | negatedValue =>
    obtain ⟨rfl, -⟩ := List.cons.inj htext
    rcases hsign with hsign | hsign <;> exact absurd hsign (by decide)

theorem Derivation.of_value {c : Char} (hc : startsNoValue c = false)
    (d : Derivation .atom (c :: text) rest) :
    ∃ body : Derivation (.value false) (c :: text) rest, d.tree = body.tree := by
  generalize htext : c :: text = text' at d
  cases d with
  | unsigned hstart body => exact ⟨body, rfl⟩
  | marked mark hmark =>
    obtain ⟨rfl, -⟩ := List.cons.inj htext
    rcases (sign_of_ofSign? hmark).2 with rfl | rfl <;> exact absurd hc (by decide)
  | group | negatedGroup | negatedMarked | negatedValue =>
    obtain ⟨rfl, -⟩ := List.cons.inj htext
    exact absurd hc (by decide)

/-- What stands behind a minus sign: a group, a mark, or a value. -/
theorem Derivation.of_minus (d : Derivation .atom ('-' :: text) rest) (htext : NoBlanks text) :
    (∃ start, ∃ inner : Derivation .formula start (')' :: rest),
      text = '(' :: start ∧ d.tree = inner.tree.negation) ∨
    (∃ mark sign stem, Mark.ofSign? sign = some mark ∧ text = sign :: (stem ++ rest) ∧
      d.tree = (Formula.reference mark stem).negation) ∨
    ∃ c start, startsNoNegated c = false ∧ text = c :: start ∧
      ∃ body : Derivation (.value true) text rest, d.tree = body.tree := by
  generalize heq : '-' :: text = text' at d
  cases d with
  | negatedGroup before inner =>
    obtain ⟨-, rfl⟩ := List.cons.inj heq
    exact .inl ⟨_, inner, before.eq_of_noBlanks htext, rfl⟩
  | negatedMarked mark hmark stem before =>
    obtain ⟨-, rfl⟩ := List.cons.inj heq
    exact .inr (.inl ⟨mark, _, stem, hmark, before.eq_of_noBlanks htext, rfl⟩)
  | negatedValue before hstart body =>
    obtain ⟨-, rfl⟩ := List.cons.inj heq
    obtain rfl := before.eq_of_noBlanks htext
    exact .inr (.inr ⟨_, _, hstart, rfl, body, rfl⟩)
  | group => simp at heq
  | marked mark hmark =>
    obtain ⟨rfl, -⟩ := List.cons.inj heq
    simp [Mark.ofSign?] at hmark
  | unsigned hstart =>
    obtain ⟨rfl, -⟩ := List.cons.inj heq
    exact absurd hstart (by decide)

theorem Derivation.of_minus_value {c : Char} (hc : startsNoNegated c = false)
    (htext : NoBlanks (c :: text)) (d : Derivation .atom ('-' :: c :: text) rest) :
    ∃ body : Derivation (.value true) (c :: text) rest, d.tree = body.tree := by
  obtain ⟨hgroup, hmark⟩ := startsNoNegated_eq_false_iff.1 hc
  rcases d.of_minus htext with ⟨start, -, heq, -⟩ | ⟨mark, sign, stem, hsign, heq, -⟩ |
    ⟨_, _, -, -, body, hbody⟩
  · exact absurd (List.cons.inj heq).1 hgroup
  · rw [← (List.cons.inj heq).1, hmark] at hsign
    simp at hsign
  · exact ⟨body, hbody⟩

theorem Derivation.of_name {name : List Char} (d : Derivation .atom (name ++ text) rest)
    (hname : Formula.NameToken (Formula.startsNoName false) name) :
    ∃ body : Derivation (.value false) (name ++ text) rest, d.tree = body.tree := by
  obtain ⟨⟨c, token, rfl, -⟩, -, hstart⟩ := hname
  exact d.of_value (hstart c rfl)

theorem Derivation.of_minus_name {name : List Char}
    (d : Derivation .atom ('-' :: (name ++ text)) rest)
    (hname : Formula.NameToken (Formula.startsNoName true) name) (htext : NoBlanks (name ++ text)) :
    ∃ body : Derivation (.value true) (name ++ text) rest, d.tree = body.tree := by
  obtain ⟨⟨c, token, rfl, -⟩, -, hstart⟩ := hname
  exact d.of_minus_value (hstart c rfl) htext

/-! ## Values by what they build -/

/-- The names and calls in a text without blanks, and what they build but for parentheses. -/
inductive Operand (rest : List Char) : List Char → Formula → Prop
  | name (token : List Char) : Operand rest (token ++ rest) (.reference .plain token)
  | minus {start : List Char} (inner : Derivation .formula start (')' :: rest)) :
      Operand rest ('-' :: '(' :: start) inner.tree.strip.minus
  | call {start token : List Char} (htoken : token ≠ minusName)
      (inner : Derivation .formula start (')' :: rest)) :
      Operand rest (token ++ '(' :: start) (.call token inner.tree.strip)
  | callPair {start middle token : List Char} {separator : Char}
      (inner : Derivation .formula start (separator :: middle))
      (inner' : Derivation .formula middle (')' :: rest)) :
      Operand rest (token ++ '(' :: start) (.callPair token inner.tree.strip inner'.tree.strip)

section Values

variable {negative : Bool} (body : Derivation (.value negative) text rest)

/-- A value is a number, or a name or call behind a minus sign or not. -/
theorem Derivation.value_cases (htext : NoBlanks text) :
    (∃ token, text = token ++ rest ∧ IsToken token ∧ AtDelimiter rest ∧
      Numeral.IsNumeral token ∧ body.tree.strip.Literal) ∨
    ∃ operand, Operand rest text operand ∧ body.tree.strip = operand.behind negative := by
  cases body with
  | literal token htoken hend number hnumber =>
    have hliteral := literal_of_token hnumber
    refine .inl ⟨token, rfl, htoken, hend, isNumeral_of_literal? hnumber, ?_⟩
    rw [tree, Formula.strip_of_literal hliteral]
    exact hliteral
  | name token => exact .inr ⟨_, .name token, Formula.strip_signed _ _⟩
  | call token htoken hend hname before inner =>
    obtain rfl := before.eq_of_noBlanks (htext.right rfl)
    by_cases hminus : token = minusName
    · subst hminus
      exact .inr ⟨_, .minus inner, Formula.strip_signed _ _⟩
    · refine .inr ⟨_, .call hminus inner, (Formula.strip_signed _ _).trans ?_⟩
      rw [Formula.strip, if_neg hminus]
  | callPair token htoken hend hname hminus before inner hseparator inner' =>
    obtain rfl := before.eq_of_noBlanks (htext.right rfl)
    exact .inr ⟨_, .callPair inner inner', Formula.strip_signed _ _⟩

theorem Operand.not_operation {operand : Formula} (h : Operand rest text operand) :
    ¬ (operand.behind negative).Operation := by
  cases negative with
  | true => exact operand.minus_not_operation
  | false =>
    cases h with
    | minus inner => exact inner.tree.strip.minus_not_operation
    | _ => exact id

/-- A value that builds a number, and is none, begins with a minus sign and a parenthesis. -/
theorem Operand.of_literal {operand : Formula} (h : Operand rest text operand)
    (hliteral : operand.Literal) : ∃ start, text = '-' :: '(' :: start := by
  cases h with
  | minus inner => exact ⟨_, rfl⟩
  | _ => exact hliteral.elim

theorem Derivation.value_not_operation (htext : NoBlanks text) : ¬ body.tree.strip.Operation := by
  rcases body.value_cases htext with ⟨-, -, -, -, -, hliteral⟩ | ⟨operand, hoperand, hstrip⟩
  · exact hliteral.not_operation
  · rw [hstrip]
    exact hoperand.not_operation

theorem Derivation.value_name {name rest' : List Char} (htext : NoBlanks text)
    (heq : text = name ++ rest')
    (h : body.tree.strip = (Formula.reference .plain name).behind negative) : rest = rest' := by
  rcases body.value_cases htext with ⟨-, -, -, -, -, hliteral⟩ | ⟨operand, hoperand, hstrip⟩
  · rw [h] at hliteral
    cases negative <;> exact hliteral.elim
  · have hname := Formula.behind_inj (hstrip.symm.trans h)
    cases hoperand with
    | name token =>
      obtain ⟨-, rfl⟩ := Formula.reference.inj hname
      exact List.append_cancel_left heq
    | minus inner => exact absurd hname (Formula.minus_ne_reference _ _ _)
    | call | callPair => simp at hname

theorem Derivation.value_call {function start : List Char} {argument : Formula}
    (hfunction : function ≠ minusName) (htext : NoBlanks text)
    (heq : text = function ++ '(' :: start)
    (h : body.tree.strip = (Formula.call function argument).behind negative) :
    ∃ inner : Derivation .formula start (')' :: rest), inner.tree.strip = argument := by
  rcases body.value_cases htext with ⟨-, -, -, -, -, hliteral⟩ | ⟨operand, hoperand, hstrip⟩
  · rw [h] at hliteral
    cases negative <;> exact hliteral.elim
  · have hcall := Formula.behind_inj (hstrip.symm.trans h)
    cases hoperand with
    | minus inner => exact absurd hcall (Formula.minus_ne_call _ hfunction _)
    | call htoken inner =>
      obtain ⟨rfl, hargument⟩ := Formula.call.inj hcall
      obtain ⟨-, rfl⟩ := List.cons.inj (List.append_cancel_left heq)
      exact ⟨inner, hargument⟩
    | name | callPair => simp at hcall

theorem Derivation.value_callPair {function start : List Char} {first second : Formula}
    (htext : NoBlanks text) (heq : text = function ++ '(' :: start)
    (h : body.tree.strip = (Formula.callPair function first second).behind negative) :
    ∃ separator middle, ∃ inner : Derivation .formula start (separator :: middle),
      ∃ inner' : Derivation .formula middle (')' :: rest),
        inner.tree.strip = first ∧ inner'.tree.strip = second := by
  rcases body.value_cases htext with ⟨-, -, -, -, -, hliteral⟩ | ⟨operand, hoperand, hstrip⟩
  · rw [h] at hliteral
    cases negative <;> exact hliteral.elim
  · have hpair := Formula.behind_inj (hstrip.symm.trans h)
    cases hoperand with
    | minus inner => exact absurd hpair (Formula.minus_ne_callPair _ _ _ _)
    | callPair inner inner' =>
      obtain ⟨rfl, hfirst, hsecond⟩ := Formula.callPair.inj hpair
      obtain ⟨-, rfl⟩ := List.cons.inj (List.append_cancel_left heq)
      exact ⟨_, _, inner, inner', hfirst, hsecond⟩
    | name | call => simp at hpair

end Values

/-- A value behind a minus sign that begins with another one is a number or a group. -/
theorem Derivation.minus_value_cases {operand : Formula}
    (body : Derivation (.value true) ('-' :: text) rest) (htext : NoBlanks text)
    (h : body.tree.strip = operand.minus.minus) :
    (operand.Literal ∧ ∃ token, '-' :: text = token ++ rest ∧ IsToken token ∧ AtDelimiter rest ∧
      Numeral.IsNumeral token) ∨
    ∃ start, ∃ inner : Derivation .formula start (')' :: rest),
      text = '(' :: start ∧ inner.tree.strip = operand := by
  rcases body.value_cases (noBlanks_cons.2 ⟨rfl, htext⟩) with
    ⟨token, heq, htoken, hend, hnumeral, hliteral⟩ | ⟨operand', hoperand, hstrip⟩
  · rw [h] at hliteral
    exact .inl ⟨hliteral.of_minus_minus, token, heq, htoken, hend, hnumeral⟩
  · have hminus : operand' = operand.minus := Formula.minus_inj (hstrip.symm.trans h)
    generalize heq : '-' :: text = text' at hoperand
    cases hoperand with
    | name token => exact absurd hminus.symm (Formula.minus_ne_reference _ _ _)
    | minus inner => exact .inr ⟨_, inner, (List.cons.inj heq).2, Formula.minus_inj hminus⟩
    | call htoken inner => exact absurd hminus.symm (Formula.minus_ne_call _ htoken _)
    | callPair => exact absurd hminus.symm (Formula.minus_ne_callPair _ _ _ _)

/-- Before a delimiter the second minus sign is a token by itself. -/
theorem Derivation.minus_value_group {operand : Formula}
    (body : Derivation (.value true) ('-' :: text) rest) (htext : NoBlanks text)
    (h : body.tree.strip = operand.minus.minus) (hdelimiter : operand.Literal → AtDelimiter text) :
    ∃ start, ∃ inner : Derivation .formula start (')' :: rest),
      text = '(' :: start ∧ inner.tree.strip = operand := by
  refine (body.minus_value_cases htext h).resolve_left ?_
  rintro ⟨hliteral, token, heq, htoken, hend, hnumeral⟩
  have hminus : IsToken minusName := ⟨'-', [], rfl, rfl, by simp⟩
  obtain ⟨rfl, -⟩ := htoken.unique hminus hend (hdelimiter hliteral) heq.symm
  exact Numeral.ofToken?_eq_none_iff.1 rfl hnumeral

theorem Derivation.minus_not_operation (d : Derivation .atom ('-' :: text) rest)
    (htext : NoBlanks text) : ¬ d.tree.strip.Operation := by
  rcases d.of_minus htext with ⟨start, inner, -, htree⟩ | ⟨mark, sign, stem, -, -, htree⟩ |
    ⟨_, _, -, -, body, htree⟩
  · rw [htree]
    exact inner.tree.strip.minus_not_operation
  · rw [htree]
    exact id
  · rw [htree]
    exact body.value_not_operation htext

end Grammar

end Drafting
