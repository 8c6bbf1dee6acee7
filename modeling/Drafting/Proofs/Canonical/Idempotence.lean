import Drafting.Proofs.Canonical.Text
import Drafting.Proofs.Grammar.Acceptance
import Drafting.Rendering.OfText

/-!
# When normalising changes nothing

A text is its own normal form exactly when a derivation of the whole text is written as the canonical
text writes it: without blanks, without parentheses behind a minus sign, with commas between
arguments, and with every number as numbers are written. Normalising twice is therefore not the same
as normalising once: a canonical text may hold parentheses behind a minus sign, or two minus signs
before a number, and loses them when it is normalised again.

## Main definitions

* `Derivation.Tight` — a derivation of a text written as canonical text.
* `Derivation.Lossless` — a derivation without parentheses behind a minus sign.

Main statements: `normalize_eq_self_iff` and `normalize_normalize_iff`.
-/

namespace Drafting

open Grammar Rendering

namespace Grammar

/-- What stands in front of a text of the category and belongs to its tree. -/
def Category.lead : Category → List Char
  | value true => ['-']
  | _ => []

namespace Derivation

/-- The text is written as the canonical text of its tree. -/
def Tight {category : Category} {text rest : List Char} : Derivation category text rest → Prop
  | @plain text start finish rest _ body _ => text = start ∧ finish = rest ∧ body.Tight
  | @conditional text start finish onTrue _ _ _ condition _ whenTrue whenFalse =>
    text = start ∧ finish = '?' :: onTrue ∧ condition.Tight ∧ whenTrue.Tight ∧ whenFalse.Tight
  | operand body => body.Tight
  | @join _ _ finish sign spelt start _ _ _ left _ _ _ right =>
    finish = sign ∧ spelt = start ∧ left.Tight ∧ right.Tight
  | group inner => inner.Tight
  | marked .. => True
  | unsigned _ body => body.Tight
  | negatedGroup .. => False
  | @negatedMarked text sign rest _ _ stem _ _ _ => text = sign :: (stem ++ rest)
  | @negatedValue text c start _ _ _ body => text = c :: start ∧ body.Tight
  | @literal negative _ token _ _ number _ =>
    (Category.value negative).lead ++ token = canonical number
  | name .. => True
  | @call _ after start _ token _ _ _ _ argument =>
    token ≠ minusName ∧ after = '(' :: start ∧ argument.Tight
  | @callPair _ after start separator _ _ _ _ _ _ _ _ first _ second =>
    after = '(' :: start ∧ separator = ',' ∧ first.Tight ∧ second.Tight

/-- No parentheses stand behind a minus sign. -/
def Lossless {category : Category} {text rest : List Char} : Derivation category text rest → Prop
  | plain _ body _ => body.Lossless
  | conditional _ condition _ whenTrue whenFalse =>
    condition.Lossless ∧ whenTrue.Lossless ∧ whenFalse.Lossless
  | operand body => body.Lossless
  | join _ _ left _ _ _ right => left.Lossless ∧ right.Lossless
  | group inner => inner.Lossless
  | unsigned _ body => body.Lossless
  | negatedGroup .. => False
  | negatedValue _ _ body => body.Lossless
  | marked .. | negatedMarked .. | literal .. | name .. => True
  | call token _ _ _ _ argument => token ≠ minusName ∧ argument.Lossless
  | callPair _ _ _ _ _ _ first _ second => first.Lossless ∧ second.Lossless

end Derivation

variable {category : Category} {text rest : List Char}

theorem canonical_signed_append (negative : Bool) (operand : Formula) :
    canonical (signed negative operand) ++ rest =
      (Category.value negative).lead ++ (canonical operand ++ rest) := by
  cases negative <;> rfl

theorem Tier.lead_operand_append (tier : Tier) (text : List Char) :
    tier.operand.lead ++ text = text := by
  cases tier <;> rfl

theorem canonical_marked {mark : Mark} {sign : Char} (h : Mark.ofSign? sign = some mark)
    (stem : List Char) : canonical (.reference mark stem) = sign :: stem := by
  rw [canonical_reference, (sign_of_ofSign? h).1, List.singleton_append]

/-- A text that is written as canonical text is the canonical text of its tree. -/
theorem Derivation.Tight.lead_append {d : Derivation category text rest} (h : d.Tight) :
    category.lead ++ text = canonical d.tree ++ rest := by
  induction d with
  | plain before body after ih =>
    obtain ⟨rfl, rfl, hbody⟩ := h
    exact ih hbody
  | conditional before condition after whenTrue whenFalse ih ih₁ ih₂ =>
    obtain ⟨rfl, rfl, hcondition, htrue, hfalse⟩ := h
    have htail := congrArg (canonical condition.tree ++ '?' :: ·) (ih₁ htrue)
    have htail' := congrArg (canonical whenTrue.tree ++ ':' :: ·) (ih₂ hfalse)
    rw [tree, canonical_conditional_append]
    exact (ih hcondition).trans (htail.trans (congrArg _ (congrArg _ htail')))
  | operand body ih => exact (Tier.lead_operand_append _ _).symm.trans (ih h)
  | join op htier left before spells after right ih ih' =>
    obtain ⟨rfl, rfl, hleft, hright⟩ := h
    have hspelt := (Tier.lead_operand_append _ _).symm.trans (ih' hright)
    rw [tree, canonical_binary_append]
    exact (ih hleft).trans (congrArg _ (spells.1.trans (congrArg _ hspelt)))
  | group inner ih =>
    rw [tree, canonical_parenthesized_append]
    exact congrArg ('(' :: ·) (ih h)
  | marked mark hmark stem hstem hend =>
    rw [tree, canonical_marked hmark]
    rfl
  | unsigned hstart body ih => exact ih h
  | negatedGroup before inner ih => exact h.elim
  | negatedMarked mark hmark stem before hstem hend =>
    rw [tree, canonical_negation, canonical_marked hmark]
    exact congrArg ('-' :: ·) h
  | negatedValue before hstart body ih =>
    obtain ⟨rfl, hbody⟩ := h
    exact ih hbody
  | literal token htoken hend number hnumber =>
    rw [← List.append_assoc]
    exact congrArg (· ++ _) h
  | name token htoken hend hname =>
    rw [tree, canonical_signed_append]
    rfl
  | call token htoken hend hname before argument ih =>
    obtain ⟨hminus, rfl, hargument⟩ := h
    rw [tree, canonical_signed_append, canonical_call_append hminus]
    exact congrArg _ (congrArg _ (congrArg _ (ih hargument)))
  | callPair token htoken hend hname hminus before first hseparator second ih ih' =>
    obtain ⟨rfl, rfl, hfirst, hsecond⟩ := h
    rw [tree, canonical_signed_append, canonical_callPair_append hminus]
    have htail := congrArg (canonical first.tree ++ ',' :: ·) (ih' hsecond)
    exact congrArg _ (congrArg _ (congrArg _ ((ih hfirst).trans htail)))

/-! ## No blanks -/

@[simp] theorem noBlanks_symbol (op : Operator) : NoBlanks op.symbol := by
  cases op <;> simp [Operator.symbol] <;> decide

/-- Canonical text has no blanks. -/
theorem Derivation.noBlanks (d : Derivation category text rest) : NoBlanks (canonical d.tree) := by
  have hsigned {negative : Bool} {operand : Formula} (h : NoBlanks (canonical operand)) :
      NoBlanks (canonical (signed negative operand)) := by
    cases negative with
    | false => exact h
    | true => exact noBlanks_cons.2 ⟨rfl, h⟩
  have hmarked {mark : Mark} {sign : Char} {stem : List Char} (h : Mark.ofSign? sign = some mark)
      (hstem : IsToken stem) : NoBlanks (canonical (.reference mark stem)) := by
    rw [canonical_marked h]
    exact noBlanks_cons.2 ⟨not_blank_of_ofSign? h, hstem.noBlanks⟩
  induction d with
  | plain _ body _ ih => exact ih
  | conditional _ condition _ whenTrue whenFalse ih ih₁ ih₂ =>
    simp only [tree, canonical_conditional, noBlanks_append, noBlanks_cons]
    exact ⟨ih, rfl, ih₁, rfl, ih₂⟩
  | operand body ih => exact ih
  | join op _ left _ _ _ right ih ih' => simp [tree, canonical_binary, ih, ih']
  | group inner ih =>
    simp only [tree, canonical_parenthesized, noBlanks_append, noBlanks_cons]
    exact ⟨rfl, ih, rfl, noBlanks_nil⟩
  | marked mark hmark stem hstem => exact hmarked hmark hstem
  | unsigned _ body ih => exact ih
  | negatedGroup _ inner ih => exact noBlanks_cons.2 ⟨rfl, ih⟩
  | negatedMarked mark hmark stem _ hstem => exact noBlanks_cons.2 ⟨rfl, hmarked hmark hstem⟩
  | negatedValue _ _ body ih => exact ih
  | literal token _ _ number hnumber =>
    intro c hc
    rcases cases_mem_canonical (literal_of_token hnumber) hc with rfl | hc
    · rfl
    · exact isBlank_of_not_delimiter hc
  | name token htoken => exact hsigned htoken.noBlanks
  | call token htoken _ _ _ argument ih =>
    refine hsigned ?_
    by_cases hminus : token = minusName
    · subst hminus
      exact noBlanks_cons.2 ⟨rfl, ih⟩
    · simp only [canonical_call hminus, noBlanks_append, noBlanks_cons]
      exact ⟨htoken.noBlanks, rfl, ih, rfl, noBlanks_nil⟩
  | callPair token htoken _ _ hminus _ first _ second ih ih' =>
    refine hsigned ?_
    simp only [canonical_callPair hminus, noBlanks_append, noBlanks_cons]
    exact ⟨htoken.noBlanks, rfl, ih, rfl, ih', rfl, noBlanks_nil⟩

/-! ## No parentheses are lost -/

/-- How many parentheses a text opens. -/
def opens (text : List Char) : Nat := text.count '('

@[simp] theorem opens_nil : opens [] = 0 := rfl

theorem opens_cons (c : Char) (text : List Char) :
    opens (c :: text) = opens text + if c = '(' then 1 else 0 := by
  by_cases h : c = '(' <;> simp [opens, h]

@[simp] theorem opens_append (text text' : List Char) :
    opens (text ++ text') = opens text + opens text' := List.count_append

theorem Skips.opens_eq (h : Skips text rest) : opens text = opens rest := by
  obtain ⟨gap, hgap, rfl⟩ := h
  have hnone : opens gap = 0 := List.count_eq_zero.2 fun hmem => absurd (hgap _ hmem) (by decide)
  rw [opens_append, hnone, Nat.zero_add]

@[simp] theorem opens_symbol (op : Operator) : opens op.symbol = 0 := by cases op <;> rfl

theorem opens_literal {literal : Formula} (h : literal.Literal) : opens (canonical literal) = 0 := by
  refine List.count_eq_zero.2 fun hmem => ?_
  rcases cases_mem_canonical h hmem with hc | hc
  · exact absurd hc (by decide)
  · exact absurd hc (by decide)

theorem opens_signed (negative : Bool) (operand : Formula) :
    opens (canonical (signed negative operand)) = opens (canonical operand) := by
  cases negative with
  | false => rfl
  | true => exact opens_cons '-' _

/-- The canonical text opens no more parentheses than the derived text, and as many only if none
are lost behind a minus sign. -/
theorem Derivation.opens_le (d : Derivation category text rest) :
    opens (canonical d.tree) + opens rest ≤ opens text ∧
      (opens (canonical d.tree) + opens rest = opens text → d.Lossless) := by
  induction d with
  | plain before body after ih =>
    rw [before.opens_eq, ← after.opens_eq]
    exact ih
  | conditional before condition after whenTrue whenFalse ih ih₁ ih₂ =>
    have hbefore := before.opens_eq
    have hafter := after.opens_eq
    simp only [tree, canonical_conditional, opens_append, opens_cons, Char.reduceEq, if_false]
      at hafter ih₁ ⊢
    exact ⟨by omega, fun h => ⟨ih.2 (by omega), ih₁.2 (by omega), ih₂.2 (by omega)⟩⟩
  | operand body ih => exact ih
  | join op htier left before spells after right ih ih' =>
    have hbefore := before.opens_eq
    have hspells := congrArg opens spells.1
    have hafter := after.opens_eq
    simp only [tree, canonical_binary, opens_append, opens_symbol] at hspells ⊢
    exact ⟨by omega, fun h => ⟨ih.2 (by omega), ih'.2 (by omega)⟩⟩
  | group inner ih =>
    simp only [tree, canonical_parenthesized, opens_append, opens_cons, opens_nil, Char.reduceEq,
      if_true, if_false] at ih ⊢
    exact ⟨by omega, fun h => ih.2 (by omega)⟩
  | marked mark hmark stem hstem =>
    rw [tree, canonical_marked hmark, opens_cons, opens_cons, opens_append]
    exact ⟨by omega, fun _ => trivial⟩
  | unsigned hstart body ih => exact ih
  | negatedGroup before inner ih =>
    have hbefore := before.opens_eq
    simp only [tree, canonical_negation, opens_cons, Char.reduceEq, if_true, if_false]
      at hbefore ih ⊢
    exact ⟨by omega, fun h => by omega⟩
  | negatedMarked mark hmark stem before hstem =>
    have hbefore := before.opens_eq
    rw [opens_cons, opens_append] at hbefore
    rw [tree, canonical_negation, canonical_marked hmark, opens_cons, opens_cons, opens_cons]
    exact ⟨by omega, fun _ => trivial⟩
  | negatedValue before hstart body ih =>
    have hbefore := before.opens_eq
    simp only [tree, opens_cons, Char.reduceEq, if_false] at ih hbefore ⊢
    exact ⟨by omega, fun h => ih.2 (by omega)⟩
  | literal token htoken hend number hnumber =>
    rw [tree, opens_literal (literal_of_token hnumber), opens_append]
    exact ⟨by omega, fun _ => trivial⟩
  | name token htoken =>
    rw [tree, opens_signed, canonical_reference, opens_append, opens_append]
    exact ⟨Nat.le_of_eq (by rw [Mark.sign, opens_nil, Nat.zero_add]), fun _ => trivial⟩
  | call token htoken _ _ before argument ih =>
    have hbefore := before.opens_eq
    rw [tree, opens_signed]
    by_cases hminus : token = minusName
    · subst hminus
      rw [← Formula.negation, canonical_negation]
      simp only [minusName, opens_append, opens_cons, opens_nil, Char.reduceEq, if_true, if_false]
        at hbefore ih ⊢
      exact ⟨by omega, fun h => by omega⟩
    · simp only [canonical_call hminus, opens_append, opens_cons, opens_nil, Char.reduceEq, if_true,
        if_false] at hbefore ih ⊢
      exact ⟨by omega, fun h => ⟨hminus, ih.2 (by omega)⟩⟩
  | @callPair _ _ _ separator middle _ token htoken _ _ hminus before first hseparator second ih
      ih' =>
    have hbefore := before.opens_eq
    have hmiddle : opens (separator :: middle) = opens middle := by
      rcases hseparator with rfl | rfl <;> exact opens_cons _ _
    rw [tree, opens_signed]
    simp only [canonical_callPair hminus, opens_append, opens_cons, opens_nil, Char.reduceEq, if_true,
      if_false] at hmiddle hbefore ih ih' ⊢
    exact ⟨by omega, fun h => ⟨ih.2 (by omega), ih'.2 (by omega)⟩⟩

/-! ## Where the canonical text ends -/

/-- What may follow a number in canonical text: the end, a delimiter, or one of `==` and `!=`. -/
def EndsNumber (text : List Char) : Prop :=
  ∀ c ∈ text.head?, isDelimiter c = true ∨ c = '=' ∨ c = '!'

theorem endsNumber_nil : EndsNumber [] := by simp [EndsNumber]

theorem endsNumber_cons {c : Char} (h : isDelimiter c = true) (text : List Char) :
    EndsNumber (c :: text) := by
  rintro d ⟨⟩
  exact .inl h

theorem endsNumber_symbol (op : Operator) (text : List Char) : EndsNumber (op.symbol ++ text) := by
  cases op with
  | equal | notEqual => rintro c ⟨⟩; simp
  | _ => exact endsNumber_cons rfl _

/-- A number at the front of a text goes up to where it may end. -/
theorem IsToken.unique_of_numeral {token number rest' : List Char} (h : IsToken token)
    (hend : AtDelimiter rest) (hnumeral : Numeral.IsNumeral token) (h' : IsToken number)
    (hend' : EndsNumber rest') (heq : token ++ rest = number ++ rest') :
    token = number ∧ rest = rest' := by
  refine h.unique h' hend (fun c hc => ?_) heq
  refine (hend' c hc).resolve_right fun hsign => ?_
  -- otherwise the token goes on with a sign that no number holds
  obtain ⟨tail, rfl⟩ : ∃ tail, rest' = c :: tail := by
    cases rest' with
    | nil => simp at hc
    | cons d tail => exact ⟨tail, by rw [Option.some.inj hc]⟩
  obtain ⟨d, body, rfl, hd, hbody⟩ := h'
  have hlonger : IsToken (d :: (body ++ c :: tail.takeWhile (!isDelimiter ·))) := by
    refine ⟨d, _, rfl, hd, fun e he => ?_⟩
    rcases List.mem_append.1 he with he | he
    · exact hbody e he
    · rcases List.mem_cons.1 he with rfl | he
      · rcases hsign with rfl | rfl <;> rfl
      · simpa using List.mem_takeWhile_imp he
  have htoken := (h.unique hlonger hend (atDelimiter_dropWhile tail) (heq.trans (by simp))).1
  have hmem : c ∈ token := by simp [htoken]
  rcases hnumeral.mem hmem with hdigit | hmem
  · rcases hsign with rfl | rfl <;> exact absurd hdigit (by decide)
  · rcases hsign with rfl | rfl <;> exact absurd hmem (by decide)

theorem tight_literal {negative : Bool} {token rest' : List Char} {number : Formula}
    (htoken : IsToken token) (hend : AtDelimiter rest)
    (hnumber : literal? negative token = .ok (some number)) (hend' : EndsNumber rest')
    (h : (Category.value negative).lead ++ (token ++ rest) = canonical number ++ rest') :
    (Category.value negative).lead ++ token = canonical number ∧ rest = rest' := by
  have hliteral := literal_of_token hnumber
  have hnumeral := isNumeral_of_literal? hnumber
  cases negative with
  | false => exact htoken.unique_of_numeral hend hnumeral (isToken_literal hliteral) hend' h
  | true =>
    by_cases hunsigned : number.Unsigned
    · obtain ⟨c, body, htext, hc, -⟩ := exists_digits hliteral hunsigned
      rw [htext] at h
      obtain ⟨rfl, -⟩ := List.cons.inj h
      exact absurd hc (by decide)
    · obtain ⟨htext, hopposite, hunsigned', -⟩ := canonical_of_signed hliteral hunsigned
      rw [htext] at h ⊢
      obtain ⟨htoken', hrest⟩ := htoken.unique_of_numeral hend hnumeral
        (isToken_unsigned hopposite hunsigned') hend' (List.cons.inj h).2
      exact ⟨congrArg ('-' :: ·) htoken', hrest⟩

/-- A derivation that loses no parentheses, of a text that starts with the canonical text of the
tree, goes up to where the canonical text ends, and the text is written as canonical text. -/
theorem Derivation.tight_of_lead_append {rest' : List Char} (d : Derivation category text rest)
    (hlossless : d.Lossless) (htext : NoBlanks text) (hend : EndsNumber rest')
    (h : category.lead ++ text = canonical d.tree ++ rest') : rest = rest' ∧ d.Tight := by
  induction d generalizing rest' with
  | plain before body after ih =>
    have hrest := htext.right h
    obtain rfl := before.eq_of_noBlanks htext
    obtain ⟨rfl, hbody⟩ := ih hlossless htext hend h
    obtain rfl := after.eq_of_noBlanks hrest
    exact ⟨rfl, rfl, rfl, hbody⟩
  | conditional before condition after whenTrue whenFalse ih ih₁ ih₂ =>
    obtain ⟨hcondition, htrue, hfalse⟩ := hlossless
    rw [tree, canonical_conditional_append] at h
    have hfinish := htext.right h
    obtain rfl := before.eq_of_noBlanks htext
    obtain ⟨rfl, htight⟩ := ih hcondition htext (endsNumber_cons rfl _) h
    have hskip := after.eq_of_noBlanks hfinish
    have honTrue := (after.noBlanks hfinish).tail
    have heq := (List.cons.inj hskip).2.symm
    obtain ⟨hmiddle, htight₁⟩ := ih₁ htrue honTrue (endsNumber_cons rfl _) heq
    have honFalse := hmiddle.symm ▸ honTrue.right heq
    obtain ⟨rfl, htight₂⟩ := ih₂ hfalse honFalse.tail hend (List.cons.inj hmiddle).2
    exact ⟨rfl, rfl, hskip, htight, htight₁, htight₂⟩
  | operand body ih =>
    exact ih hlossless htext hend ((Tier.lead_operand_append _ _).trans h)
  | @join tier _ _ _ _ start _ op htier left before spells after right ih ih' =>
    obtain ⟨hleft, hright⟩ := hlossless
    rw [tree, canonical_binary_append] at h
    have hsign := htext.right h
    obtain ⟨rfl, htight⟩ := ih hleft htext (endsNumber_symbol _ _) h
    obtain rfl := before.eq_of_noBlanks hsign
    have hspelt := hsign.right spells.1
    have hskip := after.eq_of_noBlanks hspelt
    have heq := hskip.symm.trans (List.append_cancel_left spells.1).symm
    obtain ⟨rfl, htight'⟩ := ih' hright (after.noBlanks hspelt) hend
      ((tier.lead_operand_append start).trans heq)
    exact ⟨rfl, rfl, hskip, htight, htight'⟩
  | group inner ih =>
    rw [tree, canonical_parenthesized_append] at h
    obtain ⟨hrest, htight⟩ := ih hlossless htext.tail (endsNumber_cons rfl _) (List.cons.inj h).2
    exact ⟨(List.cons.inj hrest).2, htight⟩
  | marked mark hmark stem hstem hend' =>
    rw [tree, canonical_marked hmark] at h
    exact ⟨List.append_cancel_left (List.cons.inj h).2, trivial⟩
  | unsigned hstart body ih => exact ih hlossless htext hend h
  | negatedGroup before inner ih => exact hlossless.elim
  | negatedMarked mark hmark stem before hstem hend' =>
    rw [tree, canonical_negation, canonical_marked hmark] at h
    have hbefore := before.eq_of_noBlanks htext.tail
    have hrest := (List.cons.inj h).2.symm.trans hbefore
    exact ⟨(List.append_cancel_left (List.cons.inj hrest).2).symm, hbefore⟩
  | negatedValue before hstart body ih =>
    obtain rfl := before.eq_of_noBlanks htext.tail
    obtain ⟨rfl, htight⟩ := ih hlossless htext.tail hend h
    exact ⟨rfl, rfl, htight⟩
  | literal token htoken hend' number hnumber =>
    obtain ⟨htoken', hrest⟩ := tight_literal htoken hend' hnumber hend h
    exact ⟨hrest, htoken'⟩
  | name token htoken =>
    rw [tree, canonical_signed_append] at h
    exact ⟨List.append_cancel_left (List.append_cancel_left h), trivial⟩
  | call token htoken hend' hname before argument ih =>
    obtain ⟨hminus, hargument⟩ := hlossless
    rw [tree, canonical_signed_append, canonical_call_append hminus] at h
    have hafter := htext.right rfl
    have hskip := before.eq_of_noBlanks hafter
    have heq := hskip.symm.trans (List.append_cancel_left (List.append_cancel_left h))
    obtain ⟨hrest, htight⟩ := ih hargument (before.noBlanks hafter).tail (endsNumber_cons rfl _)
      (List.cons.inj heq).2
    exact ⟨(List.cons.inj hrest).2, hminus, hskip, htight⟩
  | callPair token htoken hend' hname hminus before first hseparator second ih ih' =>
    obtain ⟨hfirst, hsecond⟩ := hlossless
    rw [tree, canonical_signed_append, canonical_callPair_append hminus] at h
    have hafter := htext.right rfl
    have hskip := before.eq_of_noBlanks hafter
    have heq := hskip.symm.trans (List.append_cancel_left (List.append_cancel_left h))
    have hstart := (before.noBlanks hafter).tail
    obtain ⟨hcomma, htight⟩ := ih hfirst hstart (endsNumber_cons rfl _) (List.cons.inj heq).2
    have hmiddle := hcomma.symm ▸ hstart.right (List.cons.inj heq).2
    obtain ⟨rfl, hsecond'⟩ := List.cons.inj hcomma
    obtain ⟨hrest, htight'⟩ := ih' hsecond hmiddle.tail (endsNumber_cons rfl _) hsecond'
    exact ⟨(List.cons.inj hrest).2, hskip, rfl, htight, htight'⟩

end Grammar

/-! ## Normalising twice -/

variable {options : Options} {text canonicalText : List Char}

theorem normalize_eq_ok_iff :
    normalize options text = .ok canonicalText ↔
      ∃ tree, Formula.parse options text = .ok tree ∧ canonical tree = canonicalText := by
  rw [normalize]
  cases Formula.parse options text with
  | error failure => simp [Except.map]
  | ok tree => simp [Except.map]

/-- The texts that normalising leaves as they are: those that are written as canonical text. -/
theorem normalize_eq_self_iff :
    normalize options text = .ok text ↔
      ∃ d : Derivation .formula text [], d.Tight ∧ (d.depth : Int) ≤ options.limit := by
  rw [normalize_eq_ok_iff]
  constructor
  · rintro ⟨tree, hparse, htext⟩
    obtain ⟨rest, d, rfl, hdepth, -⟩ := exists_derivation_of_parse hparse
    have hnoBlanks : NoBlanks text := htext ▸ d.noBlanks
    obtain ⟨hopens, hlossless⟩ := d.opens_le
    rw [htext] at hopens hlossless
    have heq : text = canonical d.tree ++ [] := by rw [List.append_nil, htext]
    obtain ⟨rfl, htight⟩ :=
      d.tight_of_lead_append (hlossless (by omega)) hnoBlanks endsNumber_nil heq
    exact ⟨d, htight, hdepth⟩
  · rintro ⟨d, htight, hdepth⟩
    have heq : text = canonical d.tree ++ [] := htight.lead_append
    rw [List.append_nil] at heq
    exact ⟨d.tree, parse_of_derivation d hdepth, heq.symm⟩

/-- Normalising twice is normalising once exactly where the canonical text, if there is one, is
derived as it is written, within the limit. -/
theorem normalize_normalize_iff (options : Options) (text : List Char) :
    (normalize options text >>= normalize options) = normalize options text ↔
      ∀ canonicalText, normalize options text = .ok canonicalText →
        ∃ d : Derivation .formula canonicalText [], d.Tight ∧ (d.depth : Int) ≤ options.limit := by
  cases h : normalize options text with
  | error failure => simp [bind, Except.bind]
  | ok canonicalText =>
    simp only [← normalize_eq_self_iff]
    constructor
    · rintro heq _ ⟨⟩
      exact heq
    · intro heq
      exact heq canonicalText rfl

/-- `-((a))` is written `-(a)`, and `-(a)` is written `-a`. -/
theorem normalize_normalize_negated_group :
    (normalize {} ['-', '(', '(', 'a', ')', ')'] >>= normalize {}) ≠
      normalize {} ['-', '(', '(', 'a', ')', ')'] := by
  have hgroups : normalize {} ['-', '(', '(', 'a', ')', ')'] = .ok ['-', '(', 'a', ')'] := rfl
  have hgroup : normalize {} ['-', '(', 'a', ')'] = .ok ['-', 'a'] := rfl
  rw [hgroups]
  change normalize {} ['-', '(', 'a', ')'] ≠ _
  rw [hgroup]
  simp

end Drafting
