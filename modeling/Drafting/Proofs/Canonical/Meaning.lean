import Drafting.Proofs.Canonical.Spine

/-!
# When canonical text keeps the meaning

Canonical text keeps the meaning of the formulas whose signs stand apart, and of no others: a reading
of canonical text that builds the same formula, but for parentheses and minus signs before numbers,
goes through the text in step with the formula. Both are followed from left to right. A reading of
an operand may have taken in more or less of the text than the operand, which shows in what comes next:
an operator goes on where a closing parenthesis ends.

## Main definitions

* `GoesOn` — the texts that do not close a parenthesis next.
* `Formula.InStep` — a formula and a derivation that have got equally far.
* `Formula.Legible` — the formulas that all derivations of their text are in step with.

Main statements: `Formula.legible` and `parse_canonical_strip_iff`.
-/

namespace Drafting

open Grammar Rendering

/-! ## In step -/

namespace Grammar

/-- The text goes on, and not with a closing parenthesis. -/
def GoesOn (text : List Char) : Prop := ∃ c ∈ text.head?, c ≠ ')'

theorem goesOn_cons {c : Char} (h : c ≠ ')') (text : List Char) : GoesOn (c :: text) := ⟨c, rfl, h⟩

theorem not_goesOn_close (text : List Char) : ¬ GoesOn (')' :: text) := by
  rintro ⟨c, ⟨⟩, h⟩
  exact h rfl

theorem goesOn_symbol (op : Operator) (text : List Char) : GoesOn (op.symbol ++ text) := by
  cases op <;> exact goesOn_cons (by decide) _

end Grammar

namespace Formula

/-- A formula and what has been derived of a text that begins with it: `rest'` follows the formula in
the text, `rest` was left, and `tree` was built. -/
structure InStep (formula : Formula) (rest' rest : List Char) (tree : Formula) : Prop where
  same : tree.strip = formula.strip → rest = rest' ∧ formula.Apart
  within : formula.strip.Heads tree.strip → GoesOn rest'
  beyond : tree.strip.Heads formula.strip → GoesOn rest ∧ formula.Operation

namespace InStep

variable {formula tree right : Formula} {rest rest' finish spelt : List Char}

/-- What has neither a left end in common is in step if equal formulas are. -/
theorem of_not_operation (hformula : ¬ formula.strip.Operation) (htree : ¬ tree.strip.Operation)
    (hsame : tree.strip = formula.strip → rest = rest' ∧ formula.Apart) :
    formula.InStep rest' rest tree :=
  ⟨hsame, fun h => absurd h.operation htree, fun h => absurd h.operation hformula⟩

theorem within_join {op : Operator} (h : formula.InStep rest' finish tree)
    (spells : Spells op finish spelt)
    (hheads : formula.strip.Heads (binary tree op right).strip) : GoesOn rest' := by
  rcases hheads with hsame | hheads
  · rw [← (h.same hsame).1, spells.1]
    exact goesOn_symbol _ _
  · exact h.within hheads

theorem within_conditional {whenTrue whenFalse : Formula} {onTrue : List Char}
    (h : formula.InStep rest' ('?' :: onTrue) tree)
    (hheads : formula.strip.Heads (conditional tree whenTrue whenFalse).strip) : GoesOn rest' := by
  rcases hheads with hsame | hheads
  · rw [← (h.same hsame).1]
    exact goesOn_cons (by decide) _
  · exact h.within hheads

/-- A formula that is no operation is in step with every derivation if it is with atoms. -/
theorem of_atoms {text : List Char} (hformula : ¬ formula.Operation)
    (hatom : ∀ {rest} (d : Derivation .atom text rest), formula.InStep rest' rest d.tree)
    (h : Spine text rest tree) : formula.InStep rest' rest tree := by
  induction h with
  | atom d => exact hatom d
  | @join tree _ _ _ op left spells right ih =>
    have hhead := heads_binary tree.strip op right.tree.strip
    refine ⟨fun hsame => ?_, ih.within_join spells, fun hheads => ?_⟩
    · exact absurd (ih.beyond (hsame ▸ hhead)).2 hformula
    · exact absurd (ih.beyond (hhead.trans hheads)).2 hformula
  | @conditional tree _ _ _ condition whenTrue whenFalse ih =>
    have hhead := heads_conditional tree.strip whenTrue.tree.strip whenFalse.tree.strip
    refine ⟨fun hsame => ?_, ih.within_conditional, fun hheads => ?_⟩
    · exact absurd (ih.beyond (hsame ▸ hhead)).2 hformula
    · exact absurd (ih.beyond (hhead.trans hheads)).2 hformula

end InStep

/-- The text begins with the canonical text of the formula, and `rest` follows. -/
structure Begins (formula : Formula) (text rest : List Char) : Prop where
  eq : text = canonical formula ++ rest
  noBlanks : NoBlanks text
  ends : EndsNumber rest

/-- Derivations of the canonical text of the formula are in step with it, alone and behind one minus
sign or two. -/
structure Legible (formula : Formula) : Prop where
  atom : formula.Written false → ∀ {text rest rest'}, formula.Begins text rest' →
    ∀ d : Derivation .atom text rest, ¬ formula.strip.Heads d.tree.strip
  spine : formula.Written false → ∀ {text rest rest' tree}, formula.Begins text rest' →
    Spine text rest tree → formula.InStep rest' rest tree
  negated : formula.Written true → ∀ {text rest rest'}, formula.Begins text rest' →
    ∀ d : Derivation .atom ('-' :: text) rest,
      d.tree.strip = formula.strip.minus → rest = rest' ∧ formula.negation.Apart
  negatedTwice : formula.Written true → ∀ {text rest rest'}, formula.Begins text rest' →
    ∀ d : Derivation (.value true) ('-' :: text) rest,
      d.tree.strip = formula.strip.minus.minus → rest = rest' ∧ formula.Apart ∧ formula.Shielded

theorem Legible.formula {formula : Formula} (h : formula.Legible) (hwritten : formula.Written false)
    {text rest rest' : List Char} (hbegins : formula.Begins text rest')
    (d : Derivation .formula text rest) (hstrip : d.tree.strip = formula.strip) :
    rest = rest' ∧ formula.Apart :=
  (h.spine hwritten hbegins (d.spine (by simp) hbegins.noBlanks)).same hstrip

/-- What is no operation, and begins with a character that only such atoms begin with, is legible if
equal atoms are in step with it. -/
theorem Legible.of_not_operation {formula : Formula} (hformula : ¬ formula.Operation)
    (hstrip : ¬ formula.strip.Operation)
    (hatom : formula.Written false → ∀ {text rest rest'}, formula.Begins text rest' →
      ∀ d : Derivation .atom text rest, ¬ d.tree.strip.Operation ∧
        (d.tree.strip = formula.strip → rest = rest' ∧ formula.Apart))
    (hnegated : formula.Written true → ∀ {text rest rest'}, formula.Begins text rest' →
      ∀ d : Derivation .atom ('-' :: text) rest,
        d.tree.strip = formula.strip.minus → rest = rest' ∧ formula.negation.Apart)
    (hnegatedTwice : formula.Written true → ∀ {text rest rest'}, formula.Begins text rest' →
      ∀ d : Derivation (.value true) ('-' :: text) rest,
        d.tree.strip = formula.strip.minus.minus →
          rest = rest' ∧ formula.Apart ∧ formula.Shielded) : formula.Legible where
  atom hwritten _ _ _ hbegins d hheads := (hatom hwritten hbegins d).1 hheads.operation
  spine hwritten _ _ _ _ hbegins hspine :=
    .of_atoms hformula (fun d =>
      .of_not_operation hstrip (hatom hwritten hbegins d).1 (hatom hwritten hbegins d).2) hspine
  negated := hnegated
  negatedTwice := hnegatedTwice

/-! ## Numbers -/

variable {text rest rest' : List Char}

theorem Literal.apart {formula : Formula} (h : formula.Literal) :
    formula.Apart ∧ formula.negation.Apart := by
  cases formula with
  | integer | decimal => exact ⟨trivial, trivial, fun _ _ heq => by simp [negation] at heq⟩
  | _ => exact h.elim

theorem Unsigned.shielded {formula : Formula} (h : formula.Unsigned) : formula.Shielded := by
  cases formula with
  | integer | decimal => exact h
  | _ => exact h.elim

theorem Legible.of_unsigned {formula : Formula} (h : formula.Literal)
    (hunsigned : formula.Unsigned) : formula.Legible := by
  obtain ⟨c, body, hcanonical, hc, -⟩ := exists_digits h hunsigned
  have htoken := isToken_unsigned h hunsigned
  have hstrip := strip_of_literal h
  have hvalue {negative : Bool} {text rest rest' : List Char} (hbegins : formula.Begins text rest')
      (value : Derivation (.value negative) text rest)
      (hsame : value.tree.strip = formula.strip.behind negative) : rest = rest' := by
    rcases value.value_cases hbegins.noBlanks with
      ⟨token, heq, htoken', hend, hnumeral, -⟩ | ⟨operand, hoperand, hoperand'⟩
    · exact (htoken'.unique_of_numeral hend hnumeral htoken hbegins.ends
        (heq.symm.trans hbegins.eq)).2
    · obtain rfl := behind_inj (hoperand'.symm.trans hsame)
      obtain ⟨start, heq⟩ := hoperand.of_literal (hstrip.symm ▸ h)
      rw [hbegins.eq, hcanonical] at heq
      obtain ⟨rfl, -⟩ := List.cons.inj heq
      exact absurd hc (by decide)
  refine .of_not_operation h.not_operation (hstrip.symm ▸ h.not_operation) ?_ ?_ ?_
  · intro _ text rest rest' hbegins d
    obtain ⟨tail, rfl⟩ : ∃ tail, text = c :: tail := ⟨_, hbegins.eq.trans (by rw [hcanonical]; rfl)⟩
    obtain ⟨value, htree⟩ := d.of_value (startsNoName_of_isDigit false hc)
    rw [htree]
    exact ⟨value.value_not_operation hbegins.noBlanks,
      fun hsame => ⟨hvalue hbegins value hsame, h.apart.1⟩⟩
  · intro _ text rest rest' hbegins d hsame
    obtain ⟨tail, rfl⟩ : ∃ tail, text = c :: tail := ⟨_, hbegins.eq.trans (by rw [hcanonical]; rfl)⟩
    obtain ⟨value, htree⟩ := d.of_minus_value (startsNoName_of_isDigit true hc) hbegins.noBlanks
    exact ⟨hvalue hbegins value (htree ▸ hsame), h.apart.2⟩
  · intro _ text rest rest' hbegins value hsame
    rcases value.minus_value_cases hbegins.noBlanks hsame with
      ⟨-, token, heq, htoken', hend, hnumeral⟩ | ⟨start, inner, heq, -⟩
    · rw [hbegins.eq, ← List.cons_append] at heq
      have hrest := (htoken'.unique_of_numeral hend hnumeral (isToken_minus_unsigned h hunsigned)
        hbegins.ends heq.symm).2
      exact ⟨hrest, h.apart.1, hunsigned.shielded⟩
    · rw [hbegins.eq, hcanonical] at heq
      obtain ⟨rfl, -⟩ := List.cons.inj heq
      exact absurd hc (by decide)

theorem Literal.written {formula : Formula} (h : formula.Literal) (negative : Bool) :
    formula.Written negative := by
  cases formula with
  | integer | decimal => exact h
  | _ => exact h.elim

/-- A number with a sign is a number without one behind a minus sign. -/
theorem Legible.of_literal {formula : Formula} (h : formula.Literal) : formula.Legible := by
  by_cases hsigned : formula.Unsigned
  · exact .of_unsigned h hsigned
  obtain ⟨hcanonical, hliteral, hunsigned, hopposite⟩ := canonical_of_signed h hsigned
  have hlegible := Legible.of_unsigned hliteral hunsigned
  have hwritten := hliteral.written true
  have hstrip : formula.strip = formula.opposite.strip.minus := by
    rw [strip_of_literal h, strip_of_literal hliteral, minus_of_literal hliteral, hopposite]
  have hbegins {text rest : List Char} (h : formula.Begins text rest) :
      ∃ tail, text = '-' :: tail ∧ formula.opposite.Begins tail rest := by
    have heq := h.eq
    rw [hcanonical, List.cons_append] at heq
    subst heq
    exact ⟨_, rfl, rfl, h.noBlanks.tail, h.ends⟩
  refine .of_not_operation h.not_operation (hstrip ▸ minus_not_operation _) ?_ ?_ ?_
  · intro _ text rest rest' htext d
    obtain ⟨tail, rfl, htail⟩ := hbegins htext
    refine ⟨d.minus_not_operation htail.noBlanks, fun hsame => ?_⟩
    exact ⟨(hlegible.negated hwritten htail d (hsame.trans hstrip)).1, h.apart.1⟩
  · intro _ text rest rest' htext d hsame
    obtain ⟨tail, rfl, htail⟩ := hbegins htext
    obtain ⟨value, htree⟩ := d.of_minus_value rfl htext.noBlanks
    rw [htree, hstrip] at hsame
    exact ⟨(hlegible.negatedTwice hwritten htail value hsame).1, h.apart.2⟩
  · intro _ text rest rest' htext value hsame
    obtain ⟨tail, rfl, -⟩ := hbegins htext
    obtain ⟨start, -, heq, -⟩ := value.minus_value_group htext.noBlanks hsame
      fun _ => atDelimiter_cons.2 rfl
    exact absurd (List.cons.inj heq).1 (by decide)

/-! ## Names and calls -/

/-- No parenthesis begins the text of a name. -/
theorem NameToken.ne_group {name after start : List Char}
    (h : NameToken (startsNoName true) name) : name ++ after ≠ '(' :: start := by
  obtain ⟨⟨c, token, rfl, -⟩, -, hstart⟩ := h
  intro heq
  obtain ⟨rfl, -⟩ := List.cons.inj heq
  exact absurd (hstart '(' rfl) (by decide)

/-- What begins with a name is legible, alone and behind a minus sign, if equal values are in step
with it. -/
theorem Legible.of_named {formula : Formula} {name : List Char} (hformula : ¬ formula.Operation)
    (hstrip : ¬ formula.strip.Operation) (hliteral : ¬ formula.strip.Literal)
    (hnegation : ∀ operand, formula ≠ negation operand)
    (hname : ∀ {negative}, formula.Written negative → NameToken (startsNoName negative) name)
    (htext : ∀ {negative}, formula.Written negative → ∀ rest, ∃ after,
      canonical formula ++ rest = name ++ after)
    (hvalue : ∀ {negative}, formula.Written negative → ∀ {text rest rest'},
      formula.Begins text rest' → ∀ value : Derivation (.value negative) text rest,
        value.tree.strip = formula.strip.behind negative → rest = rest' ∧ formula.Apart) :
    formula.Legible := by
  refine .of_not_operation hformula hstrip ?_ ?_ ?_
  · intro hwritten text rest rest' hbegins d
    obtain ⟨after, heq⟩ := htext hwritten rest'
    obtain rfl := hbegins.eq.trans heq
    obtain ⟨value, htree⟩ := d.of_name (hname hwritten)
    rw [htree]
    exact ⟨value.value_not_operation hbegins.noBlanks, hvalue hwritten hbegins value⟩
  · intro hwritten text rest rest' hbegins d hsame
    obtain ⟨after, heq⟩ := htext hwritten rest'
    obtain rfl := hbegins.eq.trans heq
    obtain ⟨value, htree⟩ := d.of_minus_name (hname hwritten) hbegins.noBlanks
    obtain ⟨hrest, hapart⟩ := hvalue hwritten hbegins value (htree ▸ hsame)
    exact ⟨hrest, hapart, fun _ operand heq => absurd heq (hnegation operand)⟩
  · intro hwritten text rest rest' hbegins value hsame
    obtain ⟨after, heq⟩ := htext hwritten rest'
    obtain ⟨start, -, hgroup, -⟩ := value.minus_value_group hbegins.noBlanks hsame
      fun h => absurd h hliteral
    exact absurd ((hbegins.eq.trans heq).symm.trans hgroup) (hname hwritten).ne_group

theorem Legible.marked {mark : Mark} {sign : Char} (hmark : Mark.ofSign? sign = some mark)
    (stem : List Char) : (Formula.reference mark stem).Legible := by
  have hsign := (sign_of_ofSign? hmark).2
  have hstart : startsNoNegated sign = true := by rcases hsign with rfl | rfl <;> rfl
  refine .of_not_operation id id ?_ ?_ ?_
  · intro _ text rest rest' hbegins d
    have heq := hbegins.eq
    rw [canonical_marked hmark, List.cons_append] at heq
    subst heq
    obtain ⟨stem', heq, htree⟩ := d.of_mark hmark
    rw [htree]
    refine ⟨id, fun hsame => ?_⟩
    obtain ⟨-, rfl⟩ := reference.inj hsame
    exact ⟨(List.append_cancel_left heq).symm, trivial⟩
  · intro _ text rest rest' hbegins d hsame
    have heq := hbegins.eq
    rw [canonical_marked hmark, List.cons_append] at heq
    have hapart : (reference mark stem).negation.Apart :=
      ⟨trivial, fun _ _ h => by simp [negation] at h⟩
    rcases d.of_minus hbegins.noBlanks with ⟨start, inner, hgroup, -⟩ |
      ⟨mark', sign', stem', -, hsign', htree⟩ | ⟨c, start, hc, hstart', -⟩
    · obtain ⟨rfl, -⟩ := List.cons.inj (hgroup.symm.trans heq)
      simp [Mark.ofSign?] at hmark
    · rw [htree] at hsame
      obtain ⟨-, rfl⟩ := reference.inj (minus_inj hsame)
      obtain ⟨-, hstem⟩ := List.cons.inj (hsign'.symm.trans heq)
      exact ⟨List.append_cancel_left hstem, hapart⟩
    · obtain ⟨rfl, -⟩ := List.cons.inj (hstart'.symm.trans heq)
      exact absurd (hstart.symm.trans hc) (by decide)
  · intro _ text rest rest' hbegins value hsame
    obtain ⟨start, -, hgroup, -⟩ := value.minus_value_group hbegins.noBlanks hsame
      fun h => h.elim
    have heq := hbegins.eq
    rw [canonical_marked hmark, List.cons_append] at heq
    obtain ⟨rfl, -⟩ := List.cons.inj (hgroup.symm.trans heq)
    simp [Mark.ofSign?] at hmark

theorem Legible.reference (mark : Mark) (stem : List Char) :
    (Formula.reference mark stem).Legible := by
  cases mark with
  | plain =>
    refine .of_named id id id (by simp [negation]) (fun h => h) (fun _ rest => ⟨rest, rfl⟩) ?_
    intro negative _ text rest rest' hbegins value hsame
    exact ⟨value.value_name hbegins.noBlanks hbegins.eq hsame, trivial⟩
  | custom => exact @Legible.marked _ '@' rfl stem
  | hashed => exact @Legible.marked _ '#' rfl stem

theorem Legible.call {function : List Char} {argument : Formula} (hfunction : function ≠ minusName)
    (h : argument.Legible) : (Formula.call function argument).Legible := by
  have hstrip : (Formula.call function argument).strip =
      Formula.call function argument.strip := by rw [strip, if_neg hfunction]
  refine .of_named id (hstrip ▸ id) (hstrip ▸ id) (fun operand heq => ?_) (fun hwritten => ?_)
    (fun _ rest => ⟨_, canonical_call_append hfunction argument⟩) ?_
  · exact hfunction (Formula.call.inj heq).1
  · rw [Written, if_neg hfunction] at hwritten
    exact hwritten.1
  · intro negative hwritten text rest rest' hbegins value hsame
    rw [Written, if_neg hfunction] at hwritten
    have heq := hbegins.eq.trans (canonical_call_append hfunction argument)
    rw [hstrip] at hsame
    obtain ⟨inner, hinner⟩ := value.value_call hfunction hbegins.noBlanks heq hsame
    have hargument : argument.Begins (canonical argument ++ ')' :: rest') (')' :: rest') :=
      ⟨rfl, (hbegins.noBlanks.right heq).tail, endsNumber_cons rfl _⟩
    obtain ⟨hrest, hapart⟩ := h.formula hwritten.2 hargument inner hinner
    exact ⟨(List.cons.inj hrest).2, hapart, fun hminus => absurd hminus hfunction⟩

theorem Legible.callPair (function : List Char) {first second : Formula} (h : first.Legible)
    (h' : second.Legible) : (Formula.callPair function first second).Legible := by
  refine .of_named id id id (by simp [negation]) (fun hwritten => hwritten.2.1)
    (fun hwritten rest => ⟨_, canonical_callPair_append hwritten.1 first second⟩) ?_
  intro negative hwritten text rest rest' hbegins value hsame
  obtain ⟨hfunction, -, hfirst, hsecond⟩ := hwritten
  have heq := hbegins.eq.trans (canonical_callPair_append hfunction first second)
  have hnoBlanks := (hbegins.noBlanks.right heq).tail
  obtain ⟨separator, middle, inner, inner', hinner, hinner'⟩ :=
    value.value_callPair hbegins.noBlanks heq hsame
  obtain ⟨hmiddle, hapart⟩ :=
    h.formula hfirst ⟨rfl, hnoBlanks, endsNumber_cons rfl _⟩ inner hinner
  obtain ⟨-, rfl⟩ := List.cons.inj hmiddle
  obtain ⟨hrest, hapart'⟩ := h'.formula hsecond
    ⟨rfl, (hnoBlanks.right rfl).tail, endsNumber_cons rfl _⟩ inner' hinner'
  exact ⟨(List.cons.inj hrest).2, hapart, hapart'⟩

/-! ## Minus signs and parentheses -/

theorem Legible.negation {operand : Formula} (h : operand.Legible) :
    (Formula.negation operand).Legible := by
  have hbegins {text rest : List Char} (h : operand.negation.Begins text rest) :
      ∃ tail, text = '-' :: tail ∧ operand.Begins tail rest := by
    have heq := h.eq
    rw [canonical_negation, List.cons_append] at heq
    subst heq
    exact ⟨_, rfl, rfl, h.noBlanks.tail, h.ends⟩
  refine .of_not_operation id (minus_not_operation _) ?_ ?_ ?_
  · intro hwritten text rest rest' htext d
    obtain ⟨tail, rfl, htail⟩ := hbegins htext
    exact ⟨d.minus_not_operation htail.noBlanks, h.negated hwritten htail d⟩
  · intro hwritten text rest rest' htext d hsame
    obtain ⟨tail, rfl, htail⟩ := hbegins htext
    obtain ⟨value, htree⟩ := d.of_minus_value rfl htext.noBlanks
    obtain ⟨hrest, hapart, hshielded⟩ := h.negatedTwice hwritten htail value (htree ▸ hsame)
    refine ⟨hrest, ⟨hapart, fun _ inner heq => ?_⟩, fun _ inner heq => ?_⟩
    · subst heq
      exact hshielded.elim
    · obtain ⟨-, rfl⟩ := Formula.call.inj heq
      exact hshielded
  · intro _ text rest rest' htext value hsame
    obtain ⟨tail, rfl, -⟩ := hbegins htext
    obtain ⟨start, -, heq, -⟩ := value.minus_value_group htext.noBlanks hsame
      fun _ => atDelimiter_cons.2 rfl
    exact absurd (List.cons.inj heq).1 (by decide)

theorem Legible.parenthesized {inner : Formula} (h : inner.Legible) :
    (Formula.parenthesized inner).Legible := by
  have hbegins {text rest : List Char} (h : (Formula.parenthesized inner).Begins text rest) :
      ∃ tail, text = '(' :: tail ∧ inner.Begins tail (')' :: rest) := by
    have heq := h.eq
    rw [canonical_parenthesized_append] at heq
    subst heq
    exact ⟨_, rfl, rfl, h.noBlanks.tail, endsNumber_cons rfl _⟩
  have hstep {text rest rest' : List Char} (hwritten : inner.Written false)
      (htext : inner.Begins text (')' :: rest')) (d : Derivation .formula text (')' :: rest)) :
      inner.InStep (')' :: rest') (')' :: rest) d.tree :=
    h.spine hwritten htext (d.spine (by simp) htext.noBlanks)
  constructor
  · intro hwritten text rest rest' htext d hheads
    obtain ⟨tail, rfl, htail⟩ := hbegins htext
    obtain ⟨inner', htree⟩ := d.of_group
    rw [htree] at hheads
    exact not_goesOn_close _ ((hstep hwritten htail inner').within hheads)
  · intro hwritten text rest rest' tree htext hspine
    obtain ⟨tail, rfl, htail⟩ := hbegins htext
    refine .of_atoms id (fun d => ?_) hspine
    obtain ⟨inner', htree⟩ := d.of_group
    have hinner := hstep hwritten htail inner'
    rw [htree]
    refine ⟨fun hsame => ?_, fun hheads => ?_, fun hheads => ?_⟩
    · obtain ⟨hrest, hapart⟩ := hinner.same hsame
      exact ⟨(List.cons.inj hrest).2, hapart⟩
    · exact absurd (hinner.within hheads) (not_goesOn_close _)
    · exact absurd (hinner.beyond hheads).1 (not_goesOn_close _)
  · intro hwritten text rest rest' htext d hsame
    obtain ⟨tail, rfl, htail⟩ := hbegins htext
    rcases d.of_minus htext.noBlanks with ⟨start, inner', heq, htree⟩ |
      ⟨mark, sign, stem, hmark, heq, -⟩ | ⟨c, start, hc, heq, -⟩
    · obtain ⟨-, rfl⟩ := List.cons.inj heq
      rw [htree] at hsame
      obtain ⟨hrest, hapart⟩ := h.formula hwritten htail inner' (minus_inj hsame)
      exact ⟨(List.cons.inj hrest).2, hapart, fun _ _ h => by simp [Formula.negation] at h⟩
    · obtain ⟨rfl, -⟩ := List.cons.inj heq
      simp [Mark.ofSign?] at hmark
    · obtain ⟨rfl, -⟩ := List.cons.inj heq
      exact absurd hc (by decide)
  · intro hwritten text rest rest' htext value hsame
    obtain ⟨tail, rfl, htail⟩ := hbegins htext
    obtain ⟨start, inner', heq, hinner⟩ := value.minus_value_group htext.noBlanks hsame
      fun _ => atDelimiter_cons.2 rfl
    obtain ⟨-, rfl⟩ := List.cons.inj heq
    obtain ⟨hrest, hapart⟩ := h.formula hwritten htail inner' hinner
    exact ⟨(List.cons.inj hrest).2, hapart, trivial⟩

/-! ## Operations -/

/-- What ends within the first operand of an operation goes on with the operation. -/
theorem InStep.beyond_of_head {formula head tree : Formula} {rest tail : List Char}
    (hformula : formula.Operation) (h : head.InStep tail rest tree) (htail : GoesOn tail)
    (hheads : head.strip = tree.strip ∨ tree.strip.Heads head.strip) :
    GoesOn rest ∧ formula.Operation := by
  rcases hheads with hsame | hheads
  · exact ⟨(h.same hsame.symm).1 ▸ htail, hformula⟩
  · exact ⟨(h.beyond hheads).1, hformula⟩

theorem Legible.binary {left right : Formula} {op : Operator} (h : left.Legible)
    (h' : right.Legible) : (Formula.binary left op right).Legible := by
  have hbegins {text rest : List Char} (h : (Formula.binary left op right).Begins text rest) :
      left.Begins text (op.symbol ++ (canonical right ++ rest)) ∧
        right.Begins (canonical right ++ rest) rest := by
    have heq := h.eq.trans (canonical_binary_append left op right)
    have hnoBlanks := (h.noBlanks.right heq).right rfl
    exact ⟨⟨heq, h.noBlanks, endsNumber_symbol _ _⟩, rfl, hnoBlanks, h.ends⟩
  have hhead := heads_binary left.strip op right.strip
  refine ⟨?_, ?_, ?_, ?_⟩
  · intro hwritten text rest rest' htext d hheads
    exact h.atom hwritten.2.1 (hbegins htext).1 d (hhead.trans hheads)
  · intro hwritten text rest rest' tree htext hspine
    obtain ⟨-, hl, hr, -⟩ := hwritten
    obtain ⟨hleft, hright⟩ := hbegins htext
    have hbeyond {rest : List Char} {tree : Formula} (hspine : Spine text rest tree) :
        tree.strip.Heads (Formula.binary left op right).strip →
          GoesOn rest ∧ (Formula.binary left op right).Operation :=
      (h.spine hl hleft hspine).beyond_of_head trivial (goesOn_symbol _ _)
    induction hspine with
    | atom d =>
      have hatom := h.atom hl hleft d
      exact ⟨fun hsame => absurd (hsame ▸ hhead) hatom,
        fun hheads => absurd (hhead.trans hheads) hatom, hbeyond (.atom d)⟩
    | join op' left' spells right' ih =>
      refine ⟨fun hwhole => ?_, ih.within_join spells, hbeyond (.join op' left' spells right')⟩
      obtain ⟨hsame, rfl, hsame'⟩ := Formula.binary.inj hwhole
      obtain ⟨rfl, hapart⟩ := (h.spine hl hleft left').same hsame
      obtain rfl := List.append_cancel_left spells.1
      have hspine' := right'.spine op'.tier.operand_ne_value hright.noBlanks
      obtain ⟨hrest, hapart'⟩ := (h'.spine hr hright hspine').same hsame'
      refine ⟨hrest, hapart, hapart', fun halone hequals => spells.2 halone ?_⟩
      rw [List.head?_append, hequals]
      rfl
    | conditional condition whenTrue whenFalse ih =>
      refine ⟨fun hsame => ?_, ih.within_conditional,
        hbeyond (.conditional condition whenTrue whenFalse)⟩
      simp [strip] at hsame
  · intro hwritten
    exact absurd hwritten.1 (by decide)
  · intro hwritten
    exact absurd hwritten.1 (by decide)

theorem Legible.conditional {condition whenTrue whenFalse : Formula} (h : condition.Legible)
    (h₁ : whenTrue.Legible) (h₂ : whenFalse.Legible) :
    (Formula.conditional condition whenTrue whenFalse).Legible := by
  have hbegins {text rest : List Char}
      (h : (Formula.conditional condition whenTrue whenFalse).Begins text rest) :
      condition.Begins text
          ('?' :: (canonical whenTrue ++ ':' :: (canonical whenFalse ++ rest))) ∧
        whenTrue.Begins (canonical whenTrue ++ ':' :: (canonical whenFalse ++ rest))
          (':' :: (canonical whenFalse ++ rest)) ∧
        whenFalse.Begins (canonical whenFalse ++ rest) rest := by
    have heq := h.eq.trans (canonical_conditional_append condition whenTrue whenFalse)
    have hnoBlanks := (h.noBlanks.right heq).tail
    have hnoBlanks' := (hnoBlanks.right rfl).tail
    exact ⟨⟨heq, h.noBlanks, endsNumber_cons rfl _⟩, ⟨rfl, hnoBlanks, endsNumber_cons rfl _⟩,
      rfl, hnoBlanks', h.ends⟩
  have hhead := heads_conditional condition.strip whenTrue.strip whenFalse.strip
  refine ⟨?_, ?_, ?_, ?_⟩
  · intro hwritten text rest rest' htext d hheads
    exact h.atom hwritten.2.1 (hbegins htext).1 d (hhead.trans hheads)
  · intro hwritten text rest rest' tree htext hspine
    obtain ⟨-, hc, ht, hf, -⟩ := hwritten
    obtain ⟨hcondition, htrue, hfalse⟩ := hbegins htext
    have hbeyond {rest : List Char} {tree : Formula} (hspine : Spine text rest tree) :
        tree.strip.Heads (Formula.conditional condition whenTrue whenFalse).strip →
          GoesOn rest ∧ (Formula.conditional condition whenTrue whenFalse).Operation :=
      (h.spine hc hcondition hspine).beyond_of_head trivial (goesOn_cons (by decide) _)
    induction hspine with
    | atom d =>
      have hatom := h.atom hc hcondition d
      exact ⟨fun hsame => absurd (hsame ▸ hhead) hatom,
        fun hheads => absurd (hhead.trans hheads) hatom, hbeyond (.atom d)⟩
    | join op' left' spells right' ih =>
      refine ⟨fun hsame => ?_, ih.within_join spells, hbeyond (.join op' left' spells right')⟩
      simp [strip] at hsame
    | conditional condition' whenTrue' whenFalse' ih =>
      refine ⟨fun hwhole => ?_, ih.within_conditional,
        hbeyond (.conditional condition' whenTrue' whenFalse')⟩
      obtain ⟨hsame, hsame₁, hsame₂⟩ := Formula.conditional.inj hwhole
      obtain ⟨honTrue, hapart⟩ := (h.spine hc hcondition condition').same hsame
      obtain ⟨-, rfl⟩ := List.cons.inj honTrue
      obtain ⟨honFalse, hapart₁⟩ := h₁.formula ht htrue whenTrue' hsame₁
      obtain ⟨-, rfl⟩ := List.cons.inj honFalse
      obtain ⟨hrest, hapart₂⟩ := h₂.formula hf hfalse whenFalse' hsame₂
      exact ⟨hrest, hapart, hapart₁, hapart₂⟩
  · intro hwritten
    exact absurd hwritten.1 (by decide)
  · intro hwritten
    exact absurd hwritten.1 (by decide)

theorem Legible.of_written {formula : Formula}
    (h : ∀ {negative}, formula.Written negative → formula.Legible) : formula.Legible :=
  ⟨fun hwritten => (h hwritten).atom hwritten, fun hwritten => (h hwritten).spine hwritten,
    fun hwritten => (h hwritten).negated hwritten,
    fun hwritten => (h hwritten).negatedTwice hwritten⟩

/-- Every formula is legible. -/
theorem legible (formula : Formula) : formula.Legible := by
  induction formula with
  | integer | decimal => exact .of_written .of_literal
  | reference mark stem => exact .reference mark stem
  | parenthesized inner ih => exact ih.parenthesized
  | call function argument ih =>
    by_cases hminus : function = minusName
    · subst hminus
      exact ih.negation
    · exact ih.call hminus
  | callPair function first second ih ih' => exact ih.callPair function ih'
  | binary left op right ih ih' => exact ih.binary ih'
  | conditional condition whenTrue whenFalse ih ih₁ ih₂ => exact ih.conditional ih₁ ih₂

end Formula

/-! ## The meaning of canonical text -/

/-- Of a formula that is read from a text without `==` and `!=` and negates no operation, the canonical
text is read as the same formula, but for parentheses and minus signs before numbers, exactly when its
signs stand apart. -/
theorem parse_canonical_strip_iff (options : Options) {text : List Char} {tree : Formula}
    (h : Formula.parse options text = .ok tree) (htext : NoEquation text)
    (hnegates : tree.NegatesNoOperation) :
    (∃ again, Formula.parse options (canonical tree) = .ok again ∧ again.strip = tree.strip) ↔
      tree.Apart := by
  obtain ⟨rest, d, rfl, hdepth, -⟩ := exists_derivation_of_parse h
  have hwritten := d.written trivial htext hnegates
  constructor
  · rintro ⟨again, hparse, hstrip⟩
    obtain ⟨rest', d', rfl, -⟩ := exists_derivation_of_parse hparse
    have hbegins : d.tree.Begins (canonical d.tree) [] :=
      ⟨(List.append_nil _).symm, d.noBlanks, endsNumber_nil⟩
    exact (d.tree.legible.formula hwritten hbegins d' hstrip).2
  · intro hapart
    have hfaithful := hwritten.faithful hapart (by simp)
    obtain ⟨d', htree, hdepth'⟩ := hfaithful.exists_derivation
    have hnest : d.tree.nest + 1 ≤ d.depth := d.nest_le_depth
    refine ⟨d'.tree, parse_of_derivation d' (by omega), ?_⟩
    rw [htree, hfaithful.strip_reread]
    rfl

/-- `-(-((a)))` is written `--(a)`. -/
theorem parse_canonical_strip_group :
    Formula.parse {} ['-', '(', '-', '(', '(', 'a', ')', ')', ')'] =
        .ok (Formula.negation (Formula.negation (.parenthesized (.reference .plain ['a'])))) ∧
      ((∃ again, Formula.parse {} (canonical (Formula.negation (Formula.negation
          (.parenthesized (.reference .plain ['a']))))) = .ok again ∧
        again.strip = (Formula.negation (Formula.negation
          (.parenthesized (.reference .plain ['a'])))).strip) ↔
        (Formula.negation (Formula.negation (.parenthesized (.reference .plain ['a'])))).Apart) := by
  have hparse : Formula.parse {} ['-', '(', '-', '(', '(', 'a', ')', ')', ')'] =
      .ok (Formula.negation (Formula.negation (.parenthesized (.reference .plain ['a'])))) := rfl
  have htext : NoEquation ['-', '(', '-', '(', '(', 'a', ')', ')', ')'] := ⟨by decide, by decide⟩
  exact ⟨hparse, parse_canonical_strip_iff {} hparse htext ⟨fun _ => id, fun _ => id, trivial⟩⟩

/-- `-(-a)` is written `--a`, and `--a` is read as a minus sign before the name `-a`. -/
theorem parse_canonical_strip_negated_negation :
    Formula.parse {} ['-', '(', '-', 'a', ')'] =
        .ok (Formula.negation (Formula.negation (.reference .plain ['a']))) ∧
      NoEquation ['-', '(', '-', 'a', ')'] ∧
      (Formula.negation (Formula.negation (.reference .plain ['a']))).NegatesNoOperation ∧
      ¬ ∃ again, Formula.parse {} (canonical (Formula.negation (Formula.negation
          (.reference .plain ['a'])))) = .ok again ∧
        again.strip = (Formula.negation (Formula.negation (.reference .plain ['a']))).strip := by
  have hagain : Formula.parse {} ['-', '-', 'a'] =
      .ok (Formula.negation (.reference .plain ['-', 'a'])) := rfl
  refine ⟨rfl, ⟨by decide, by decide⟩, ⟨fun _ => id, fun _ => id, trivial⟩, ?_⟩
  rintro ⟨again, hparse, hstrip⟩
  obtain rfl := Except.ok.inj (hagain.symm.trans hparse)
  simp [Formula.strip, Formula.minus, Formula.negation] at hstrip

end Drafting
