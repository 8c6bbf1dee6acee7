import Drafting.Proofs.Grammar.Chains

/-!
# Completeness of the readings

Every derivation is read, with the tree that it builds, where nothing follows that the reading would
have to take in as well. A text of a tier is read as the left side of whatever comes next: once it is
read, the loop over operators goes on from there with its tree.

## Main definitions

* `Ends` — what may follow a text of a category.
* `Reads` — how a text of a category is read.

Main statement: `Derivation.reads`.
-/

namespace Drafting.Grammar

/-- After blanks, nothing follows that belongs to a text of the category. -/
def Ends (category : Category) (ahead : List Char) : Prop :=
  ahead.head? ≠ some '(' ∧ match category with
    | .formula => Lead.ofText? ahead = none
    | .joined tier => Stops tier.level ahead
    | .atom | .value _ => True

/-- The text is read up to what follows after blanks. -/
def Reads (room : Nat) (category : Category) (text ahead : List Char) (tree : Formula) : Prop :=
  let nested := expression room Operator.conditionalLevel
  match category with
  | .formula => nested text = .ok (tree, ahead)
  | .joined tier => ∀ level, level < tier.level →
    operand nested level text = climbs nested level tree ahead
  | .atom => ∃ rest, atom nested text = .ok (tree, rest) ∧ dropBlanks rest = ahead
  | .value negative => ∃ rest, value nested negative text = .ok (tree, rest) ∧
    dropBlanks rest = ahead

theorem Tier.operand_ne_formula (tier : Tier) : tier.operand ≠ .formula := by
  cases tier <;> simp [operand]

/-- Only a formula may start with blanks. -/
theorem Derivation.dropBlanks_eq {category : Category} {text rest : List Char}
    (d : Derivation category text rest) (h : category ≠ .formula) : dropBlanks text = text := by
  induction d with
  | plain | conditional => exact absurd rfl h
  | operand _ ih => exact ih (Tier.operand_ne_formula _)
  | join _ _ _ _ _ _ _ ih _ => exact ih (by simp)
  | group | negatedGroup | negatedMarked | negatedValue => rfl
  | marked mark hmark => exact dropBlanks_cons_of_not_blank (not_blank_of_ofSign? hmark)
  | unsigned _ _ ih => exact ih (by simp)
  | literal token htoken | name token htoken | call token htoken | callPair token htoken =>
    exact htoken.dropBlanks_append _

theorem Spells.dropBlanks_eq {op : Operator} {text after : List Char} (h : Spells op text after) :
    dropBlanks text = text ∧ text.head? ≠ some '(' := by
  obtain ⟨rfl, -⟩ := h
  cases op <;> exact ⟨rfl, by simp [Operator.symbol]⟩

theorem expression_dropBlanks {room : Nat} {level : Int} {text rest : List Char} {tree : Formula}
    (h : expression room level text = .ok (tree, rest)) :
    expression room level (dropBlanks text) = .ok (tree, rest) := by
  cases room with
  | zero => simp [expression_zero] at h
  | succ room =>
    rwa [expression_eq, dropBlanks_dropBlanks, ← expression_eq]

/-- What cannot continue a text of a tier cannot continue one of its operands either. -/
theorem Ends.operand {tier : Tier} {ahead : List Char} (h : Ends (.joined tier) ahead) :
    Ends tier.operand ahead := by
  refine ⟨h.1, ?_⟩
  cases tier with
  | comparison | sum | product => exact fun op hop => (h.2 op hop).trans (by decide)
  | power => trivial

theorem Ends.of_formula {tier : Tier} {ahead : List Char} (h : Ends .formula ahead) :
    Ends (.joined tier) ahead :=
  ⟨h.1, fun op hop => by rw [h.2] at hop; simp at hop⟩

/-- The signs after which a nested formula has ended. -/
def closers : List Char := [')', ':', ',', ';']

theorem mem_closers {separator : Char} (h : separator = ',' ∨ separator = ';') :
    separator ∈ closers := by
  rcases h with rfl | rfl <;> decide

theorem cases_closers {c : Char} (h : c ∈ closers) : c = ')' ∨ c = ':' ∨ c = ',' ∨ c = ';' := by
  simpa [closers] using h

theorem dropBlanks_closer {c : Char} (h : c ∈ closers) (rest : List Char) :
    dropBlanks (c :: rest) = c :: rest := by
  rcases cases_closers h with rfl | rfl | rfl | rfl <;> rfl

theorem ends_closer {c : Char} (h : c ∈ closers) (rest : List Char) :
    Ends .formula (dropBlanks (c :: rest)) := by
  rw [dropBlanks_closer h]
  rcases cases_closers h with rfl | rfl | rfl | rfl <;> exact ⟨by simp, rfl⟩

theorem ends_question (rest : List Char) : Ends (.joined .comparison) ('?' :: rest) :=
  ⟨by simp, fun op hop => by simp [Lead.ofText?, Lead.ofChar?] at hop⟩

theorem Spells.ends {op : Operator} {text after : List Char} (h : Spells op text after) :
    Ends (.joined op.tier) text := by
  refine ⟨h.dropBlanks_eq.2, fun next hnext => ?_⟩
  obtain ⟨announced, hlead, hlevel⟩ := h.lead
  obtain rfl : announced = next := by simpa [hnext] using hlead.symm
  rw [op.level_tier, hlevel]

namespace Reads

variable {room : Nat} {text rest start finish ahead : List Char} {tree : Formula}

theorem plain (before : Skips text start) (hstart : dropBlanks start = start)
    (h : Reads room (.joined .comparison) start ahead tree) (hends : Ends .formula ahead) :
    Reads (room + 1) .formula text ahead tree := by
  have hoperand := h Operator.conditionalLevel (by decide)
  rw [climbs_of_stops fun op hop => by rw [hends.2] at hop; simp at hop] at hoperand
  refine (expression_eq_ok_iff (expression_settles room)).2
    ⟨tree, ahead, ?_, .inl ⟨hends.2, rfl, rfl⟩⟩
  rw [before.dropBlanks_eq, hstart]
  exact hoperand

theorem conditional {onTrue onFalse : List Char} {condition whenTrue whenFalse : Formula}
    (before : Skips text start) (hstart : dropBlanks start = start)
    (h : Reads room (.joined .comparison) start ('?' :: onTrue) condition)
    (h₁ : Reads room .formula onTrue (':' :: onFalse) whenTrue)
    (h₂ : Reads room .formula onFalse ahead whenFalse) :
    Reads (room + 1) .formula text ahead (.conditional condition whenTrue whenFalse) := by
  have hoperand := h Operator.conditionalLevel (by decide)
  rw [climbs_of_stops fun op hop => by simp [Lead.ofText?, Lead.ofChar?] at hop] at hoperand
  refine (expression_eq_ok_iff (expression_settles room)).2
    ⟨condition, '?' :: onTrue, ?_, .inr ?_⟩
  · rw [before.dropBlanks_eq, hstart]
    exact hoperand
  · exact branches_eq_ok_iff.2 ⟨onTrue, whenTrue, _, onFalse, whenFalse, rfl,
      expression_dropBlanks h₁, rfl, expression_dropBlanks h₂, rfl⟩

/-- An operand is read as the left side of what comes next, also by the loops of its own tier. -/
theorem climbs_of_operand {tier : Tier} (h : Reads room tier.operand text ahead tree) {level : Int}
    (hlevel : level ≤ tier.level) :
    Grammar.operand (expression room Operator.conditionalLevel) level text =
      climbs (expression room Operator.conditionalLevel) level tree ahead := by
  cases tier with
  | comparison | sum | product => exact h level (Int.lt_of_le_of_lt hlevel (by decide))
  | power =>
    obtain ⟨rest, hatom, rfl⟩ := h
    rw [operand_eq (expression_settles room).shortens, hatom]
    rfl

theorem operand {tier : Tier} (h : Reads room tier.operand text ahead tree) :
    Reads room (.joined tier) text ahead tree :=
  fun _ hlevel => h.climbs_of_operand (Int.le_of_lt hlevel)

theorem join {op : Operator} {sign spelt : List Char} {left right : Formula}
    (h : Reads room (.joined op.tier) text sign left) (spells : Spells op sign spelt)
    (after : Skips spelt start) (hstart : dropBlanks start = start)
    (h' : Reads room op.tier.operand start ahead right) (hends : Ends (.joined op.tier) ahead) :
    Reads room (.joined op.tier) text ahead (.binary left op right) := by
  intro level hlevel
  have hstops : Stops op.level ahead := op.level_tier ▸ hends.2
  have hright := h'.climbs_of_operand (Int.le_of_eq op.level_tier.symm)
  rw [climbs_of_stops hstops] at hright
  rw [h level hlevel, climbs_of_spells (expression_settles room).shortens spells
    (op.level_tier ▸ hlevel), after.dropBlanks_eq, hstart, hright]
  rfl

theorem group_eq_ok (h : Reads room .formula start (')' :: rest) tree) :
    Grammar.group (expression room Operator.conditionalLevel) ('(' :: start) = .ok (tree, rest) :=
  group_eq_ok_iff.2 ⟨start, _, rfl, h, rfl⟩

theorem group (h : Reads room .formula text (')' :: rest) tree) :
    Reads room .atom ('(' :: text) (dropBlanks rest) (.parenthesized tree) :=
  ⟨rest, atom_eq_ok_iff.2 ⟨'(', text, rfl, .inl ⟨rfl, tree, h.group_eq_ok, rfl⟩⟩, rfl⟩

theorem marked {mark : Mark} {sign : Char} {stem : List Char}
    (hmark : Mark.ofSign? sign = some mark) (hstem : IsToken stem) (hend : AtDelimiter rest) :
    Reads room .atom (sign :: (stem ++ rest)) (dropBlanks rest) (.reference mark stem) :=
  ⟨rest, atom_eq_ok_iff.2 ⟨sign, _, rfl, .inr (.inr (.inl ⟨mark, hmark,
    markedName_eq_ok_iff.2 ⟨stem, rfl, rfl, hstem, hend⟩⟩))⟩, rfl⟩

theorem unsigned {c : Char} (hstart : startsNoValue c = false)
    (h : Reads room (.value false) (c :: text) ahead tree) :
    Reads room .atom (c :: text) ahead tree := by
  obtain ⟨rest, hvalue, hrest⟩ := h
  exact ⟨rest, atom_eq_ok_iff.2 ⟨c, text, rfl, .inr (.inr (.inr ⟨hstart, hvalue⟩))⟩, hrest⟩

theorem of_negated (h : negated (expression room Operator.conditionalLevel) (dropBlanks text) =
    .ok (tree, rest)) : Reads room .atom ('-' :: text) (dropBlanks rest) tree :=
  ⟨rest, atom_eq_ok_iff.2 ⟨'-', text, rfl, .inr (.inl ⟨rfl, h⟩)⟩, rfl⟩

theorem negatedGroup (before : Skips text ('(' :: start))
    (h : Reads room .formula start (')' :: rest) tree) :
    Reads room .atom ('-' :: text) (dropBlanks rest) tree.negation := by
  refine of_negated (negated_eq_ok_iff.2
    ⟨'(', start, before.dropBlanks_eq, .inl ⟨rfl, tree, ?_, rfl⟩⟩)
  rw [before.dropBlanks_eq]
  exact h.group_eq_ok

theorem negatedMarked {mark : Mark} {sign : Char} {stem : List Char}
    (hmark : Mark.ofSign? sign = some mark) (before : Skips text (sign :: (stem ++ rest)))
    (hstem : IsToken stem) (hend : AtDelimiter rest) :
    Reads room .atom ('-' :: text) (dropBlanks rest) (Formula.reference mark stem).negation := by
  have htext : dropBlanks text = sign :: (stem ++ rest) := by
    rw [before.dropBlanks_eq, dropBlanks_cons_of_not_blank (not_blank_of_ofSign? hmark)]
  exact of_negated (negated_eq_ok_iff.2 ⟨sign, _, htext, .inr (.inl ⟨mark, _, hmark,
    markedName_eq_ok_iff.2 ⟨stem, rfl, rfl, hstem, hend⟩, rfl⟩)⟩)

theorem negatedValue {c : Char} (before : Skips text (c :: start))
    (hskip : dropBlanks (c :: start) = c :: start) (hstart : startsNoNegated c = false)
    (h : Reads room (.value true) (c :: start) ahead tree) :
    Reads room .atom ('-' :: text) ahead tree := by
  obtain ⟨rest, hvalue, rfl⟩ := h
  have htext : dropBlanks text = c :: start := by rw [before.dropBlanks_eq, hskip]
  exact of_negated (negated_eq_ok_iff.2 ⟨c, start, htext, .inr (.inr ⟨hstart, htext ▸ hvalue⟩)⟩)

theorem literal {negative : Bool} {token : List Char} (htoken : IsToken token)
    (hend : AtDelimiter rest) (hnumber : literal? negative token = .ok (some tree)) :
    Reads room (.value negative) (token ++ rest) (dropBlanks rest) tree :=
  ⟨rest, value_eq_ok_iff.2 ⟨token, rest, rfl, htoken, hend, .inl ⟨hnumber, rfl⟩⟩, rfl⟩

theorem of_named {negative : Bool} {token after : List Char} (htoken : IsToken token)
    (hend : AtDelimiter after) (hname : ¬ Numeral.IsNumeral token)
    (h : named (expression room Operator.conditionalLevel) token after = .ok (tree, rest)) :
    Reads room (.value negative) (token ++ after) (dropBlanks rest) (signed negative tree) :=
  ⟨rest, value_eq_ok_iff.2 ⟨token, after, rfl, htoken, hend, .inr ⟨hname, tree, h, rfl⟩⟩, rfl⟩

theorem name {negative : Bool} {token : List Char} (htoken : IsToken token)
    (hend : AtDelimiter rest) (hname : ¬ Numeral.IsNumeral token)
    (hopen : (dropBlanks rest).head? ≠ some '(') :
    Reads room (.value negative) (token ++ rest) (dropBlanks rest)
      (signed negative (.reference .plain token)) := by
  rw [← dropBlanks_dropBlanks]
  exact of_named htoken hend hname (named_eq_ok_iff.2 (.inl ⟨hopen, rfl, rfl⟩))

theorem call {negative : Bool} {token after : List Char} (htoken : IsToken token)
    (hend : AtDelimiter after) (hname : ¬ Numeral.IsNumeral token)
    (before : Skips after ('(' :: start)) (h : Reads room .formula start (')' :: rest) tree) :
    Reads room (.value negative) (token ++ after) (dropBlanks rest)
      (signed negative (.call token tree)) :=
  of_named htoken hend hname (named_eq_ok_iff.2 (.inr (callOf_eq_ok_iff.2
    ⟨start, tree, _, before.dropBlanks_eq, h, .inl ⟨rfl, rfl⟩⟩)))

theorem callPair {negative : Bool} {token after middle : List Char} {separator : Char}
    {first second : Formula} (htoken : IsToken token) (hend : AtDelimiter after)
    (hname : ¬ Numeral.IsNumeral token) (hminus : token ≠ minusName)
    (before : Skips after ('(' :: start))
    (h : Reads room .formula start (separator :: middle) first)
    (hseparator : separator = ',' ∨ separator = ';')
    (h' : Reads room .formula middle (')' :: rest) second) :
    Reads room (.value negative) (token ++ after) (dropBlanks rest)
      (signed negative (.callPair token first second)) := by
  have hskip := dropBlanks_closer (mem_closers hseparator) middle
  exact of_named htoken hend hname (named_eq_ok_iff.2 (.inr (callOf_eq_ok_iff.2
    ⟨start, first, _, before.dropBlanks_eq, h, .inr ⟨hminus, separator, middle, second, _, hskip,
      hseparator, h', rfl, rfl⟩⟩)))

end Reads

/-- Every derivation is read, where nothing follows that belongs to it. -/
theorem Derivation.reads {category : Category} {text rest : List Char}
    (d : Derivation category text rest) {room : Nat} (hroom : d.depth ≤ room)
    (hends : Ends category (dropBlanks rest)) :
    Reads room category text (dropBlanks rest) d.tree := by
  induction d generalizing room with
  | plain before body after ih =>
    obtain ⟨room, rfl⟩ := Nat.exists_eq_add_of_le' (Nat.le_of_add_left_le hroom)
    have hbody := ih (Nat.le_of_succ_le_succ hroom) (after.dropBlanks_eq ▸ hends.of_formula)
    rw [after.dropBlanks_eq] at hbody
    exact .plain before (body.dropBlanks_eq (by simp)) hbody hends
  | conditional before condition after whenTrue whenFalse ih ih₁ ih₂ =>
    obtain ⟨room, rfl⟩ := Nat.exists_eq_add_of_le' (Nat.le_of_add_left_le hroom)
    obtain ⟨hcondition, htrue, hfalse⟩ :
        condition.depth ≤ room ∧ whenTrue.depth ≤ room ∧ whenFalse.depth ≤ room := by
      simpa [depth] using hroom
    have hleft := ih hcondition
      (after.dropBlanks_eq ▸ ends_question _)
    rw [after.dropBlanks_eq] at hleft
    exact .conditional before (condition.dropBlanks_eq (by simp)) hleft
      (ih₁ htrue (ends_closer (by decide) _)) (ih₂ hfalse hends)
  | operand body ih => exact .operand (ih hroom hends.operand)
  | join op htier left before spells after right ih ih' =>
    subst htier
    obtain ⟨hleft, hright⟩ := Nat.max_le.1 hroom
    have hsign := before.dropBlanks_eq.trans spells.dropBlanks_eq.1
    have hbefore := ih hleft (hsign ▸ spells.ends)
    rw [hsign] at hbefore
    exact .join hbefore spells after (right.dropBlanks_eq op.tier.operand_ne_formula)
      (ih' hright hends.operand) hends
  | group inner ih => exact .group (ih hroom (ends_closer (by decide) _))
  | marked mark hmark stem hstem hend => exact .marked hmark hstem hend
  | unsigned hstart body ih => exact .unsigned hstart (ih hroom ⟨hends.1, trivial⟩)
  | negatedGroup before inner ih => exact .negatedGroup before (ih hroom (ends_closer (by decide) _))
  | negatedMarked mark hmark stem before hstem hend =>
    exact .negatedMarked hmark before hstem hend
  | negatedValue before hstart body ih =>
    exact .negatedValue before (body.dropBlanks_eq (by simp)) hstart (ih hroom ⟨hends.1, trivial⟩)
  | literal token htoken hend number hnumber => exact .literal htoken hend hnumber
  | name token htoken hend hname => exact .name htoken hend hname hends.1
  | call token htoken hend hname before argument ih =>
    exact .call htoken hend hname before (ih hroom (ends_closer (by decide) _))
  | callPair token htoken hend hname hminus before first hseparator second ih ih' =>
    obtain ⟨hfirst, hsecond⟩ := Nat.max_le.1 hroom
    have hleft := ih hfirst (ends_closer (mem_closers hseparator) _)
    rw [dropBlanks_closer (mem_closers hseparator)] at hleft
    exact .callPair htoken hend hname hminus before hleft hseparator
      (ih' hsecond (ends_closer (by decide) _))

end Drafting.Grammar
