import Drafting.Proofs.Canonical.Text
import Drafting.Proofs.Grammar.Unambiguous

/-!
# Formulas whose canonical text is derived

The canonical text adds neither blanks nor parentheses, so that what a piece of it is read as depends
on what stands around it: a minus sign in front becomes part of a number, swallows the parentheses of
a group, and is part of the name after a second minus sign; a token goes on up to the next delimiter;
and `=` after `>` belongs to the operator. This module says of which formulas the text is derived all
the same, and what the derivation builds.

## Main definitions

* `Formula.Faithful` — the formulas whose canonical text is derived, alone or after a minus sign.
* `Formula.reread` — the formula that is built.
* `Formula.nest` — how deep formulas are nested in a formula.
* `Formula.Closed` — the formulas whose canonical text ends with the parenthesis of a group or a call.

Main statement: `Formula.Faithful.derives`.
-/

namespace Drafting

open Grammar Rendering

namespace Formula

/-- A token that is read as a name where no value may start with certain characters. -/
def NameToken (forbidden : Char → Bool) (name : List Char) : Prop :=
  IsToken name ∧ ¬ Numeral.IsNumeral name ∧ ∀ c ∈ name.head?, forbidden c = false

/-- The characters that no name starts with, after a minus sign or without one. -/
def startsNoName (negative : Bool) : Char → Bool :=
  if negative then startsNoNegated else startsNoValue

/-- A number without a sign, or a group: what may follow two minus signs. -/
def Shielded : Formula → Prop
  | parenthesized _ => True
  | formula => formula.Unsigned

/-- The formulas whose canonical text ends with the parenthesis of a group or a call. -/
def Closed : Formula → Prop
  | parenthesized _ | callPair .. => True
  | call function argument => if function = minusName then argument.Closed else True
  | binary _ _ right => right.Closed
  | conditional _ _ whenFalse => whenFalse.Closed
  | integer _ | decimal _ | reference .. => False

/-- How deep formulas are nested in a formula, itself not counted. -/
def nest : Formula → Nat
  | integer _ | decimal _ | reference .. => 0
  | parenthesized inner => inner.nest + 1
  | call function argument => if function = minusName then argument.nest else argument.nest + 1
  | callPair _ first second => max first.nest second.nest + 1
  | binary left _ right => max left.nest right.nest
  | conditional condition whenTrue whenFalse =>
    max condition.nest (max whenTrue.nest whenFalse.nest + 1)

/-- The canonical text of the formula is derived; with `negative`, after a minus sign. -/
def Faithful (negative : Bool) : Formula → Prop
  | integer value => (integer value).Literal
  | decimal value => (decimal value).Literal
  | reference .plain name => NameToken (startsNoName negative) name
  | reference _ stem => IsToken stem
  | parenthesized inner => inner.Faithful false
  | call function argument =>
    if function = minusName then
      if negative then argument.Faithful false ∧ argument.Shielded else argument.Faithful true
    else NameToken (startsNoName negative) function ∧ argument.Faithful false
  | callPair function first second =>
    function ≠ minusName ∧ NameToken (startsNoName negative) function ∧
      first.Faithful false ∧ second.Faithful false
  | binary left op right =>
    negative = false ∧ left.Faithful false ∧ right.Faithful false ∧
      op.level ≤ left.rank ∧ op.level < right.rank ∧
      (op = .greater ∨ op = .less → (canonical right).head? ≠ some '=') ∧
      (op = .equal ∨ op = .notEqual → left.Closed)
  | conditional condition whenTrue whenFalse =>
    negative = false ∧ condition.Faithful false ∧ whenTrue.Faithful false ∧
      whenFalse.Faithful false ∧ Operator.conditionalLevel < condition.rank

/-- What two minus signs make of what follows them: they call twice what a group holds, and leave a
number as it is. -/
def doubleNegation : Formula → Formula
  | parenthesized inner => inner.negation.negation
  | literal => literal

/-- The formula that the canonical text is read as; with `negative`, after a minus sign. -/
def reread (negative : Bool) : Formula → Formula
  | integer value => turned negative (integer value)
  | decimal value => turned negative (decimal value)
  | reference mark stem => signed negative (reference mark stem)
  | parenthesized inner =>
    if negative then (inner.reread false).negation else parenthesized (inner.reread false)
  | call function argument =>
    if function = minusName then
      if negative then (argument.reread false).doubleNegation else argument.reread true
    else signed negative (call function (argument.reread false))
  | callPair function first second =>
    signed negative (callPair function (first.reread false) (second.reread false))
  | binary left op right => binary (left.reread false) op (right.reread false)
  | conditional condition whenTrue whenFalse =>
    conditional (condition.reread false) (whenTrue.reread false) (whenFalse.reread false)

/-- The category that a formula's text belongs to. -/
def category : Formula → Category
  | binary _ op _ => .joined op.tier
  | conditional .. => .formula
  | _ => .atom

/-- The room for a text of the formula's category, when what is nested in it has the given room. -/
def roomAround (room : Nat) : Formula → Nat
  | conditional .. => room + 1
  | _ => room

end Formula

namespace Rendering

variable {room : Nat} {negative : Bool} {rest : List Char} {formula tree : Formula}

/-! ## Pieces -/

/-- A text after a minus sign, or alone. -/
def afterMinus (negative : Bool) (text : List Char) : List Char :=
  if negative then '-' :: text else text

theorem startsNoName_of_isDigit (negative : Bool) {c : Char} (h : c.isDigit = true) :
    Formula.startsNoName negative c = false := by
  have hmem := Numeral.isDigit_iff_mem.1 h
  simp only [List.mem_cons, List.not_mem_nil, or_false] at hmem
  rcases hmem with rfl | rfl | rfl | rfl | rfl | rfl | rfl | rfl | rfl | rfl <;>
    (cases negative <;> rfl)

/-- A value whose first character no other atom begins with is an atom, with a minus sign or
without. -/
theorem derives_of_value {c : Char} {text : List Char}
    (hstart : Formula.startsNoName negative c = false)
    (h : Derives room (.value negative) (c :: text) rest tree) :
    Derives room .atom (afterMinus negative (c :: text)) rest tree := by
  cases negative with
  | false => exact .unsigned hstart h
  | true => exact .negatedValue (.refl _) hstart h

theorem derives_of_token {name text : List Char}
    (hname : Formula.NameToken (Formula.startsNoName negative) name)
    (h : Derives room (.value negative) (name ++ text) rest tree) :
    Derives room .atom (afterMinus negative (name ++ text)) rest tree := by
  obtain ⟨⟨c, body, rfl, -⟩, -, hstart⟩ := hname
  exact derives_of_value (hstart c rfl) h

/-- A literal without a sign, after a minus sign or alone. -/
theorem derives_unsigned (h : formula.Literal) (hunsigned : formula.Unsigned)
    (hend : AtDelimiter rest) :
    Derives room .atom (afterMinus negative (canonical formula ++ rest)) rest
      (formula.turned negative) := by
  have hnumber := literal?_append_canonical negative (.inl rfl) h hunsigned
  have htoken := isToken_unsigned h hunsigned
  obtain ⟨c, body, htext, hc, -⟩ := exists_digits h hunsigned
  rw [htext] at hnumber htoken ⊢
  refine derives_of_value (startsNoName_of_isDigit negative hc) (.literal htoken hend ?_)
  simpa using hnumber

/-- A literal without a sign, after two minus signs. -/
theorem derives_minus_unsigned (h : formula.Literal) (hunsigned : formula.Unsigned)
    (hend : AtDelimiter rest) :
    Derives room .atom ('-' :: '-' :: (canonical formula ++ rest)) rest formula := by
  have hnumber := literal?_append_canonical true (.inr (.inr rfl)) h hunsigned
  exact .negatedValue (.refl _) rfl (.literal (isToken_minus_unsigned h hunsigned) hend hnumber)

/-- Any literal, after a minus sign or alone. -/
theorem derives_literal (h : formula.Literal) (hend : AtDelimiter rest) :
    Derives room .atom (afterMinus negative (canonical formula ++ rest)) rest
      (formula.turned negative) := by
  by_cases hunsigned : formula.Unsigned
  · exact derives_unsigned h hunsigned hend
  · obtain ⟨htext, hliteral, hopposite, hturned⟩ := canonical_of_signed h hunsigned
    rw [htext]
    cases negative with
    | false =>
      have hatom : Derives room .atom (afterMinus true (canonical formula.opposite ++ rest)) rest
          formula.opposite.opposite := derives_unsigned hliteral hopposite hend
      rw [hturned] at hatom
      exact hatom
    | true => exact derives_minus_unsigned hliteral hopposite hend

theorem derives_reference {mark : Mark} {stem : List Char}
    (h : (Formula.reference mark stem).Faithful negative) (hend : AtDelimiter rest) :
    Derives room .atom (afterMinus negative (canonical (.reference mark stem) ++ rest)) rest
      (signed negative (.reference mark stem)) := by
  have hmarked {c : Char} (hmark : Mark.ofSign? c = some mark) (hstem : IsToken stem) :
      Derives room .atom (afterMinus negative (c :: (stem ++ rest))) rest
        (signed negative (.reference mark stem)) := by
    cases negative with
    | false => exact .marked hmark hstem hend
    | true => exact .negatedMarked hmark (.refl _) hstem hend
  cases mark with
  | plain =>
    obtain ⟨htoken, hname, hstart⟩ := h
    exact derives_of_token ⟨htoken, hname, hstart⟩ (.name htoken hend hname)
  | custom => exact hmarked (c := '@') rfl h
  | hashed => exact hmarked (c := '#') rfl h

theorem derives_group {text : List Char} (h : Derives room .formula text (')' :: rest) tree) :
    Derives room .atom (afterMinus negative ('(' :: text)) rest
      (if negative then tree.negation else .parenthesized tree) := by
  cases negative with
  | false => exact .group h
  | true => exact .negatedGroup (.refl _) h

theorem derives_call {function text : List Char}
    (hname : Formula.NameToken (Formula.startsNoName negative) function)
    (h : Derives room .formula text (')' :: rest) tree) :
    Derives room .atom (afterMinus negative (function ++ '(' :: text)) rest
      (signed negative (.call function tree)) :=
  derives_of_token hname (.call hname.1 (atDelimiter_cons.2 rfl) hname.2.1 (.refl _) h)

theorem derives_callPair {function text middle : List Char} {second : Formula}
    (hminus : function ≠ minusName)
    (hname : Formula.NameToken (Formula.startsNoName negative) function)
    (h : Derives room .formula text (',' :: middle) tree)
    (h' : Derives room .formula middle (')' :: rest) second) :
    Derives room .atom (afterMinus negative (function ++ '(' :: text)) rest
      (signed negative (.callPair function tree second)) :=
  derives_of_token hname
    (.callPair hname.1 (atDelimiter_cons.2 rfl) hname.2.1 hminus (.refl _) h (.inl rfl) h')

/-- Only a group begins with an opening parenthesis. -/
theorem group_of_derives {text : List Char} (h : Derives room .atom ('(' :: text) rest tree) :
    ∃ inner, tree = .parenthesized inner ∧ Derives room .formula text (')' :: rest) inner := by
  generalize htext : '(' :: text = text' at h
  obtain ⟨d, htree, hdepth⟩ := h
  cases d with
  | group inner =>
    obtain ⟨-, rfl⟩ := List.cons.inj htext
    exact ⟨inner.tree, htree.symm, inner, rfl, hdepth⟩
  | marked mark hmark =>
    obtain ⟨rfl, -⟩ := List.cons.inj htext
    simp [Mark.ofSign?] at hmark
  | unsigned hstart =>
    obtain ⟨rfl, -⟩ := List.cons.inj htext
    exact absurd hstart (by decide)
  | negatedGroup | negatedMarked | negatedValue => simp at htext

/-- A minus sign after a minus sign is a name, and parentheses after it are those of a call. -/
theorem derives_minus_group {text : List Char}
    (h : Derives room .formula text (')' :: rest) tree) :
    Derives room .atom ('-' :: '-' :: '(' :: text) rest tree.negation.negation := by
  have hminus : IsToken minusName := ⟨'-', [], rfl, rfl, by simp⟩
  exact .negatedValue (.refl _) rfl (.call hminus (atDelimiter_cons.2 rfl)
    (Numeral.ofToken?_eq_none_iff.1 rfl) (.refl _) h)

/-- A formula that binds tighter than a level has a text that does. -/
theorem binds_category {level : Int} (h : level < formula.rank)
    (hlevel : Operator.conditionalLevel ≤ level) : formula.category.Binds level := by
  cases formula with
  | binary left op right =>
    rw [Formula.category, Category.Binds, op.level_tier]
    exact h
  | conditional => exact absurd h (Int.not_lt.2 hlevel)
  | _ => trivial

/-- The text of a formula of any category is that of a formula. -/
theorem derives_formula {text : List Char}
    (h : Derives (formula.roomAround room) formula.category text rest tree) :
    Derives (room + 1) .formula text rest tree := by
  cases formula with
  | conditional => exact h
  | binary left op right =>
    refine .plain (.refl _) (h.joined_of_binds ?_) (.refl _)
    exact binds_category (Operator.conditionalLevel_lt_level op) (Int.le_refl _)
  | _ => exact .plain (.refl _) (h.joined_of_atom _) (.refl _)

theorem roomAround_eq (h : Operator.conditionalLevel < formula.rank) :
    formula.roomAround room = room := by
  cases formula with
  | conditional => exact absurd h (Int.lt_irrefl _)
  | _ => rfl

theorem derives_join {op : Operator} {text spelt : List Char} {left right : Formula}
    (hleft : op.level ≤ left.rank) (hright : op.level < right.rank)
    (h : Derives (left.roomAround room) left.category text (op.symbol ++ spelt) formula)
    (halone : op = .greater ∨ op = .less → spelt.head? ≠ some '=')
    (h' : Derives (right.roomAround room) right.category spelt rest tree) :
    Derives room (.joined op.tier) text rest (.binary formula op tree) := by
  have hlevel := Operator.conditionalLevel_lt_level op
  rw [roomAround_eq (Int.lt_of_lt_of_le hlevel hleft)] at h
  rw [roomAround_eq (Int.lt_trans hlevel hright)] at h'
  refine .join (h.joined_of_binds ?_) (.refl _) ⟨rfl, halone⟩ (.refl _) (h'.operand_of_binds ?_)
  · rw [op.level_tier]
    exact binds_category (Int.lt_of_lt_of_le (Int.sub_lt_self _ (by decide)) hleft)
      (Int.le_sub_one_of_lt hlevel)
  · rw [op.level_tier]
    exact binds_category hright (Int.le_of_lt hlevel)

theorem derives_conditional {text onTrue onFalse : List Char} {condition whenTrue whenFalse : Formula}
    (hcondition : Operator.conditionalLevel < formula.rank)
    (h : Derives (formula.roomAround room) formula.category text ('?' :: onTrue) condition)
    (h₁ : Derives room .formula onTrue (':' :: onFalse) whenTrue)
    (h₂ : Derives room .formula onFalse rest whenFalse) :
    Derives (room + 1) .formula text rest (.conditional condition whenTrue whenFalse) := by
  rw [roomAround_eq hcondition] at h
  exact .conditional (.refl _) (h.joined_of_binds (binds_category hcondition (Int.le_refl _)))
    (.refl _) h₁ h₂

/-- What follows an operand in canonical text ends the operand. -/
theorem ended_symbol (op : Operator) (text : List Char)
    (hclosed : op = .equal ∨ op = .notEqual → formula.Closed) :
    AtDelimiter (op.symbol ++ text) ∨ formula.Closed := by
  cases op with
  | equal => exact .inr (hclosed (.inl rfl))
  | notEqual => exact .inr (hclosed (.inr rfl))
  | _ => exact .inl (atDelimiter_cons.2 rfl)

end Rendering

namespace Formula

theorem Literal.canonical_ne_nil {formula : Formula} (h : formula.Literal) :
    canonical formula ≠ [] := by
  by_cases hunsigned : formula.Unsigned
  · obtain ⟨c, body, htext, -⟩ := exists_digits h hunsigned
    simp [htext]
  · simp [(canonical_of_signed h hunsigned).1]

theorem Faithful.canonical_ne_nil {formula : Formula} {negative : Bool}
    (h : formula.Faithful negative) : canonical formula ≠ [] := by
  cases formula with
  | integer | decimal => exact Literal.canonical_ne_nil h
  | reference mark stem =>
    cases mark with
    | plain => exact h.1.ne_nil
    | custom | hashed => simp [Mark.sign]
  | parenthesized inner => simp [canonical_parenthesized]
  | call function argument =>
    by_cases hminus : function = minusName
    · subst hminus
      exact List.cons_ne_nil _ _
    · simp [canonical_call hminus]
  | callPair function first second => simp [canonical_callPair h.1]
  | binary left op right => cases op <;> simp [canonical_binary, Operator.symbol]
  | conditional condition whenTrue whenFalse => simp [canonical_conditional]

theorem Faithful.argument {argument : Formula} {negative : Bool}
    (h : (call minusName argument).Faithful negative) : ∃ negative', argument.Faithful negative' := by
  cases negative with
  | false => exact ⟨true, h⟩
  | true => exact ⟨false, h.1⟩

/-- What may follow a minus sign is an atom. -/
theorem Faithful.category_eq {formula : Formula} (h : formula.Faithful true) :
    formula.category = .atom ∧ ∀ room, formula.roomAround room = room := by
  cases formula with
  | binary | conditional => exact absurd h.1 (by simp)
  | _ => exact ⟨rfl, fun _ => rfl⟩

theorem derives_shielded {formula : Formula} {room : Nat} {rest : List Char}
    (h : formula.Faithful false) (hshielded : formula.Shielded)
    (hend : AtDelimiter rest ∨ formula.Closed)
    (hderives : Derives (formula.roomAround room) formula.category (canonical formula ++ rest) rest
      (formula.reread false)) :
    Derives room .atom ('-' :: '-' :: (canonical formula ++ rest)) rest
      (formula.reread false).doubleNegation := by
  cases formula with
  | integer | decimal => exact derives_minus_unsigned h hshielded (hend.resolve_right id)
  | parenthesized inner =>
    rw [canonical_parenthesized_append] at hderives ⊢
    obtain ⟨tree, htree, hinner⟩ := group_of_derives hderives
    rw [htree]
    exact derives_minus_group hinner
  | _ => exact hshielded.elim

/-- The canonical text of a faithful formula is derived, with the formula that it is reread as. -/
theorem Faithful.derives {formula : Formula} {negative : Bool}
    (h : formula.Faithful negative) {room : Nat} {rest : List Char} (hroom : formula.nest ≤ room)
    (hend : AtDelimiter rest ∨ formula.Closed) :
    Derives (formula.roomAround room) formula.category
      (afterMinus negative (canonical formula ++ rest)) rest (formula.reread negative) := by
  induction formula generalizing negative room rest with
  | integer value => exact derives_literal h (hend.resolve_right id)
  | decimal value => exact derives_literal h (hend.resolve_right id)
  | reference mark stem => exact derives_reference h (hend.resolve_right id)
  | parenthesized inner ih =>
    obtain ⟨room, rfl⟩ := Nat.exists_eq_add_of_le' (Nat.le_of_add_left_le hroom)
    have hinner := ih h (Nat.le_of_succ_le_succ hroom) (.inl (atDelimiter_cons.2 rfl) :
      AtDelimiter (')' :: rest) ∨ _)
    rw [canonical_parenthesized_append]
    exact derives_group (derives_formula hinner)
  | call function argument ih =>
    by_cases hminus : function = minusName
    · subst hminus
      cases negative with
      | false =>
        obtain ⟨hcategory, hroomAround⟩ := Faithful.category_eq h
        have hargument := ih h hroom hend
        rw [hcategory, hroomAround] at hargument
        exact hargument
      | true => exact derives_shielded h.1 h.2 hend (ih h.1 hroom hend)
    · rw [Faithful, if_neg hminus] at h
      rw [nest, if_neg hminus] at hroom
      obtain ⟨room, rfl⟩ := Nat.exists_eq_add_of_le' (Nat.le_of_add_left_le hroom)
      have hargument := ih h.2 (Nat.le_of_succ_le_succ hroom) (.inl (atDelimiter_cons.2 rfl) :
        AtDelimiter (')' :: rest) ∨ _)
      rw [canonical_call_append hminus, reread, if_neg hminus]
      exact derives_call h.1 (derives_formula hargument)
  | callPair function first second ih ih' =>
    obtain ⟨hminus, hname, hf, hf'⟩ := h
    obtain ⟨room, rfl⟩ := Nat.exists_eq_add_of_le' (Nat.le_of_add_left_le hroom)
    obtain ⟨hroom₁, hroom₂⟩ := Nat.max_le.1 (Nat.le_of_succ_le_succ hroom)
    have hfirst := ih hf hroom₁ (.inl (atDelimiter_cons.2 rfl) :
      AtDelimiter (',' :: (canonical second ++ ')' :: rest)) ∨ _)
    have hsecond := ih' hf' hroom₂ (.inl (atDelimiter_cons.2 rfl) : AtDelimiter (')' :: rest) ∨ _)
    rw [canonical_callPair_append hminus]
    exact derives_callPair hminus hname (derives_formula hfirst) (derives_formula hsecond)
  | binary left op right ih ih' =>
    obtain ⟨rfl, hfl, hfr, hl, hr, halone, hclosed⟩ := h
    obtain ⟨hroom₁, hroom₂⟩ := Nat.max_le.1 hroom
    rw [canonical_binary_append]
    refine derives_join hl hr (ih hfl hroom₁ (ended_symbol op _ hclosed)) ?_ (ih' hfr hroom₂ hend)
    intro hop
    rw [List.head?_append_of_ne_nil _ hfr.canonical_ne_nil]
    exact halone hop
  | conditional condition whenTrue whenFalse ih ih₁ ih₂ =>
    obtain ⟨rfl, hf, hf₁, hf₂, hlevel⟩ := h
    obtain ⟨hroom₀, hroom'⟩ := Nat.max_le.1 hroom
    obtain ⟨room, rfl⟩ := Nat.exists_eq_add_of_le' (Nat.le_of_add_left_le hroom')
    obtain ⟨hroom₁, hroom₂⟩ := Nat.max_le.1 (Nat.le_of_succ_le_succ hroom')
    have hcondition := ih hf hroom₀ (.inl (atDelimiter_cons.2 rfl) : AtDelimiter
      ('?' :: (canonical whenTrue ++ ':' :: (canonical whenFalse ++ rest))) ∨ _)
    have htrue := ih₁ hf₁ hroom₁ (.inl (atDelimiter_cons.2 rfl) :
      AtDelimiter (':' :: (canonical whenFalse ++ rest)) ∨ _)
    rw [canonical_conditional_append]
    exact derives_conditional hlevel hcondition (derives_formula htrue)
      (derives_formula (ih₂ hf₂ hroom₂ hend))

end Formula

end Drafting
