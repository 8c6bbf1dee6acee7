import Drafting.Grammar.Lexeme
import Drafting.Proofs.Number.Pattern
import Drafting.Proofs.Text.Token

/-!
# The grammar

The grammar of formulas, with one category of text for each level of precedence and no level handed
down. A derivation is kept as data: it spans the text between two places and builds one tree.

A formula is a comparison-level text with blanks around it, or a conditional. A text of one level is
a text of the next tighter level, or a text of its own level joined to one of the next by an operator
of the level; this is why operators of one level group to the left. What binds tightest are atoms.

## Main definitions

* `Tier`, `Category` — the levels of precedence and the kinds of text.
* `Spells` — the writing of an operator.
* `Derivation` — a derivation of a text.
* `Derivation.tree`, `Derivation.depth` — the formula it builds and the nesting it needs.
* `Derives` — there is a derivation with a given tree that needs no more than a given room.
-/

namespace Drafting.Grammar

/-- The levels of the operators, from the loosest to the tightest. -/
inductive Tier
  | comparison
  | sum
  | product
  | power
deriving DecidableEq, Repr

/-- The kinds of text. A value is what may follow a minus sign, or begin an atom, without a mark and
without parentheses; it keeps whether it follows a minus sign. -/
inductive Category
  | formula
  | joined (tier : Tier)
  | atom
  | value (negative : Bool)
deriving DecidableEq, Repr

namespace Tier

/-- The kind of the operands on the right of the operators of a tier. -/
def operand : Tier → Category
  | comparison => .joined sum
  | sum => .joined product
  | product => .joined power
  | power => .atom

def level : Tier → Int
  | comparison => 2
  | sum => 3
  | product => 4
  | power => 5

end Tier

/-- Operands of the kind hold no operator of the level or below, unless in parentheses. -/
def Category.Binds (level : Int) : Category → Prop
  | joined tier => level < tier.level
  | atom => True
  | _ => False

end Drafting.Grammar

namespace Drafting.Operator

def tier : Operator → Grammar.Tier
  | greater | less | greaterOrEqual | lessOrEqual | equal | notEqual => .comparison
  | add | subtract => .sum
  | multiply | divide => .product
  | power => .power

@[simp] theorem level_tier (op : Operator) : op.tier.level = op.level := by cases op <;> rfl

end Drafting.Operator

namespace Drafting.Grammar

/-- The operator stands between the two places. The signs `>` and `<` alone are operators only where
no `=` follows them. -/
def Spells (op : Operator) (text after : List Char) : Prop :=
  text = op.symbol ++ after ∧ (op = .greater ∨ op = .less → after.head? ≠ some '=')

/-- The characters that begin no value in an atom without a minus sign: those of groups, marks and
operators. -/
def startsNoValue (c : Char) : Bool := ['(', '@', '#', '+', '*', '/', '^', '-'].contains c

/-- The characters that begin no value after a minus sign. -/
def startsNoNegated (c : Char) : Bool := ['(', '@', '#'].contains c

/-- A derivation of the text up to `rest`. -/
inductive Derivation : Category → List Char → List Char → Type
  /-- An operand of the loosest tier and blanks around it. -/
  | plain {text start finish rest} (before : Skips text start)
      (body : Derivation (.joined .comparison) start finish) (after : Skips finish rest) :
      Derivation .formula text rest
  /-- A condition, `?`, a formula, `:` and a formula. -/
  | conditional {text start finish onTrue onFalse rest} (before : Skips text start)
      (condition : Derivation (.joined .comparison) start finish)
      (after : Skips finish ('?' :: onTrue))
      (whenTrue : Derivation .formula onTrue (':' :: onFalse))
      (whenFalse : Derivation .formula onFalse rest) : Derivation .formula text rest
  /-- A text of the next tighter kind. -/
  | operand {tier text rest} (body : Derivation (Tier.operand tier) text rest) :
      Derivation (.joined tier) text rest
  /-- A text of the tier, an operator of the tier, and a text of the next tighter kind. -/
  | join {tier text finish sign spelt start rest} (op : Operator) (htier : op.tier = tier)
      (left : Derivation (.joined tier) text finish) (before : Skips finish sign)
      (spells : Spells op sign spelt) (after : Skips spelt start)
      (right : Derivation (Tier.operand tier) start rest) : Derivation (.joined tier) text rest
  /-- A formula in parentheses. -/
  | group {text rest} (inner : Derivation .formula text (')' :: rest)) :
      Derivation .atom ('(' :: text) rest
  /-- A mark and a token. -/
  | marked {sign rest} (mark : Mark) (hmark : Mark.ofSign? sign = some mark) (stem : List Char)
      (hstem : IsToken stem) (hend : AtDelimiter rest) : Derivation .atom (sign :: (stem ++ rest)) rest
  /-- A value that begins like none of the other atoms. -/
  | unsigned {c text rest} (hstart : startsNoValue c = false)
      (body : Derivation (.value false) (c :: text) rest) : Derivation .atom (c :: text) rest
  /-- A minus sign and a formula in parentheses. -/
  | negatedGroup {text start rest} (before : Skips text ('(' :: start))
      (inner : Derivation .formula start (')' :: rest)) : Derivation .atom ('-' :: text) rest
  /-- A minus sign, a mark and a token. -/
  | negatedMarked {text sign rest} (mark : Mark) (hmark : Mark.ofSign? sign = some mark)
      (stem : List Char) (before : Skips text (sign :: (stem ++ rest))) (hstem : IsToken stem)
      (hend : AtDelimiter rest) : Derivation .atom ('-' :: text) rest
  /-- A minus sign and a value that is no group and no mark. -/
  | negatedValue {text c start rest} (before : Skips text (c :: start))
      (hstart : startsNoNegated c = false) (body : Derivation (.value true) (c :: start) rest) :
      Derivation .atom ('-' :: text) rest
  /-- A token that is a number, its sign turned after a minus sign. -/
  | literal {negative rest} (token : List Char) (htoken : IsToken token) (hend : AtDelimiter rest)
      (number : Formula) (hnumber : literal? negative token = .ok (some number)) :
      Derivation (.value negative) (token ++ rest) rest
  /-- A token that is no number. -/
  | name {negative rest} (token : List Char) (htoken : IsToken token) (hend : AtDelimiter rest)
      (hname : ¬ Numeral.IsNumeral token) : Derivation (.value negative) (token ++ rest) rest
  /-- A token that is no number and a formula in parentheses. -/
  | call {negative after start rest} (token : List Char) (htoken : IsToken token)
      (hend : AtDelimiter after) (hname : ¬ Numeral.IsNumeral token)
      (before : Skips after ('(' :: start)) (argument : Derivation .formula start (')' :: rest)) :
      Derivation (.value negative) (token ++ after) rest
  /-- A token that is no number and no minus sign, and two formulas in parentheses. -/
  | callPair {negative after start separator middle rest} (token : List Char)
      (htoken : IsToken token) (hend : AtDelimiter after) (hname : ¬ Numeral.IsNumeral token)
      (hminus : token ≠ minusName) (before : Skips after ('(' :: start))
      (first : Derivation .formula start (separator :: middle))
      (hseparator : separator = ',' ∨ separator = ';')
      (second : Derivation .formula middle (')' :: rest)) :
      Derivation (.value negative) (token ++ after) rest

/-- A formula as it is, or behind a minus sign. -/
def signed (negative : Bool) (operand : Formula) : Formula :=
  if negative then operand.negation else operand

namespace Derivation

/-- The formula that a derivation builds. -/
def tree {category : Category} {text rest : List Char} : Derivation category text rest → Formula
  | plain _ body _ => body.tree
  | conditional _ condition _ whenTrue whenFalse =>
    .conditional condition.tree whenTrue.tree whenFalse.tree
  | operand body => body.tree
  | join op _ left _ _ _ right => .binary left.tree op right.tree
  | group inner => .parenthesized inner.tree
  | marked mark _ stem _ _ => .reference mark stem
  | unsigned _ body => body.tree
  | negatedGroup _ inner => inner.tree.negation
  | negatedMarked mark _ stem _ _ _ => (Formula.reference mark stem).negation
  | negatedValue _ _ body => body.tree
  | literal _ _ _ number _ => number
  | @name negative _ token _ _ _ => signed negative (.reference .plain token)
  | @call negative _ _ _ token _ _ _ _ argument => signed negative (.call token argument.tree)
  | @callPair negative _ _ _ _ _ token _ _ _ _ _ first _ second =>
    signed negative (.callPair token first.tree second.tree)

/-- How deep formulas are nested in a derivation, itself included if it is one of a formula. -/
def depth {category : Category} {text rest : List Char} : Derivation category text rest → Nat
  | plain _ body _ => body.depth + 1
  | conditional _ condition _ whenTrue whenFalse =>
    max condition.depth (max whenTrue.depth whenFalse.depth) + 1
  | operand body => body.depth
  | join _ _ left _ _ _ right => max left.depth right.depth
  | group inner => inner.depth
  | marked .. => 0
  | unsigned _ body => body.depth
  | negatedGroup _ inner => inner.depth
  | negatedMarked .. => 0
  | negatedValue _ _ body => body.depth
  | literal .. => 0
  | name .. => 0
  | call _ _ _ _ _ argument => argument.depth
  | callPair _ _ _ _ _ _ first _ second => max first.depth second.depth

end Derivation

/-! ## What is left -/

theorem suffix_of_cons {c : Char} {text rest : List Char} (h : c :: rest <:+ text) : rest <:+ text :=
  (List.suffix_cons c rest).trans h

/-- What a derivation leaves is the end of its text. -/
theorem Derivation.suffix {category : Category} {text rest : List Char}
    (d : Derivation category text rest) : rest <:+ text := by
  induction d with
  | plain before body after ih => exact (after.suffix.trans ih).trans before.suffix
  | conditional before condition after whenTrue whenFalse ih ih₁ ih₂ =>
    have honFalse := suffix_of_cons ih₁
    have honTrue := suffix_of_cons (after.suffix.trans ih)
    exact ((ih₂.trans honFalse).trans honTrue).trans before.suffix
  | operand body ih => exact ih
  | join op htier left before spells after right ih ih' =>
    have hspelt := spells.1 ▸ List.suffix_append _ _
    have hfinish := ((ih'.trans after.suffix).trans hspelt).trans before.suffix
    exact hfinish.trans ih
  | group inner ih => exact (suffix_of_cons ih).trans (List.suffix_cons _ _)
  | marked mark hmark stem => exact (List.suffix_append _ _).trans (List.suffix_cons _ _)
  | unsigned hstart body ih => exact ih
  | negatedGroup before inner ih =>
    have hstart := suffix_of_cons before.suffix
    exact ((suffix_of_cons ih).trans hstart).trans (List.suffix_cons _ _)
  | negatedMarked mark hmark stem before =>
    have hstem := suffix_of_cons before.suffix
    exact ((List.suffix_append _ _).trans hstem).trans (List.suffix_cons _ _)
  | negatedValue before hstart body ih => exact (ih.trans before.suffix).trans (List.suffix_cons _ _)
  | literal | name => exact List.suffix_append _ _
  | call token _ _ _ before argument ih =>
    have hstart := suffix_of_cons before.suffix
    exact ((suffix_of_cons ih).trans hstart).trans (List.suffix_append _ _)
  | callPair token _ _ _ _ before first _ second ih ih' =>
    have hmiddle := suffix_of_cons ih
    have hstart := suffix_of_cons before.suffix
    exact (((suffix_of_cons ih').trans hmiddle).trans hstart).trans (List.suffix_append _ _)

/-! ## Derivable texts -/

/-- There is a derivation of the tree that needs no more than the room. -/
def Derives (room : Nat) (category : Category) (text rest : List Char) (tree : Formula) : Prop :=
  ∃ d : Derivation category text rest, d.tree = tree ∧ d.depth ≤ room

namespace Derives

variable {room : Nat} {text rest start finish : List Char} {tree : Formula}

theorem plain (before : Skips text start)
    (h : Derives room (.joined .comparison) start finish tree) (after : Skips finish rest) :
    Derives (room + 1) .formula text rest tree := by
  obtain ⟨d, rfl, hdepth⟩ := h
  exact ⟨.plain before d after, rfl, Nat.succ_le_succ hdepth⟩

theorem conditional {onTrue onFalse : List Char} {condition whenTrue whenFalse : Formula}
    (before : Skips text start) (h : Derives room (.joined .comparison) start finish condition)
    (after : Skips finish ('?' :: onTrue))
    (h₁ : Derives room .formula onTrue (':' :: onFalse) whenTrue)
    (h₂ : Derives room .formula onFalse rest whenFalse) :
    Derives (room + 1) .formula text rest (.conditional condition whenTrue whenFalse) := by
  obtain ⟨d, rfl, hd⟩ := h
  obtain ⟨d₁, rfl, hd₁⟩ := h₁
  obtain ⟨d₂, rfl, hd₂⟩ := h₂
  exact ⟨.conditional before d after d₁ d₂, rfl,
    Nat.succ_le_succ (Nat.max_le.2 ⟨hd, Nat.max_le.2 ⟨hd₁, hd₂⟩⟩)⟩

theorem operand {tier : Tier} (h : Derives room tier.operand text rest tree) :
    Derives room (.joined tier) text rest tree := by
  obtain ⟨d, rfl, hdepth⟩ := h
  exact ⟨.operand d, rfl, hdepth⟩

theorem join {sign spelt : List Char} {op : Operator} {left right : Formula}
    (h : Derives room (.joined op.tier) text finish left) (before : Skips finish sign)
    (spells : Spells op sign spelt) (after : Skips spelt start)
    (h' : Derives room op.tier.operand start rest right) :
    Derives room (.joined op.tier) text rest (.binary left op right) := by
  obtain ⟨d, rfl, hd⟩ := h
  obtain ⟨d', rfl, hd'⟩ := h'
  exact ⟨.join op rfl d before spells after d', rfl, Nat.max_le.2 ⟨hd, hd'⟩⟩

theorem group (h : Derives room .formula text (')' :: rest) tree) :
    Derives room .atom ('(' :: text) rest (.parenthesized tree) := by
  obtain ⟨d, rfl, hdepth⟩ := h
  exact ⟨.group d, rfl, hdepth⟩

theorem marked {mark : Mark} {sign : Char} {stem : List Char}
    (hmark : Mark.ofSign? sign = some mark) (hstem : IsToken stem) (hend : AtDelimiter rest) :
    Derives room .atom (sign :: (stem ++ rest)) rest (.reference mark stem) :=
  ⟨.marked mark hmark stem hstem hend, rfl, Nat.zero_le _⟩

theorem unsigned {c : Char} (hstart : startsNoValue c = false)
    (h : Derives room (.value false) (c :: text) rest tree) :
    Derives room .atom (c :: text) rest tree := by
  obtain ⟨d, rfl, hdepth⟩ := h
  exact ⟨.unsigned hstart d, rfl, hdepth⟩

theorem negatedGroup (before : Skips text ('(' :: start))
    (h : Derives room .formula start (')' :: rest) tree) :
    Derives room .atom ('-' :: text) rest tree.negation := by
  obtain ⟨d, rfl, hdepth⟩ := h
  exact ⟨.negatedGroup before d, rfl, hdepth⟩

theorem negatedMarked {mark : Mark} {sign : Char} {stem : List Char}
    (hmark : Mark.ofSign? sign = some mark) (before : Skips text (sign :: (stem ++ rest)))
    (hstem : IsToken stem) (hend : AtDelimiter rest) :
    Derives room .atom ('-' :: text) rest (Formula.reference mark stem).negation :=
  ⟨.negatedMarked mark hmark stem before hstem hend, rfl, Nat.zero_le _⟩

theorem negatedValue {c : Char} (before : Skips text (c :: start))
    (hstart : startsNoNegated c = false) (h : Derives room (.value true) (c :: start) rest tree) :
    Derives room .atom ('-' :: text) rest tree := by
  obtain ⟨d, rfl, hdepth⟩ := h
  exact ⟨.negatedValue before hstart d, rfl, hdepth⟩

theorem literal {negative : Bool} {token : List Char} (htoken : IsToken token)
    (hend : AtDelimiter rest) (hnumber : literal? negative token = .ok (some tree)) :
    Derives room (.value negative) (token ++ rest) rest tree :=
  ⟨.literal token htoken hend tree hnumber, rfl, Nat.zero_le _⟩

theorem name {negative : Bool} {token : List Char} (htoken : IsToken token)
    (hend : AtDelimiter rest) (hname : ¬ Numeral.IsNumeral token) :
    Derives room (.value negative) (token ++ rest) rest
      (signed negative (.reference .plain token)) :=
  ⟨.name token htoken hend hname, rfl, Nat.zero_le _⟩

theorem call {negative : Bool} {token after : List Char} (htoken : IsToken token)
    (hend : AtDelimiter after) (hname : ¬ Numeral.IsNumeral token)
    (before : Skips after ('(' :: start)) (h : Derives room .formula start (')' :: rest) tree) :
    Derives room (.value negative) (token ++ after) rest (signed negative (.call token tree)) := by
  obtain ⟨d, rfl, hdepth⟩ := h
  exact ⟨.call token htoken hend hname before d, rfl, hdepth⟩

theorem callPair {negative : Bool} {token after middle : List Char} {separator : Char}
    {first second : Formula} (htoken : IsToken token) (hend : AtDelimiter after)
    (hname : ¬ Numeral.IsNumeral token) (hminus : token ≠ minusName)
    (before : Skips after ('(' :: start))
    (h : Derives room .formula start (separator :: middle) first)
    (hseparator : separator = ',' ∨ separator = ';')
    (h' : Derives room .formula middle (')' :: rest) second) :
    Derives room (.value negative) (token ++ after) rest
      (signed negative (.callPair token first second)) := by
  obtain ⟨d, rfl, hd⟩ := h
  obtain ⟨d', rfl, hd'⟩ := h'
  exact ⟨.callPair token htoken hend hname hminus before d hseparator d', rfl,
    Nat.max_le.2 ⟨hd, hd'⟩⟩

/-- Blanks in front of a formula belong to it. -/
theorem skip (h : Derives room .formula start rest tree) (before : Skips text start) :
    Derives room .formula text rest tree := by
  obtain ⟨d, rfl, hdepth⟩ := h
  cases d with
  | plain before' body after => exact ⟨.plain (before.trans before') body after, rfl, hdepth⟩
  | conditional before' condition after whenTrue whenFalse =>
    exact ⟨.conditional (before.trans before') condition after whenTrue whenFalse, rfl, hdepth⟩

theorem joined_of_atom (tier : Tier) (h : Derives room .atom text rest tree) :
    Derives room (.joined tier) text rest tree := by
  have hpower : Derives room (.joined .power) text rest tree := .operand h
  have hproduct : Derives room (.joined .product) text rest tree := .operand hpower
  have hsum : Derives room (.joined .sum) text rest tree := .operand hproduct
  cases tier with
  | comparison => exact .operand hsum
  | sum => exact hsum
  | product => exact hproduct
  | power => exact hpower

theorem joined_of_le {tier tier' : Tier} (h : Derives room (.joined tier') text rest tree)
    (hle : tier.level ≤ tier'.level) : Derives room (.joined tier) text rest tree := by
  by_cases heq : tier = tier'
  · exact heq ▸ h
  · cases tier <;> cases tier' <;> simp only [Tier.level, Int.reduceLE, not_true] at hle heq
    · exact .operand h
    · exact .operand (.operand h : Derives room (.joined .sum) text rest tree)
    · exact .operand (.operand (.operand h : Derives room (.joined .product) text rest tree) :
        Derives room (.joined .sum) text rest tree)
    · exact .operand h
    · exact .operand (.operand h : Derives room (.joined .product) text rest tree)
    · exact .operand h

/-- What binds tighter than the operators below a tier belongs to the tier. -/
theorem joined_of_binds {category : Category} {tier : Tier}
    (h : Derives room category text rest tree) (hbinds : category.Binds (tier.level - 1)) :
    Derives room (.joined tier) text rest tree := by
  cases category with
  | joined tier' => exact h.joined_of_le (Int.sub_lt_iff.1 hbinds |> Int.lt_add_one_iff.1)
  | atom => exact h.joined_of_atom tier
  | formula | value => exact hbinds.elim

/-- What binds tighter than the operators of a tier may stand on their right. -/
theorem operand_of_binds {category : Category} {tier : Tier}
    (h : Derives room category text rest tree) (hbinds : category.Binds tier.level) :
    Derives room tier.operand text rest tree := by
  cases tier with
  | comparison => exact h.joined_of_binds hbinds
  | sum => exact h.joined_of_binds hbinds
  | product => exact h.joined_of_binds hbinds
  | power =>
    cases category with
    | joined tier' => cases tier' <;> simp [Category.Binds, Tier.level] at hbinds
    | atom => exact h
    | formula | value => exact hbinds.elim

end Derives

end Drafting.Grammar
