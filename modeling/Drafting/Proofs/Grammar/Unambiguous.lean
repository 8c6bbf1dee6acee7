import Drafting.Proofs.Grammar.Completeness
import Drafting.Proofs.Grammar.Soundness
import Drafting.Proofs.Number.ReadBack

/-!
# The grammar is unambiguous

Two derivations of one text that build the same tree are the same derivation, and they span the same
part of the text but for blanks after a formula. Since a reading gives every derivation's tree, a text
has no two derivations.

## Main definitions

* `SameEnd` — the places at which two texts of a category from one place may end.
* `Determined` — a derivation that its text and its tree determine.

Main statements: `Derivation.determined` and `Derivation.subsingleton`.
-/

namespace Drafting

/-- How tightly the outermost operator of a formula binds. -/
def Formula.rank : Formula → Int
  | binary _ op _ => op.level
  | conditional .. => Operator.conditionalLevel
  | _ => 6

namespace Grammar

/-- The loosest binding of a formula of the category. -/
def Category.rank : Category → Int
  | formula => Operator.conditionalLevel
  | joined tier => tier.level
  | atom | value _ => 6

theorem Tier.level_lt_rank_operand (tier : Tier) : tier.level < tier.operand.rank := by
  cases tier <;> decide

theorem rank_literal {negative : Bool} {token : List Char} {number : Formula}
    (h : literal? negative token = .ok (some number)) : number.rank = 6 := by
  rcases literal?_cases h with ⟨value, rfl, -⟩ | ⟨value, rfl, -⟩ <;> rfl

theorem rank_signed {negative : Bool} {operand : Formula} (h : operand.rank = 6) :
    (signed negative operand).rank = 6 := by
  cases negative
  · exact h
  · rfl

/-- The tree of a derivation binds at least as tightly as its category. -/
theorem Derivation.rank_le {category : Category} {text rest : List Char}
    (d : Derivation category text rest) : category.rank ≤ d.tree.rank := by
  induction d with
  | plain before body after ih => exact Int.le_trans (by decide) ih
  | conditional => exact Int.le_refl _
  | @operand tier _ _ body ih => exact Int.le_trans (Int.le_of_lt tier.level_lt_rank_operand) ih
  | join op htier =>
    subst htier
    exact Int.le_of_eq op.level_tier
  | group | marked | negatedGroup | negatedMarked => exact Int.le_refl _
  | unsigned hstart body ih => exact ih
  | negatedValue before hstart body ih => exact ih
  | literal token htoken hend number hnumber => exact Int.le_of_eq (rank_literal hnumber).symm
  | name | call | callPair => exact Int.le_of_eq (rank_signed rfl).symm

theorem Derivation.tree_ne_conditional {tier : Tier} {text rest : List Char}
    (d : Derivation (.joined tier) text rest) (condition whenTrue whenFalse : Formula) :
    d.tree ≠ .conditional condition whenTrue whenFalse := by
  intro htree
  have hrank := d.rank_le
  rw [htree, Formula.rank, Category.rank] at hrank
  revert hrank
  cases tier <;> decide

theorem Derivation.tree_ne_binary {op : Operator} {text rest : List Char}
    (d : Derivation op.tier.operand text rest) (left right : Formula) :
    d.tree ≠ .binary left op right := by
  intro htree
  have hrank := Int.lt_of_lt_of_le op.tier.level_lt_rank_operand d.rank_le
  rw [htree, op.level_tier] at hrank
  exact Int.lt_irrefl _ hrank

/-- The ends of two texts of one category that begin at one place. -/
def SameEnd : Category → List Char → List Char → Prop
  | .formula, rest, rest' => dropBlanks rest = dropBlanks rest'
  | _, rest, rest' => rest = rest'

theorem SameEnd.eq {category : Category} {rest rest' : List Char}
    (h : SameEnd category rest rest') (hcategory : category ≠ .formula) : rest = rest' := by
  cases category with
  | formula => exact absurd rfl hcategory
  | joined | atom | value => exact h

/-- A closing sign ends the formula before it at one place only. -/
theorem SameEnd.closer {c c' : Char} {rest rest' : List Char}
    (h : SameEnd .formula (c :: rest) (c' :: rest')) (hc : c ∈ closers) (hc' : c' ∈ closers) :
    c = c' ∧ rest = rest' := by
  rw [SameEnd, dropBlanks_closer hc, dropBlanks_closer hc'] at h
  exact List.cons.inj h

/-- Any derivation of the same text with the same tree is this one, as far as both go. -/
def Determined {category : Category} {text rest : List Char}
    (d : Derivation category text rest) : Prop :=
  ∀ {text' rest' : List Char} (d' : Derivation category text' rest'), text = text' →
    d.tree = d'.tree → SameEnd category rest rest' ∧ (rest = rest' → HEq d d')

/-- A gap before a character that is no blank ends at one place only. -/
theorem Skips.unique {text start start' : List Char} (h : Skips text start) (h' : Skips text start')
    (hstart : dropBlanks start = start) (hstart' : dropBlanks start' = start') : start = start' :=
  (h.eq_dropBlanks hstart).trans (h'.eq_dropBlanks hstart').symm

theorem signed_inj {negative : Bool} {a b : Formula} (h : signed negative a = signed negative b) :
    a = b := by
  cases negative
  · exact h
  · exact (Formula.call.inj h).2

namespace Determined

variable {text rest start finish : List Char}

theorem plain {before : Skips text start} {body : Derivation (.joined .comparison) start finish}
    {after : Skips finish rest} (ih : Determined body) :
    Determined (.plain before body after) := by
  rintro _ rest' d' rfl htree
  cases d' with
  | plain before' body' after' =>
    obtain rfl := before.unique before' (body.dropBlanks_eq (by simp)) (body'.dropBlanks_eq (by simp))
    obtain ⟨rfl, hbody⟩ := ih body' rfl htree
    refine ⟨after.dropBlanks_eq.symm.trans after'.dropBlanks_eq, ?_⟩
    rintro rfl
    obtain rfl := eq_of_heq (hbody rfl)
    rfl
  | conditional before' condition' after' whenTrue' whenFalse' =>
    exact absurd htree (body.tree_ne_conditional _ _ _)

theorem conditional {onTrue onFalse : List Char} {before : Skips text start}
    {condition : Derivation (.joined .comparison) start finish}
    {after : Skips finish ('?' :: onTrue)} {whenTrue : Derivation .formula onTrue (':' :: onFalse)}
    {whenFalse : Derivation .formula onFalse rest} (ih : Determined condition)
    (ih₁ : Determined whenTrue) (ih₂ : Determined whenFalse) :
    Determined (.conditional before condition after whenTrue whenFalse) := by
  rintro _ rest' d' rfl htree
  cases d' with
  | plain before' body' after' =>
    exact absurd htree.symm (body'.tree_ne_conditional _ _ _)
  | conditional before' condition' after' whenTrue' whenFalse' =>
    obtain ⟨htree, htree₁, htree₂⟩ := Formula.conditional.inj htree
    obtain rfl := before.unique before' (condition.dropBlanks_eq (by simp))
      (condition'.dropBlanks_eq (by simp))
    obtain ⟨rfl, hcondition⟩ := ih condition' rfl htree
    obtain rfl := eq_of_heq (hcondition rfl)
    obtain ⟨-, rfl⟩ := List.cons.inj (after.unique after' rfl rfl)
    obtain ⟨hend, htrue⟩ := ih₁ whenTrue' rfl htree₁
    obtain ⟨-, rfl⟩ := hend.closer (by decide) (by decide)
    obtain rfl := eq_of_heq (htrue rfl)
    obtain ⟨hend', hfalse⟩ := ih₂ whenFalse' rfl htree₂
    refine ⟨hend', ?_⟩
    rintro rfl
    obtain rfl := eq_of_heq (hfalse rfl)
    rfl

theorem operand {tier : Tier} {body : Derivation tier.operand text rest} (ih : Determined body) :
    Determined (.operand body) := by
  rintro _ rest' d' rfl htree
  cases d' with
  | operand body' =>
    obtain ⟨hend, hbody⟩ := ih body' rfl htree
    obtain rfl := hend.eq tier.operand_ne_formula
    obtain rfl := eq_of_heq (hbody rfl)
    exact ⟨rfl, fun _ => HEq.rfl⟩
  | join op' htier' left' before' spells' after' right' =>
    subst htier'
    exact absurd htree (body.tree_ne_binary _ _)

theorem join {tier : Tier} {sign spelt : List Char} {op : Operator} {htier : op.tier = tier}
    {left : Derivation (.joined tier) text finish} {before : Skips finish sign}
    {spells : Spells op sign spelt} {after : Skips spelt start}
    {right : Derivation tier.operand start rest} (ih : Determined left) (ih' : Determined right) :
    Determined (.join op htier left before spells after right) := by
  rintro _ rest' d' rfl htree
  cases d' with
  | operand body' =>
    subst htier
    exact absurd htree.symm (body'.tree_ne_binary _ _)
  | join op' htier' left' before' spells' after' right' =>
    obtain ⟨htree₁, rfl, htree₂⟩ := Formula.binary.inj htree
    obtain ⟨rfl, hleft⟩ := ih left' rfl htree₁
    obtain rfl := eq_of_heq (hleft rfl)
    obtain rfl := before.unique before' spells.dropBlanks_eq.1 spells'.dropBlanks_eq.1
    obtain rfl := List.append_cancel_left (spells.1.symm.trans spells'.1)
    obtain rfl := after.unique after' (right.dropBlanks_eq tier.operand_ne_formula)
      (right'.dropBlanks_eq tier.operand_ne_formula)
    obtain ⟨hend, hright⟩ := ih' right' rfl htree₂
    obtain rfl := hend.eq tier.operand_ne_formula
    obtain rfl := eq_of_heq (hright rfl)
    exact ⟨rfl, fun _ => HEq.rfl⟩

theorem group {inner : Derivation .formula text (')' :: rest)} (ih : Determined inner) :
    Determined (.group inner) := by
  rintro text' rest' d' htext htree
  cases d' with
  | group inner' =>
    obtain ⟨-, rfl⟩ := List.cons.inj htext
    obtain ⟨hend, hinner⟩ := ih inner' rfl (Formula.parenthesized.inj htree)
    obtain ⟨-, rfl⟩ := hend.closer (by decide) (by decide)
    obtain rfl := eq_of_heq (hinner rfl)
    exact ⟨rfl, fun _ => HEq.rfl⟩
  | marked | negatedGroup | negatedMarked => cases htree
  | unsigned hstart =>
    obtain ⟨rfl, -⟩ := List.cons.inj htext
    exact absurd hstart (by decide)
  | negatedValue => simp at htext

theorem marked {mark : Mark} {sign : Char} {hmark : Mark.ofSign? sign = some mark}
    {stem : List Char} {hstem : IsToken stem} {hend : AtDelimiter rest} :
    Determined (.marked mark hmark stem hstem hend) := by
  rintro text' rest' d' htext htree
  cases d' with
  | marked mark' hmark' stem' hstem' hend' =>
    obtain ⟨rfl, hstems⟩ := List.cons.inj htext
    obtain ⟨rfl, rfl⟩ := hstem.unique hstem' hend hend' hstems
    obtain ⟨rfl, -⟩ := Formula.reference.inj htree
    exact ⟨rfl, fun _ => HEq.rfl⟩
  | group | negatedGroup | negatedMarked => cases htree
  | unsigned hstart =>
    obtain ⟨rfl, -⟩ := List.cons.inj htext
    rcases (sign_of_ofSign? hmark).2 with rfl | rfl <;> exact absurd hstart (by decide)
  | negatedValue =>
    obtain ⟨rfl, -⟩ := List.cons.inj htext
    simp [Mark.ofSign?] at hmark

theorem unsigned {c : Char} {hstart : startsNoValue c = false}
    {body : Derivation (.value false) (c :: text) rest} (ih : Determined body) :
    Determined (.unsigned hstart body) := by
  rintro text' rest' d' htext htree
  cases d' with
  | unsigned hstart' body' =>
    obtain ⟨rfl, rfl⟩ := List.cons.inj htext
    obtain ⟨rfl, hbody⟩ := ih body' rfl htree
    obtain rfl := eq_of_heq (hbody rfl)
    exact ⟨rfl, fun _ => HEq.rfl⟩
  | marked mark hmark =>
    obtain ⟨rfl, -⟩ := List.cons.inj htext
    rcases (sign_of_ofSign? hmark).2 with rfl | rfl <;> exact absurd hstart (by decide)
  | group | negatedGroup | negatedMarked | negatedValue =>
    obtain ⟨rfl, -⟩ := List.cons.inj htext
    exact absurd hstart (by decide)

theorem negatedGroup {before : Skips text ('(' :: start)}
    {inner : Derivation .formula start (')' :: rest)} (ih : Determined inner) :
    Determined (.negatedGroup before inner) := by
  rintro text' rest' d' htext htree
  cases d' with
  | negatedGroup before' inner' =>
    obtain ⟨-, rfl⟩ := List.cons.inj htext
    obtain ⟨-, rfl⟩ := List.cons.inj (before.unique before' rfl rfl)
    obtain ⟨hend, hinner⟩ := ih inner' rfl (Formula.call.inj htree).2
    obtain ⟨-, rfl⟩ := hend.closer (by decide) (by decide)
    obtain rfl := eq_of_heq (hinner rfl)
    exact ⟨rfl, fun _ => HEq.rfl⟩
  | negatedMarked mark hmark stem before' =>
    obtain ⟨-, rfl⟩ := List.cons.inj htext
    obtain ⟨rfl, -⟩ := List.cons.inj (before.unique before' rfl
      (dropBlanks_cons_of_not_blank (not_blank_of_ofSign? hmark)))
    simp [Mark.ofSign?] at hmark
  | negatedValue before' hstart body' =>
    obtain ⟨-, rfl⟩ := List.cons.inj htext
    obtain ⟨rfl, -⟩ := List.cons.inj (before.unique before' rfl (body'.dropBlanks_eq (by simp)))
    exact absurd hstart (by decide)
  | group => simp at htext
  | marked mark hmark =>
    obtain ⟨rfl, -⟩ := List.cons.inj htext
    simp [Mark.ofSign?] at hmark
  | unsigned hstart =>
    obtain ⟨rfl, -⟩ := List.cons.inj htext
    exact absurd hstart (by decide)

theorem negatedMarked {mark : Mark} {sign : Char} {hmark : Mark.ofSign? sign = some mark}
    {stem : List Char} {before : Skips text (sign :: (stem ++ rest))} {hstem : IsToken stem}
    {hend : AtDelimiter rest} : Determined (.negatedMarked mark hmark stem before hstem hend) := by
  have hsign (rest : List Char) : dropBlanks (sign :: rest) = sign :: rest :=
    dropBlanks_cons_of_not_blank (not_blank_of_ofSign? hmark)
  rintro text' rest' d' htext htree
  cases d' with
  | negatedMarked mark' hmark' stem' before' hstem' hend' =>
    obtain ⟨-, rfl⟩ := List.cons.inj htext
    obtain ⟨rfl, hstems⟩ := List.cons.inj (before.unique before' (hsign _)
      (dropBlanks_cons_of_not_blank (not_blank_of_ofSign? hmark')))
    obtain ⟨rfl, rfl⟩ := hstem.unique hstem' hend hend' hstems
    obtain ⟨rfl, -⟩ := Formula.reference.inj (Formula.call.inj htree).2
    exact ⟨rfl, fun _ => HEq.rfl⟩
  | negatedGroup before' =>
    obtain ⟨-, rfl⟩ := List.cons.inj htext
    obtain ⟨rfl, -⟩ := List.cons.inj (before.unique before' (hsign _) rfl)
    simp [Mark.ofSign?] at hmark
  | negatedValue before' hstart body' =>
    obtain ⟨-, rfl⟩ := List.cons.inj htext
    obtain ⟨rfl, -⟩ := List.cons.inj (before.unique before' (hsign _)
      (body'.dropBlanks_eq (by simp)))
    rcases (sign_of_ofSign? hmark).2 with rfl | rfl <;> exact absurd hstart (by decide)
  | group => simp at htext
  | marked mark hmark =>
    obtain ⟨rfl, -⟩ := List.cons.inj htext
    simp [Mark.ofSign?] at hmark
  | unsigned hstart =>
    obtain ⟨rfl, -⟩ := List.cons.inj htext
    exact absurd hstart (by decide)

theorem negatedValue {c : Char} {before : Skips text (c :: start)}
    {hstart : startsNoNegated c = false} {body : Derivation (.value true) (c :: start) rest}
    (ih : Determined body) : Determined (.negatedValue before hstart body) := by
  have hskip := body.dropBlanks_eq (by simp)
  rintro text' rest' d' htext htree
  cases d' with
  | negatedValue before' hstart' body' =>
    obtain ⟨-, rfl⟩ := List.cons.inj htext
    obtain ⟨rfl, rfl⟩ := List.cons.inj (before.unique before' hskip (body'.dropBlanks_eq (by simp)))
    obtain ⟨rfl, hbody⟩ := ih body' rfl htree
    obtain rfl := eq_of_heq (hbody rfl)
    exact ⟨rfl, fun _ => HEq.rfl⟩
  | negatedGroup before' =>
    obtain ⟨-, rfl⟩ := List.cons.inj htext
    obtain ⟨rfl, -⟩ := List.cons.inj (before.unique before' hskip rfl)
    exact absurd hstart (by decide)
  | negatedMarked mark hmark stem before' =>
    obtain ⟨-, rfl⟩ := List.cons.inj htext
    obtain ⟨rfl, -⟩ := List.cons.inj (before.unique before' hskip
      (dropBlanks_cons_of_not_blank (not_blank_of_ofSign? hmark)))
    rcases (sign_of_ofSign? hmark).2 with rfl | rfl <;> exact absurd hstart (by decide)
  | group => simp at htext
  | marked mark hmark =>
    obtain ⟨rfl, -⟩ := List.cons.inj htext
    simp [Mark.ofSign?] at hmark
  | unsigned hstart =>
    obtain ⟨rfl, -⟩ := List.cons.inj htext
    exact absurd hstart (by decide)

theorem literal {negative : Bool} {token : List Char} {htoken : IsToken token}
    {hend : AtDelimiter rest} {number : Formula}
    {hnumber : literal? negative token = .ok (some number)} :
    Determined (.literal token htoken hend number hnumber) := by
  rintro text' rest' d' htext htree
  cases d' with
  | literal token' htoken' hend' =>
    obtain ⟨rfl, rfl⟩ := htoken.unique htoken' hend hend' htext
    cases htree
    exact ⟨rfl, fun _ => HEq.rfl⟩
  | name token' htoken' hend' hname'
  | call token' htoken' hend' hname'
  | callPair token' htoken' hend' hname' =>
    obtain ⟨rfl, rfl⟩ := htoken.unique htoken' hend hend' htext
    exact absurd ((literal?_eq_none_iff.2 hname').symm.trans hnumber) (by simp)

theorem name {negative : Bool} {token : List Char} {htoken : IsToken token}
    {hend : AtDelimiter rest} {hname : ¬ Numeral.IsNumeral token} :
    Determined (.name token htoken hend hname : Derivation (.value negative) _ _) := by
  rintro text' rest' d' htext htree
  cases d' with
  | literal token' htoken' hend' number' hnumber' =>
    obtain ⟨rfl, rfl⟩ := htoken.unique htoken' hend hend' htext
    exact absurd ((literal?_eq_none_iff.2 hname).symm.trans hnumber') (by simp)
  | name token' htoken' hend' =>
    obtain ⟨rfl, rfl⟩ := htoken.unique htoken' hend hend' htext
    exact ⟨rfl, fun _ => HEq.rfl⟩
  | call | callPair => cases signed_inj htree

theorem call {negative : Bool} {token after : List Char} {htoken : IsToken token}
    {hend : AtDelimiter after} {hname : ¬ Numeral.IsNumeral token}
    {before : Skips after ('(' :: start)} {argument : Derivation .formula start (')' :: rest)}
    (ih : Determined argument) :
    Determined (.call token htoken hend hname before argument :
      Derivation (.value negative) _ _) := by
  rintro text' rest' d' htext htree
  cases d' with
  | literal token' htoken' hend' number' hnumber' =>
    obtain ⟨rfl, rfl⟩ := htoken.unique htoken' hend hend' htext
    exact absurd ((literal?_eq_none_iff.2 hname).symm.trans hnumber') (by simp)
  | call token' htoken' hend' hname' before' argument' =>
    obtain ⟨rfl, rfl⟩ := htoken.unique htoken' hend hend' htext
    obtain ⟨-, rfl⟩ := List.cons.inj (before.unique before' rfl rfl)
    obtain ⟨hlast, hargument⟩ := ih argument' rfl (Formula.call.inj (signed_inj htree)).2
    obtain ⟨-, rfl⟩ := hlast.closer (by decide) (by decide)
    obtain rfl := eq_of_heq (hargument rfl)
    exact ⟨rfl, fun _ => HEq.rfl⟩
  | name | callPair => cases signed_inj htree

theorem callPair {negative : Bool} {token after middle : List Char} {separator : Char}
    {htoken : IsToken token} {hend : AtDelimiter after} {hname : ¬ Numeral.IsNumeral token}
    {hminus : token ≠ minusName} {before : Skips after ('(' :: start)}
    {first : Derivation .formula start (separator :: middle)}
    {hseparator : separator = ',' ∨ separator = ';'}
    {second : Derivation .formula middle (')' :: rest)} (ih : Determined first)
    (ih' : Determined second) :
    Determined (.callPair token htoken hend hname hminus before first hseparator second :
      Derivation (.value negative) _ _) := by
  rintro text' rest' d' htext htree
  cases d' with
  | literal token' htoken' hend' number' hnumber' =>
    obtain ⟨rfl, rfl⟩ := htoken.unique htoken' hend hend' htext
    exact absurd ((literal?_eq_none_iff.2 hname).symm.trans hnumber') (by simp)
  | callPair token' htoken' hend' hname' hminus' before' first' hseparator' second' =>
    obtain ⟨rfl, rfl⟩ := htoken.unique htoken' hend hend' htext
    obtain ⟨-, rfl⟩ := List.cons.inj (before.unique before' rfl rfl)
    obtain ⟨-, htree₁, htree₂⟩ := Formula.callPair.inj (signed_inj htree)
    obtain ⟨hmiddle, hfirst⟩ := ih first' rfl htree₁
    obtain ⟨rfl, rfl⟩ := hmiddle.closer (mem_closers hseparator) (mem_closers hseparator')
    obtain rfl := eq_of_heq (hfirst rfl)
    obtain ⟨hlast, hsecond⟩ := ih' second' rfl htree₂
    obtain ⟨-, rfl⟩ := hlast.closer (by decide) (by decide)
    obtain rfl := eq_of_heq (hsecond rfl)
    exact ⟨rfl, fun _ => HEq.rfl⟩
  | name | call => cases signed_inj htree

end Determined

/-- A derivation is determined by its text and its tree. -/
theorem Derivation.determined {category : Category} {text rest : List Char}
    (d : Derivation category text rest) : Determined d := by
  induction d with
  | plain _ _ _ ih => exact Determined.plain ih
  | conditional _ _ _ _ _ ih ih₁ ih₂ => exact Determined.conditional ih ih₁ ih₂
  | operand _ ih => exact Determined.operand ih
  | join _ _ _ _ _ _ _ ih ih' => exact Determined.join ih ih'
  | group _ ih => exact Determined.group ih
  | marked => exact Determined.marked
  | unsigned _ _ ih => exact Determined.unsigned ih
  | negatedGroup _ _ ih => exact Determined.negatedGroup ih
  | negatedMarked => exact Determined.negatedMarked
  | negatedValue _ _ _ ih => exact Determined.negatedValue ih
  | literal => exact Determined.literal
  | name => exact Determined.name
  | call _ _ _ _ _ _ ih => exact Determined.call ih
  | callPair _ _ _ _ _ _ _ _ _ ih ih' => exact Determined.callPair ih ih'

/-- A reading gives the tree of every derivation, so that all derivations have one tree. -/
theorem Derivation.tree_eq {text rest rest' : List Char} (d : Derivation .formula text rest)
    (d' : Derivation .formula text rest') (hends : Ends .formula (dropBlanks rest))
    (hends' : Ends .formula (dropBlanks rest')) : d.tree = d'.tree := by
  have hd := d.reads (Nat.le_max_left _ d'.depth) hends
  have hd' := d'.reads (Nat.le_max_right d.depth _) hends'
  exact (Prod.mk.inj (Except.ok.inj (hd.symm.trans hd'))).1

/-- A text has at most one derivation as a whole formula. -/
theorem Derivation.subsingleton (text : List Char) : Subsingleton (Derivation .formula text []) := by
  refine ⟨fun d d' => ?_⟩
  have htree := d.tree_eq d' ⟨by simp, rfl⟩ ⟨by simp, rfl⟩
  exact eq_of_heq ((d.determined d' rfl htree).2 rfl)

end Grammar

end Drafting
