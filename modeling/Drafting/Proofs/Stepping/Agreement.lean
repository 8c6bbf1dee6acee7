import Drafting.Proofs.Grammar.Simulation
import Drafting.Proofs.Stepping.Follows

/-!
# The stepwise reading is the reading

The actions on a cursor follow the operations of a text, and so the stepwise reading is the reading.
Every operator that is announced has a level, and the parts of a node fit together unless a negation
is given two arguments, which the grammar never does.

## Main definitions

* `following` — the engine of actions as one that follows the text.

Main statements: `expression_follows`, `operand_follows` and `formula_follows`.
-/

namespace Drafting.Stepping

open Grammar (Lead Simulation Shortens)

variable {α β : Type} {f : β → α} {start : Cursor} {text : List Char}

theorem lookup_levels (lead : Lead) : levels.lookup lead = some lead.level := by
  cases lead with
  | question => rfl
  | operator op => cases op <;> rfl

theorem levelOf_eq (lead : Lead) : levelOf lead = pure lead.level := by
  simp [levelOf, lookup_levels]

/-- The parts of a node fit together if no negation is given two operands. -/
theorem assemble_map {node : Engine.Node Formula} (h : node.Proper) :
    assemble (node.map Formula.toAssembly) = .ok (Grammar.nodeOf node).toAssembly := by
  cases node with
  | reference mark stem => cases mark <;> rfl
  | callPair function first second => exact if_neg h
  | _ => rfl

/-- Where a number is refused it was read before. -/
theorem throw_follows (f : β → α) (cause : Cause) (text : List Char) :
    Follows start f (throw (.refused cause (start.movedTo text))) (Engine.refuse cause text)
      (Grammar.Fault.unread ⟨cause, text⟩) where
  agrees _ := rfl
  suffix := by simp

theorem levelOf_follows (lead : Lead) (text : List Char) :
    Follows start id (levelOf lead) (Engine.levelOf lead) text := by
  rw [levelOf_eq]
  exact .taken id lead.level text

theorem build_follows (node : Engine.Node Formula) (h : node.Proper) (text : List Char) :
    Follows start Formula.toAssembly (build (node.map Formula.toAssembly)) (Engine.build node)
      text := by
  rw [build, assemble_map h]
  exact .taken Formula.toAssembly (Grammar.nodeOf node) text

/-- The actions on a cursor follow the readings of the text that is ahead of it. -/
def following (start : Cursor) : Simulation Action where
  tree := Formula.toAssembly
  place := start.movedTo
  Follows := Follows start
  pure_follows := .taken
  bind_follows := .bind
  peek_follows text := .of_outcome rfl (List.suffix_refl text) outcome_peek
  advance_follows c left := .of_outcome rfl (List.suffix_cons c left) outcome_advance
  skipBlanks_follows text := .of_outcome rfl (dropBlanks_suffix text) outcome_skipBlanks
  take_follows := expect_follows
  takeToken_follows := readToken_follows
  place_follows text := .of_outcome rfl (List.suffix_refl text) fun _ => outcome_get _
  refuse_follows f cause _ text := throw_follows f cause text
  levelOf_follows := levelOf_follows
  build_follows := build_follows
  rounds_follows text := .of_outcome rfl (List.suffix_refl text) outcome_rounds

/-! ## Formulas -/

theorem expression_follows (start : Cursor) (room : Nat) (level : Int) (text : List Char) :
    Follows start Formula.toAssembly (Engine.expression room level) (Grammar.expression room level)
      text := by
  induction room generalizing level text with
  | zero =>
    have hrefuse : Follows start Formula.toAssembly (refuse .tooDeep)
        (Grammar.expression 0 level) text := .refused _ rfl (Grammar.expression_zero level text)
    exact hrefuse
  | succ room ih =>
    have hsettles := Grammar.expression_settles room
    have hshortens := Grammar.operand_shortens hsettles.shortens
    have hnested := ih Operator.conditionalLevel
    have hoperand := (following start).operand hnested hsettles.shortens
    exact (following start).expressionOf hnested hsettles hshortens (hoperand level)
      (fun op => hoperand op.level) text

theorem operand_follows (start : Cursor) (room : Nat) (level : Int) (text : List Char) :
    Follows start Formula.toAssembly
      (Engine.operand (Engine.expression room Operator.conditionalLevel) level)
      (Grammar.operand (Grammar.expression room Operator.conditionalLevel) level) text :=
  (following start).operand (expression_follows start room _)
    (Grammar.expression_settles room).shortens level text

theorem formula_follows (start : Cursor) (room : Nat) (strict : Bool) (text : List Char) :
    Follows start Formula.toAssembly (Engine.formula room strict) (Grammar.formula room strict)
      text := by
  apply (expression_follows start room Operator.conditionalLevel text).bind
  intro tree left _
  exact (following start).ending strict tree left

end Drafting.Stepping
