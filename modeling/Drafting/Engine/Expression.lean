import Drafting.Engine.Operand

/-!
# Expressions

Operands joined by operators from a level upwards, and conditionals. An expression may be nested in
groups, arguments and branches only so deep: it is read with a number of levels of room, itself
included, and is refused before its first character when there is none.

## Main definitions

* `branches` — the two branches of a conditional.
* `expressionOf` — an expression from a level upwards, its parts read by the caller.
* `expression` — an expression from a level upwards.
* `formula` — a whole formula text.
-/

namespace Drafting.Engine

variable {m : Type → Type} {π τ : Type} [Monad m] [Engine m π τ]

/-- The two branches of a conditional after its condition. -/
def branches (nested : m τ) (condition : τ) : m τ := do
  take '?'
  skipBlanks
  let whenTrue ← nested
  skipBlanks
  take ':'
  skipBlanks
  let whenFalse ← nested
  build (.conditional condition whenTrue whenFalse)

/-- Takes in an operator from a level upwards, or a conditional where the level allows it. -/
def chain (nested : m τ) (operand : Int → m τ) (level : Int) (left : τ) : m (Option τ) := do
  match ← peekLead with
  | none => return none
  | some lead =>
    let found ← levelOf lead
    if found < level then return none
    else
      let joined ← match lead with
        | .question => branches nested left
        | .operator announced => operation operand announced found left
      skipBlanks
      return some joined

/-- An expression from a level upwards, with its operands read by `operand`. -/
def expressionOf (nested : m τ) (operand : Int → m τ) (level : Int) : m τ := do
  skipBlanks
  let first ← operand level
  skipBlanks
  looping (chain nested operand level) first

/-- An expression from a level upwards, with the room it may take. What is nested in it starts from
the level of the conditional and has one level of room less. -/
def expression : Nat → Int → m τ
  | 0, _ => refuseHere .tooDeep
  | room + 1, level =>
    let nested := expression room Operator.conditionalLevel
    expressionOf nested (operand nested) level

/-- The end of a whole text, where a strict reading refuses anything but blanks. -/
def ending (strict : Bool) (tree : τ) : m τ := do
  if strict then
    skipBlanks
    match ← peek with
    | none => return tree
    | some _ => refuseHere .trailingText
  else return tree

/-- A whole formula. -/
def formula (room : Nat) (strict : Bool) : m τ := do
  ending strict (← expression room Operator.conditionalLevel)

end Drafting.Engine
