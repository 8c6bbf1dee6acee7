import Drafting.Engine.Atom

/-!
# Operands

Atoms joined by operators. An operand is read above a level: it takes in every operator that binds
tighter than the level and leaves the first that does not to the caller. The right side of an
operator is an operand above the operator's own level, so that operators of one level group to the
left.

## Main definitions

* `readOperator` — takes an operator of one or two characters.
* `looping` — lets a tree grow round by round.
* `operandOf` — an atom and the operators above a level, their right sides read by the caller.
* `operand` — an atom and the operators above a level.
-/

namespace Drafting.Engine

open Grammar (Lead)

variable {m : Type → Type} {π τ : Type} [Monad m] [Engine m π τ]

/-! ## Operators -/

/-- What the character ahead announces. -/
def peekLead : m (Option Lead) := return (← peek).bind Lead.ofChar?

/-- The operator with `=` after its sign if that comes next, and otherwise the one without. -/
def orEqual (alone withEqual : Operator) : m Operator := do
  if (← peek) = some '=' then
    let _ ← advance
    return withEqual
  else return alone

/-- Takes an announced operator. The signs `>` and `<` may be followed by `=`, the signs `=` and `!`
must be. -/
def readOperator (announced : Operator) : m Operator := do
  let _ ← advance
  match announced with
  | .greater => orEqual .greater .greaterOrEqual
  | .less => orEqual .less .lessOrEqual
  | .equal | .notEqual =>
    take '='
    return announced
  | _ => return announced

/-- The operation of an announced operator on what is to its left, with a right side above the level
found for it. -/
def operation (operand : Int → m τ) (announced : Operator) (found : Int) (left : τ) : m τ := do
  let op ← readOperator announced
  skipBlanks
  let right ← operand found
  build (.binary left op right)

/-! ## Loops -/

/-- Lets a tree grow in rounds, each of which takes something in, until one finds nothing. -/
def repeating (round : τ → m (Option τ)) : Nat → τ → m τ
  | 0, tree => giveUp tree
  | rounds + 1, tree => do
    match ← round tree with
    | none => return tree
    | some grown => repeating round rounds grown

/-- As every round takes at least a character, there are rounds enough. -/
def looping (round : τ → m (Option τ)) (tree : τ) : m τ := do repeating round (← rounds) tree

/-- Takes in an operator above a level. -/
def climb (operand : Int → m τ) (level : Int) (left : τ) : m (Option τ) := do
  match ← peekLead with
  | none | some .question => return none
  | some (.operator announced) =>
    let found ← levelOf (.operator announced)
    if found ≤ level then return none
    else
      let joined ← operation operand announced found left
      skipBlanks
      return some joined

/-- An atom and the operators above a level, with the right side of each read by `operand`. -/
def operandOf (nested : m τ) (operand : Int → m τ) (level : Int) : m τ := do
  let first ← atom nested
  skipBlanks
  looping (climb operand level) first

/-- An operand above a level. The operands on its right go one round deeper, and so on. -/
def operandWithin (nested : m τ) : Nat → Int → m τ
  | 0, _ => do giveUp (← atom nested)
  | rounds + 1, level => operandOf nested (operandWithin nested rounds) level

/-- An operand above a level. -/
def operand (nested : m τ) (level : Int) : m τ := do operandWithin nested (← rounds) level

end Drafting.Engine
