import Drafting.Formula.Operator
import Drafting.Number.Binary64

/-!
# Formulas

The tree of a formula: numbers, names, groups, calls, operations and conditionals. Parentheses that
the drafter wrote are kept as nodes, so that the text can be given back. A minus sign in front of
anything but a number is a call of the function named `-`.

## Main definitions

* `Mark` — how a name is marked: not at all, as a custom variable, or as a measurement.
* `Formula` — the tree.
* `Formula.negation` — the call that a leading minus sign stands for.
-/

namespace Drafting

/-- The marking of a name by the sign in front of it. -/
inductive Mark
  | plain
  | custom
  | hashed
deriving DecidableEq, Repr

namespace Mark

def all : List Mark := [plain, custom, hashed]

theorem mem_all (mark : Mark) : mark ∈ all := by cases mark <;> decide

/-- The sign written in front of the name. -/
def sign : Mark → List Char
  | plain => []
  | custom => ['@']
  | hashed => ['#']

/-- The mark that a sign stands for. -/
def ofSign? : Char → Option Mark
  | '@' => some custom
  | '#' => some hashed
  | _ => none

end Mark

/-- The name of the function that a leading minus sign calls. -/
def minusName : List Char := ['-']

inductive Formula
  | integer (value : Int)
  | decimal (value : Binary64)
  /-- A name; the stem is what follows the sign of its mark. -/
  | reference (mark : Mark) (stem : List Char)
  | parenthesized (inner : Formula)
  | call (function : List Char) (argument : Formula)
  | callPair (function : List Char) (first second : Formula)
  | binary (left : Formula) (operator : Operator) (right : Formula)
  | conditional (condition whenTrue whenFalse : Formula)
deriving DecidableEq, Repr

namespace Formula

/-- The formula with a minus sign in front. -/
def negation (operand : Formula) : Formula := call minusName operand

end Formula

end Drafting
