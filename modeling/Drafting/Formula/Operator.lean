/-!
# Operators

The eleven operators between two operands, from the loosest binding to the tightest on five levels.
The conditional `c ? t : f` binds loosest of all and has the first level to itself.

## Main definitions

* `Operator` — the operators.
* `Operator.symbol`, `Operator.elementName` — how formula text and documents write them.
* `Operator.level` — how tightly they bind.
-/

namespace Drafting

inductive Operator
  | add
  | subtract
  | multiply
  | divide
  | power
  | greater
  | less
  | greaterOrEqual
  | lessOrEqual
  | equal
  | notEqual
deriving DecidableEq, Repr

namespace Operator

/-- The operators in the order in which they are listed to a reader. -/
def all : List Operator :=
  [add, subtract, multiply, divide, power, greater, less, greaterOrEqual, lessOrEqual, equal,
    notEqual]

theorem mem_all (op : Operator) : op ∈ all := by cases op <;> decide

def symbol : Operator → List Char
  | add => ['+']
  | subtract => ['-']
  | multiply => ['*']
  | divide => ['/']
  | power => ['^']
  | greater => ['>']
  | less => ['<']
  | greaterOrEqual => ['>', '=']
  | lessOrEqual => ['<', '=']
  | equal => ['=', '=']
  | notEqual => ['!', '=']

/-- The word that a document uses for the operator. -/
def elementName : Operator → List Char
  | add => "add".toList
  | subtract => "subtract".toList
  | multiply => "multiply".toList
  | divide => "divide".toList
  | power => "power".toList
  | greater => "greaterThan".toList
  | less => "lessThan".toList
  | greaterOrEqual => "greaterThanOrEqual".toList
  | lessOrEqual => "lessThanOrEqual".toList
  | equal => "equalTo".toList
  | notEqual => "notEqualTo".toList

/-- The operator that a document calls by a given word. -/
def ofElementName? (name : List Char) : Option Operator := all.find? (·.elementName = name)

/-- The level of the conditional. -/
def conditionalLevel : Int := 1

/-- The binding strength: comparisons bind loosest, then sums, then products, then powers. -/
def level : Operator → Int
  | greater | less | greaterOrEqual | lessOrEqual | equal | notEqual => 2
  | add | subtract => 3
  | multiply | divide => 4
  | power => 5

theorem conditionalLevel_lt_level (op : Operator) : conditionalLevel < op.level := by
  cases op <;> decide

theorem level_le_five (op : Operator) : op.level ≤ 5 := by cases op <;> decide

end Operator

end Drafting
