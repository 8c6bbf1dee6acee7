import Drafting.Diagnostic.Cause
import Drafting.Formula.Basic
import Drafting.Number.Numeral

/-!
# Lexemes

What characters and tokens stand for where the grammar meets them.

## Main definitions

* `literal?` — the number that a token stands for.
* `Lead` — what a character announces after an operand.
-/

namespace Drafting.Grammar

/-- The number that a token stands for, its sign turned if `negative`; nothing if the token is a
name. -/
def literal? (negative : Bool) (token : List Char) : Except Cause (Option Formula) :=
  match Numeral.ofToken? token with
  | none => .ok none
  | some (.whole minus digits) =>
    if Numeral.digitLimit < digits.length then .error (.tooManyDigits token digits.length)
    else
      let magnitude := (digitsValue digits : Int)
      .ok (some (.integer (if minus = negative then magnitude else -magnitude)))
  | some (.decimal minus coefficient exponent) =>
    let value := Binary64.ofDecimal (minus != negative) coefficient exponent
    if value.isFinite then .ok (some (.decimal value)) else .error (.outOfRange token)

/-- The operators that are never the first character of an operand. -/
def startsNoOperand (c : Char) : Bool := ['+', '*', '/', '^'].contains c

/-- Whether a character separates the arguments of a call. -/
def separates (c : Char) : Bool := c = ',' || c = ';'

/-- What a character announces after an operand: a conditional, or an operator. Where an operator of
two characters may follow, the announced one may still be corrected by the second character. -/
inductive Lead
  | question
  | operator (op : Operator)
deriving DecidableEq, Repr

namespace Lead

def ofChar? : Char → Option Lead
  | '*' => some (operator .multiply)
  | '+' => some (operator .add)
  | '/' => some (operator .divide)
  | '-' => some (operator .subtract)
  | '^' => some (operator .power)
  | '?' => some question
  | '>' => some (operator .greater)
  | '<' => some (operator .less)
  | '=' => some (operator .equal)
  | '!' => some (operator .notEqual)
  | _ => none

def level : Lead → Int
  | question => Operator.conditionalLevel
  | operator op => op.level

end Lead

end Drafting.Grammar
