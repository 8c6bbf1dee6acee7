import Drafting.Number.Numeral
import Drafting.Text.DecimalDigit

/-!
# Whole numbers as arguments

How a whole number is written on a command line: an optional sign and decimal digits of any script,
between any spaces. Single underscores may stand between digits.

## Main definitions

* `readInteger?` — the number that an argument stands for.
-/

namespace Drafting.CommandLine

/-- The values of a run of digits, each followed by the next digit, by one underscore and the next
digit, or by nothing. -/
def digitValues? : List Char → Option (List Nat)
  | [] => none
  | [c] => (decimalDigit? c).map ([·])
  | c :: '_' :: rest => do return (← decimalDigit? c) :: (← digitValues? rest)
  | c :: rest => do return (← decimalDigit? c) :: (← digitValues? rest)

/-- A text without the spaces at its start and at its end. -/
def trimSpacing (text : List Char) : List Char :=
  ((text.dropWhile isSpacing).reverse.dropWhile isSpacing).reverse

/-- The number that an argument stands for. Like a numeral in a formula, it may have no more than
`Numeral.digitLimit` digits. -/
def readInteger? (text : List Char) : Option Int := do
  let (negative, unsigned) := Numeral.splitSign (trimSpacing text)
  let values ← digitValues? unsigned
  if Numeral.digitLimit < values.length then none
  else
    let magnitude : Nat := values.foldl (fun n d => 10 * n + d) 0
    return if negative then -(magnitude : Int) else magnitude

end Drafting.CommandLine
