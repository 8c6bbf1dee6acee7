/-!
# Numerals

Recognition of the tokens that are numbers. A whole numeral is a sign and digits; a decimal numeral
has digits with a point among, before or after them, or a power of ten, or both. Only the ten digits
of the ASCII range count. Any other token is a name.

## Main definitions

* `Numeral` — what a numeral says, before any rounding.
* `Numeral.ofToken?` — the reading of a token.
* `Numeral.digitLimit` — how many digits a whole numeral may have.
-/

namespace Drafting

/-- The value of a run of ASCII digits; the empty run is zero. -/
def digitsValue (digits : List Char) : Nat := Nat.ofDigitChars 10 digits 0

/-- The ASCII digits of a number, without leading zeros. -/
def decimalDigits (n : Nat) : List Char := Nat.toDigits 10 n

theorem digitsValue_decimalDigits (n : Nat) : digitsValue (decimalDigits n) = n :=
  Nat.ofDigitChars_toDigits (by decide) (by decide)

/-- A numeral, exactly as written. -/
inductive Numeral
  /-- Digits alone, kept so that they can be counted. -/
  | whole (negative : Bool) (digits : List Char)
  /-- A decimal: the coefficient times ten to the exponent. -/
  | decimal (negative : Bool) (coefficient : Nat) (exponent : Int)
deriving DecidableEq, Repr

namespace Numeral

/-- The longest whole numeral that is read. -/
def digitLimit : Nat := 4300

/-- An optional sign, and the text after it. -/
def splitSign : List Char → Bool × List Char
  | '-' :: text => (true, text)
  | '+' :: text => (false, text)
  | text => (false, text)

/-- The digits that a text starts with, and the text after them. -/
def splitDigits (text : List Char) : List Char × List Char :=
  (text.takeWhile Char.isDigit, text.dropWhile Char.isDigit)

/-- The power of ten at the end of a decimal numeral, zero when there is nothing left to read. -/
def exponentOf? : List Char → Option Int
  | [] => some 0
  | mark :: text =>
    let (negative, digits) := splitSign text
    if (mark = 'e' ∨ mark = 'E') ∧ digits ≠ [] ∧ digits.all Char.isDigit then
      some (if negative then -(digitsValue digits : Int) else digitsValue digits)
    else none

/-- A decimal from the digits before and after its point and from what follows them. A digit must
stand on at least one side of the point. -/
def ofParts? (negative : Bool) (before after tail : List Char) : Option Numeral :=
  if before = [] ∧ after = [] then none
  else (exponentOf? tail).map fun exponent =>
    decimal negative (digitsValue (before ++ after)) (exponent - after.length)

/-- Reads a whole token as a numeral. -/
def ofToken? (token : List Char) : Option Numeral :=
  let (negative, unsigned) := splitSign token
  let (before, rest) := splitDigits unsigned
  match rest with
  | [] => if before = [] then none else some (whole negative before)
  | '.' :: rest =>
    let (after, tail) := splitDigits rest
    ofParts? negative before after tail
  | tail => ofParts? negative before [] tail

end Numeral

end Drafting
