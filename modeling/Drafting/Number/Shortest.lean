import Drafting.Number.Binary64
import Drafting.Number.Numeral

/-!
# Shortest decimal text

How a binary64 number is written. Of the decimals that read back as the number, the ones on the
coarsest grid of powers of ten have the fewest digits; of these the nearest to the number is taken,
and of two equally near ones the even one. A point of a grid reads back only if one of the two
points around the number does, so that two candidates decide each grid. The text is positional and
always has a fractional part.

## Main definitions

* `Binary64.onGrid?` — the point of a grid that reads back.
* `Binary64.shortest` — the first such point from the coarse grids to the fine ones.
* `Binary64.text` — the number as text.
* `Binary64.shown` — the number as a message shows it.
-/

namespace Drafting

-- Powers are those of the core library, also beside libraries with a power of their own.
attribute [local instance (high)] instPowNat

namespace Binary64

/-- The value of a magnitude over ten to the `exponent`, as a fraction of natural numbers. -/
def gridFraction (magnitude : Nat) : Int → Nat × Nat
  | .ofNat power => (units magnitude, 2 ^ (1074 : Nat) * 10 ^ power)
  | .negSucc power => (units magnitude * 10 ^ (power + 1), 2 ^ (1074 : Nat))

/-- The multiple of ten to the `exponent` that reads back as the magnitude: the nearest one if it
does, else the neighbour on the other side. -/
def onGrid? (magnitude : Nat) (exponent : Int) : Option Nat :=
  let (numerator, denominator) := gridFraction magnitude exponent
  let lower := numerator / denominator
  let nearer := roundEven numerator denominator
  let farther := if nearer = lower then lower + 1 else lower
  [nearer, farther].find? fun point => nearestDecimal point exponent = magnitude

/-- The search over the grids of ten to the `grids - 1074` and below. The grid of ten to the `-1074`
holds every finite value itself. -/
def shortestFrom (magnitude : Nat) : Nat → Nat × Int
  | 0 => (units magnitude * 5 ^ (1074 : Nat), -1074)
  | grids + 1 =>
    let exponent := (grids : Int) - 1073
    match onGrid? magnitude exponent with
    | some point => (point, exponent)
    | none => shortestFrom magnitude grids

/-- The shortest decimal of a magnitude: a coefficient and a power of ten. The search starts at the
power of ten next above the whole part. -/
def shortest (magnitude : Nat) : Nat × Int :=
  shortestFrom magnitude ((decimalDigits (units magnitude / 2 ^ (1074 : Nat))).length + 1074)

/-- Digits without the zeros at their end, but at least one. -/
def trimFraction (digits : List Char) : List Char :=
  let kept := (digits.reverse.dropWhile (· = '0')).reverse
  if kept = [] then ['0'] else kept

/-- A decimal written out with a point and at least one digit on each side of it. -/
def positional (coefficient : Nat) : Int → List Char
  | .ofNat power => decimalDigits (coefficient * 10 ^ power) ++ ['.', '0']
  | .negSucc power =>
    let places := power + 1
    let digits := decimalDigits (coefficient % 10 ^ places)
    decimalDigits (coefficient / 10 ^ places) ++
      '.' :: trimFraction (List.replicate (places - digits.length) '0' ++ digits)

/-- The text of a magnitude up to infinity. -/
def magnitudeText (magnitude : Nat) : List Char :=
  if magnitude < infinite then
    let decimal := shortest magnitude
    positional decimal.1 decimal.2
  else "inf.0".toList

/-- The number as text. A NaN shows no sign. -/
def text (x : Binary64) : List Char :=
  if infinite < x.magnitude then "nan.0".toList
  else if x.negative then '-' :: magnitudeText x.magnitude
  else magnitudeText x.magnitude

/-- Digits with the point after the first one, times a power of ten. -/
def scientific (digits : List Char) (power : Int) : List Char :=
  let places := decimalDigits power.natAbs
  let fraction := if digits.length = 1 then [] else '.' :: digits.drop 1
  digits.take 1 ++ fraction ++ 'e' :: (if power < 0 then '-' else '+') ::
    (List.replicate (2 - places.length) '0' ++ places)

/-- How a magnitude is shown: in full only if its first digit is at most sixteen places before the
point and at most four places behind it. -/
def shownMagnitude (magnitude : Nat) : List Char :=
  if magnitude < infinite then
    let decimal := shortest magnitude
    let digits := decimalDigits decimal.1
    let point := digits.length + decimal.2
    if -4 < point ∧ point ≤ 16 then positional decimal.1 decimal.2
    else scientific digits (point - 1)
  else "inf".toList

/-- The number as a message shows it, with the same digits as in a formula. -/
def shown (x : Binary64) : List Char :=
  if infinite < x.magnitude then "nan".toList
  else if x.negative then '-' :: shownMagnitude x.magnitude
  else shownMagnitude x.magnitude

end Binary64

end Drafting
