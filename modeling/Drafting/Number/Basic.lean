import Drafting.Number.Shortest

/-!
# Numbers

The numbers that a literal may hold, whole or binary, with their text and their equality.

## Main definitions

* `Number.text` — the text of a number.
* `Number.same` — equality by value, across the two kinds.
-/

namespace Drafting

-- Powers are those of the core library, also beside libraries with a power of their own.
attribute [local instance (high)] instPowNat

/-- The plain decimal text of a whole number. -/
def wholeText : Int → List Char
  | .ofNat n => decimalDigits n
  | .negSucc n => '-' :: decimalDigits (n + 1)

inductive Number
  | whole (value : Int)
  | binary (value : Binary64)
deriving DecidableEq, Repr

namespace Number

def text : Number → List Char
  | whole value => wholeText value
  | binary value => value.text

/-- The value of a finite number in units of `2 ^ -1074`. -/
def units? : Number → Option Int
  | whole value => some (value * 2 ^ (1074 : Nat))
  | binary value =>
    if value.isFinite then
      some (if value.negative then -(Binary64.units value.magnitude : Int)
        else Binary64.units value.magnitude)
    else none

/-- Equality by value: both zeros are one number, a whole number equals the binary number of the
same value, an infinity equals only itself and a NaN equals nothing. -/
def same (a b : Number) : Bool :=
  match a.units?, b.units? with
  | some m, some n => m = n
  | none, none =>
    match a, b with
    | binary x, binary y => x = y && x.magnitude = Binary64.infinite
    | _, _ => false
  | _, _ => false

end Number

end Drafting
