import Drafting.Formula.Basic
import Drafting.Formula.Foreign
import Drafting.Text.Quoted

/-!
# Assemblies

Trees put together by a caller rather than read from a text. An assembly may hold what no formula
holds: an operator that is not one of the eleven, a foreign value in the place of a subtree, either
kind of number in either kind of literal. Every formula is an assembly.

## Main definitions

* `Assembly` — the tree.
* `Assembly.reference?`, `Assembly.callPair?` — the two constructors that can refuse.
* `Assembly.same` — equality of assemblies, numbers by value.
* `Formula.toAssembly` — a formula as an assembly.
-/

namespace Drafting

/-- What stands between the operands of an operation: an operator, or any other value in its place. -/
inductive Joint
  | known (operator : Operator)
  | unknown (value : Foreign)
deriving DecidableEq, Repr

/-- Equality of what joins operands, other values by `Foreign.same`. -/
def Joint.same : Joint → Joint → Bool
  | known a, known b => a = b
  | unknown v, unknown w => v.same w
  | _, _ => false

inductive Assembly
  | integer (value : Number)
  | decimal (value : Number)
  | reference (mark : Mark) (stem : List Char)
  | parenthesized (inner : Assembly)
  | call (function : List Char) (argument : Assembly)
  | callPair (function : List Char) (first second : Assembly)
  | binary (left : Assembly) (joint : Joint) (right : Assembly)
  | conditional (condition whenTrue whenFalse : Assembly)
  | foreign (value : Foreign)
deriving DecidableEq, Repr

/-- Why a node cannot be put together. -/
inductive Misfit
  /-- The name does not start with the sign of its mark. -/
  | unsigned (mark : Mark) (name : List Char)
  /-- A negation has two operands. -/
  | doubleNegation
deriving DecidableEq, Repr

namespace Misfit

/-- The word for a mark in a message. -/
def markWord : Mark → String
  | .plain => "PLAIN"
  | .custom => "CUSTOM"
  | .hashed => "HASHED"

def message : Misfit → String
  | unsigned mark name =>
    markWord mark ++ " reference must start with '" ++ String.ofList mark.sign ++ "': " ++
      String.ofList (quoted name)
  | doubleNegation => "unary negation takes exactly one argument"

end Misfit

namespace Assembly

/-- A name given in full. The sign of its mark must come first. -/
def reference? (mark : Mark) (name : List Char) : Except Misfit Assembly :=
  match mark.sign.isPrefixOf? name with
  | some stem => .ok (reference mark stem)
  | none => .error (.unsigned mark name)

/-- A call with two arguments, of any function but the negation. -/
def callPair? (function : List Char) (first second : Assembly) : Except Misfit Assembly :=
  if function = minusName then .error .doubleNegation else .ok (callPair function first second)

/-- Equality node by node, numbers by value. -/
def same : Assembly → Assembly → Bool
  | integer m, integer n => m.same n
  | decimal m, decimal n => m.same n
  | reference mark stem, reference mark' stem' => mark = mark' && stem = stem'
  | parenthesized a, parenthesized b => a.same b
  | call f a, call g b => f = g && a.same b
  | callPair f a a', callPair g b b' => f = g && a.same b && a'.same b'
  | binary a op a', binary b op' b' => a.same b && op.same op' && a'.same b'
  | conditional a a' a'', conditional b b' b'' => a.same b && a'.same b' && a''.same b''
  | foreign v, foreign w => v.same w
  | _, _ => false

end Assembly

/-- Every formula can be put together by hand. -/
def Formula.toAssembly : Formula → Assembly
  | integer value => .integer (.whole value)
  | decimal value => .decimal (.binary value)
  | reference mark stem => .reference mark stem
  | parenthesized inner => .parenthesized inner.toAssembly
  | call function argument => .call function argument.toAssembly
  | callPair function first second => .callPair function first.toAssembly second.toAssembly
  | binary left operator right => .binary left.toAssembly (.known operator) right.toAssembly
  | conditional condition whenTrue whenFalse =>
    .conditional condition.toAssembly whenTrue.toAssembly whenFalse.toAssembly

/-- Equality of formulas, numbers by value: both zeros are one number. -/
def Formula.same (a b : Formula) : Bool := a.toAssembly.same b.toAssembly

end Drafting
