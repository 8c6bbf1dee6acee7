import Drafting.Engine.Basic

/-!
# Atoms

The operands that hold no operator outside parentheses: numbers, names, calls, groups, and each of
these with a minus sign in front. What stands inside parentheses is read by `nested`, a reading of
one formula that the caller supplies.

A minus sign becomes part of the number it stands before. Before anything else it is a call of the
function `-`, and the parentheses of a group after it are those of that call.

## Main definitions

* `group`, `callOf`, `value` — the kinds of atom.
* `atom` — any atom.
-/

namespace Drafting.Engine

open Grammar (literal? startsNoOperand separates)

variable {m : Type → Type} {π τ : Type} [Monad m] [Engine m π τ]

/-- The call that a minus sign before an operand stands for. -/
def negation (operand : τ) : m τ := build (.call minusName operand)

/-- The name after the sign of a mark. -/
def markedName (mark : Mark) : m τ := do build (.reference mark (← takeToken))

section

variable (nested : m τ)

/-- A formula in parentheses. -/
def group : m τ := do
  take '('
  let inner ← nested
  skipBlanks
  take ')'
  return inner

/-- The arguments of a call, in parentheses. The function `-` takes one, any other one or two. -/
def callOf (function : List Char) : m τ := do
  take '('
  let first ← nested
  skipBlanks
  if (← peek).any separates ∧ function ≠ minusName then
    let _ ← advance
    let second ← nested
    skipBlanks
    take ')'
    build (.callPair function first second)
  else
    take ')'
    build (.call function first)

/-- A name, or a call when parentheses follow the name. -/
def named (name : List Char) : m τ := do
  skipBlanks
  if (← peek) = some '(' then callOf nested name else build (.reference .plain name)

/-- A number, a name or a call, with `negative` saying that a minus sign was read before it. -/
def value (negative : Bool) : m τ := do
  let start ← place
  let token ← takeToken
  match literal? negative token with
  | .error cause => refuse cause start
  | .ok (some literal) => build (.number literal)
  | .ok none =>
    let operand ← named nested token
    if negative then negation operand else return operand

/-- What follows a minus sign. -/
def negated : m τ := do
  match ← peek with
  | none => value nested true
  | some c =>
    if c = '(' then negation (← group nested)
    else match Mark.ofSign? c with
      | some mark =>
        let _ ← advance
        negation (← markedName mark)
      | none => value nested true

/-- Any atom. -/
def atom : m τ := do
  match ← peek with
  | none => value nested false
  | some c =>
    if startsNoOperand c then refuseHere (.misplacedOperator c)
    else if c = '(' then build (.parenthesized (← group nested))
    else if c = '-' then
      let _ ← advance
      skipBlanks
      negated nested
    else match Mark.ofSign? c with
      | some mark =>
        let _ ← advance
        markedName mark
      | none => value nested false

end

end Drafting.Engine
