import Drafting.Formula.Walk
import Drafting.Rendering.Style

/-!
# Canonical text

The formula text without any blanks and with no parentheses but those that the drafter wrote. A minus
sign is written in front of its operand.

## Main definitions

* `canonical` — the canonical text of a formula.
* `canonical?` — the canonical text of an assembly, or what is in its way.
-/

namespace Drafting.Rendering

def canonicalStyle : Style (List Char) where
  integer value := value.text
  decimal value := value.text
  reference _ name := name
  parenthesized inner := ["(".toList, inner, ")".toList].flatten
  call function argument :=
    if function = minusName then function ++ argument
    else [function, "(".toList, argument, ")".toList].flatten
  callPair function first second :=
    if function = minusName then function ++ first
    else [function, "(".toList, first, ",".toList, second, ")".toList].flatten
  binary left operator right := [left, operator.symbol, right].flatten
  conditional condition whenTrue whenFalse :=
    [condition, "?".toList, whenTrue, ":".toList, whenFalse].flatten

/-- The canonical text of a formula. -/
def canonical (formula : Formula) : List Char := formula.render canonicalStyle

/-- The canonical text of an assembly. Of a negation, only the first argument is looked at. -/
def canonical? : Assembly → Except Defect (List Char)
  | .integer value | .decimal value => return value.text
  | .reference mark stem => return mark.sign ++ stem
  | .parenthesized inner => do return ["(".toList, ← canonical? inner, ")".toList].flatten
  | .call function argument => do
    if function = minusName then return minusName ++ (← canonical? argument)
    else
      let text := [function, "(".toList, ← canonical? argument].flatten
      return text ++ ")".toList
  | .callPair function first second => do
    if function = minusName then return minusName ++ (← canonical? first)
    else
      let text := [function, "(".toList, ← canonical? first].flatten
      let text := [text, ",".toList, ← canonical? second].flatten
      return text ++ ")".toList
  | .binary left joint right => do
    let symbol ← joint.symbol?
    return [← canonical? left, symbol, ← canonical? right].flatten
  | .conditional condition whenTrue whenFalse => do
    return [← canonical? condition, "?".toList, ← canonical? whenTrue, ":".toList,
      ← canonical? whenFalse].flatten
  | .foreign value => throw (.foreign value)

end Drafting.Rendering
