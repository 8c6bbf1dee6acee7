import Drafting.Formula.Walk
import Drafting.Rendering.Style

/-!
# Debug text

The rendering that shows how a formula was grouped: every operation stands in brackets, whole numbers
end in `I` and decimals in `D`. A minus sign shows as a call, `-(x)`.

For instance `a + 5 / 2` becomes ` [a +  [ 5I  /  2I ] ] `.

## Main definitions

* `debug` — the debug text of a formula.
* `debug?` — the debug text of an assembly, or what is in its way.
-/

namespace Drafting.Rendering

def debugStyle : Style (List Char) where
  integer value := [" ".toList, value.text, "I ".toList].flatten
  decimal value := [" ".toList, value.text, "D ".toList].flatten
  reference _ name := name
  parenthesized inner := ["(".toList, inner, ")".toList].flatten
  call function argument := [function, "(".toList, argument, ")".toList].flatten
  callPair function first second :=
    [function, "(".toList, first, ",".toList, second, ")".toList].flatten
  binary left operator right :=
    [" [".toList, left, " ".toList, operator.symbol, " ".toList, right, "] ".toList].flatten
  conditional condition whenTrue whenFalse :=
    [" [".toList, condition, " ? ".toList, whenTrue, ": ".toList, whenFalse, "] ".toList].flatten

/-- The debug text of a formula. -/
def debug (formula : Formula) : List Char := formula.render debugStyle

/-- The debug text of an assembly. -/
def debug? : Assembly → Except Defect (List Char)
  | .integer value => return [" ".toList, value.text, "I ".toList].flatten
  | .decimal value => return [" ".toList, value.text, "D ".toList].flatten
  | .reference mark stem => return mark.sign ++ stem
  | .parenthesized inner => do return ["(".toList, ← debug? inner, ")".toList].flatten
  | .call function argument => do
    let text := [function, "(".toList, ← debug? argument].flatten
    return text ++ ")".toList
  | .callPair function first second => do
    let text := [function, "(".toList, ← debug? first].flatten
    let text := [text, ",".toList, ← debug? second].flatten
    return text ++ ")".toList
  | .binary left joint right => do
    let symbol ← joint.symbol?
    return [" [".toList, ← debug? left, " ".toList, symbol, " ".toList, ← debug? right,
      "] ".toList].flatten
  | .conditional condition whenTrue whenFalse => do
    return [" [".toList, ← debug? condition, " ? ".toList, ← debug? whenTrue, ": ".toList,
      ← debug? whenFalse, "] ".toList].flatten
  | .foreign value => throw (.foreign value)

end Drafting.Rendering
