import Drafting.Formula.Basic
import Drafting.Number.Basic

/-!
# Rendering styles

A style says, for each kind of node, how the node is made from the renderings of its parts. A formula
has a rendering in every style.

## Main definitions

* `Style` — one function for each kind of node.
* `Formula.render` — the rendering of a formula.
-/

namespace Drafting

/-- How each kind of node is rendered. A reference is given with its full name. -/
structure Style (α : Type) where
  integer : Number → α
  decimal : Number → α
  reference : Mark → List Char → α
  parenthesized : α → α
  call : List Char → α → α
  callPair : List Char → α → α → α
  binary : α → Operator → α → α
  conditional : α → α → α → α

/-- The rendering of a formula, from its leaves upwards. -/
def Formula.render {α : Type} (style : Style α) : Formula → α
  | integer value => style.integer (.whole value)
  | decimal value => style.decimal (.binary value)
  | reference mark stem => style.reference mark (mark.sign ++ stem)
  | parenthesized inner => style.parenthesized (inner.render style)
  | call function argument => style.call function (argument.render style)
  | callPair function first second =>
    style.callPair function (first.render style) (second.render style)
  | binary left operator right => style.binary (left.render style) operator (right.render style)
  | conditional condition whenTrue whenFalse =>
    style.conditional (condition.render style) (whenTrue.render style) (whenFalse.render style)

end Drafting
