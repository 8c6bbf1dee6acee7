import Drafting.Grammar.Basic

/-!
# Counted readings

The reading of formulas with a counter of the levels that are open. Each nested formula counts
itself in before anything else. When there are too many levels then, it is refused with the counter
as it is; otherwise it counts itself out again however it ends.

The recursion is bounded by the levels that the stack holds. That the stack gives out is one more way
to end, of a level that is already counted in and is counted out like any other.

## Main definitions

* `Stop`, `Counter`, `Counted` — how a counted reading stops early, what is done with the counter, and
  a counted reading.
* `nesting` — what is counted in and out.
* `operand`, `expression`, `formula` — the counted forms of the readings of these names.
-/

namespace Drafting.Counting

open Grammar (Fault Reading)

/-- What ends a counted reading early. -/
inductive Stop
  | refused (fault : Fault)
  /-- The stack has given out before this text. -/
  | exhausted (left : List Char)
deriving DecidableEq, Repr

/-- What sees the counter and may change it, whether it succeeds or not. -/
abbrev Counter := ExceptT Stop (StateM Nat)

/-- A reading of a text that counts. -/
abbrev Counted := StateT (List Char) Counter

/-- A reading to which the counter does not matter. -/
def uncounted {α : Type} (reading : Reading α) : Counted α :=
  fun text => ExceptT.mk (pure ((reading text).mapError .refused))

/-- The operations are those of the text; none of them counts. -/
instance : Engine Counted (List Char) Formula where
  peek := uncounted Engine.peek
  advance := uncounted Engine.advance
  skipBlanks := uncounted Engine.skipBlanks
  take wanted := uncounted (Engine.take wanted)
  takeToken := uncounted Engine.takeToken
  place := uncounted Engine.place
  refuse cause place := uncounted (Engine.refuse cause place)
  levelOf lead := uncounted (Engine.levelOf lead)
  build node := uncounted (Engine.build node)
  rounds := uncounted Engine.rounds
  giveUp tree := uncounted (Engine.giveUp tree)

/-! ## Levels -/

/-- Counts a level in, refuses the text when there are too many, and counts the level out after the
reading. The refusal does not count it out. -/
def nesting {α : Type} (limit : Int) (text : List Char) (reading : Counter α) : Counter α := do
  modify (· + 1)
  if limit < (← get) then throw (.refused ⟨.tooDeep, text⟩)
  try reading
  finally modify (· - 1)

def operand (nested : Counted Formula) (level : Int) : Counted Formula :=
  Engine.operand nested level

def expression (limit : Int) : Nat → Int → Counted Formula
  | 0, _ => fun text => nesting limit text (throw (.exhausted text))
  | levels + 1, level =>
    let nested := expression limit levels Operator.conditionalLevel
    fun text => nesting limit text (Engine.expressionOf nested (operand nested) level text)

def formula (limit : Int) (levels : Nat) (strict : Bool) : Counted Formula := do
  Engine.ending strict (← expression limit levels Operator.conditionalLevel)

end Drafting.Counting
