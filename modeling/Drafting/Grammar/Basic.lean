import Drafting.Engine.Expression
import Drafting.Grammar.Reading

/-!
# The readings of the grammar

The engine that keeps nothing but the text that is left, and what it reads. A reading results in a
formula and the text after it, unless it refuses the text.

## Main definitions

* `Reading` — a reading of a text.
* `operand` — an operand above a level.
* `expression` — an expression from a level upwards.
* `formula` — a whole formula text.
-/

namespace Drafting.Grammar

/-- A reading takes its result from the front of a text, unless it refuses the text. -/
abbrev Reading := StateT (List Char) Result

/-- The reading of a formula that is nested in another. -/
abbrev Nested := Reading Formula

def nodeOf : Engine.Node Formula → Formula
  | .number literal => literal
  | .reference mark stem => .reference mark stem
  | .parenthesized inner => .parenthesized inner
  | .call function argument => .call function argument
  | .callPair function first second => .callPair function first second
  | .binary left operator right => .binary left operator right
  | .conditional condition whenTrue whenFalse => .conditional condition whenTrue whenFalse

/-- To take a character where there is none counts as a missing token. No reading of the grammar
does so. -/
instance : Engine Reading (List Char) Formula where
  peek := fun text => .ok (text.head?, text)
  advance
    | [] => .error ⟨.endOfText .token, []⟩
    | c :: text => .ok (c, text)
  skipBlanks := fun text => .ok ((), dropBlanks text)
  take wanted := fun text => do return ((), ← expect [wanted] text)
  takeToken := readToken isDelimiter
  place := fun text => .ok (text, text)
  refuse cause place := fun _ => .error ⟨cause, place⟩
  levelOf lead := pure lead.level
  build node := pure (nodeOf node)
  rounds := fun text => .ok (text.length + 1, text)
  giveUp := pure

def operand (nested : Nested) (level : Int) : Nested := Engine.operand nested level

def expression (room : Nat) (level : Int) : Nested := Engine.expression room level

def formula (room : Nat) (strict : Bool) : Nested := Engine.formula room strict

end Drafting.Grammar
