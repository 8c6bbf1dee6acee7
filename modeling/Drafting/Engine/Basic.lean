import Drafting.Grammar.Lexeme

/-!
# Engines

What formulas are read by: a scanner that looks one character ahead in a text and only ever moves
forward, the levels of what may follow an operand, and the making of nodes. The grammar is written
once, over these operations, and is run by any engine that offers them.

## Main definitions

* `Engine.Node` — a node to be made of parts.
* `Engine` — the operations.
-/

namespace Drafting

/-- A node of a tree, to be made of trees that are there already. -/
inductive Engine.Node (τ : Type)
  | number (literal : Formula)
  | reference (mark : Mark) (stem : List Char)
  | parenthesized (inner : τ)
  | call (function : List Char) (argument : τ)
  | callPair (function : List Char) (first second : τ)
  | binary (left : τ) (operator : Operator) (right : τ)
  | conditional (condition whenTrue whenFalse : τ)

/-- The operations of an engine that knows places of type `π` and makes trees of type `τ`. -/
class Engine (m : Type → Type) [Monad m] (π τ : outParam Type) where
  /-- The character ahead. -/
  peek : m (Option Char)
  /-- Takes the character ahead, which must be there. -/
  advance : m Char
  skipBlanks : m Unit
  /-- Takes a wanted character, and refuses the text where another one is ahead or none. -/
  take (wanted : Char) : m Unit
  /-- Takes a token up to the next delimiter. -/
  takeToken : m (List Char)
  place : m π
  /-- Refuses the text for a mistake at a place. -/
  refuse {α : Type} (cause : Cause) (place : π) : m α
  levelOf (lead : Grammar.Lead) : m Int
  build (node : Engine.Node τ) : m τ
  /-- More rounds than characters are ahead. -/
  rounds : m Nat
  /-- What becomes of a tree when the rounds in which it could grow are used up. -/
  giveUp (tree : τ) : m τ

namespace Engine

variable {m : Type → Type} {π τ : Type} [Monad m] [Engine m π τ]

/-- Refuses the text where the reading has come to. -/
def refuseHere {α : Type} (cause : Cause) : m α := do refuse cause (← place)

end Engine

end Drafting
