import Drafting.Cursor.Basic
import Drafting.Engine.Expression
import Drafting.Formula.Assembly

/-!
# Reading step by step

The reading of formulas as actions on one cursor. Nothing is ruled out beforehand: a character may
be taken where there is none, an operator may be looked up that has no level, the parts of a node may
not fit together. Each of these ends the reading with a mishap of its own. That none of them ever
happens is proved elsewhere.

The rounds in which a tree grows are counted, so that running out of rounds is one more mishap.

## Main definitions

* `Mishap`, `Action` — how an action can end, and an action.
* `expect`, `readToken`, `levelOf`, `build` — the actions that may go wrong.

The engine that they make up runs the grammar action by action.
-/

namespace Drafting.Stepping

open Grammar (Lead)

/-- What ends a reading early. -/
inductive Mishap
  /-- The text is refused, at a place where the cursor stood. -/
  | refused (cause : Cause) (place : Cursor)
  /-- A character was to be taken past the end. -/
  | pastEnd
  /-- The operator stands in no table. -/
  | noLevel (lead : Lead)
  /-- A node cannot be put together from its parts. -/
  | misfit (misfit : Misfit)
  /-- There are no rounds left. -/
  | unfinished
deriving DecidableEq, Repr

/-- What is done on a cursor, and where it leaves the cursor whether it succeeds or not. -/
abbrev Action := ExceptT Mishap (StateM Cursor)

/-! ## Characters and tokens -/

/-- The text ahead. -/
def ahead : Action (List Char) := return (← get).rest

/-- The character ahead. -/
def peek : Action (Option Char) := return (← ahead).head?

/-- Moves over what was found ahead. -/
def take (token : List Char) : Action (List Char) := do
  modify fun cursor => { cursor with offset := cursor.offset + token.length }
  return token

/-- Takes the character ahead, which must be there. -/
def advance : Action Char := do
  match ← ahead with
  | [] => throw .pastEnd
  | c :: _ =>
    let _ ← take [c]
    return c

/-- Refuses the text at the cursor. -/
def refuse {α : Type} (cause : Cause) : Action α := do throw (.refused cause (← get))

def expect (wanted : Char) : Action Unit := do
  match ← peek with
  | none => refuse (.endOfText (.exactly [wanted]))
  | some found =>
    if found = wanted then
      let _ ← advance
      return ()
    else refuse (.unexpected [wanted] found)

def skipBlanks : Action Unit := modify fun cursor => cursor.movedTo (dropBlanks cursor.rest)

/-- Takes a token, its first character whatever it is but a blank. -/
def readToken : Action (List Char) := do
  match ← ahead with
  | [] => refuse (.endOfText .token)
  | c :: text =>
    if isBlank c then refuse .blankToken else take (c :: text.takeWhile (!isDelimiter ·))

/-! ## Operators and nodes -/

/-- The levels of the operators and of the conditional. -/
def levels : List (Lead × Int) :=
  [(.operator .power, 5), (.operator .multiply, 4), (.operator .divide, 4), (.operator .add, 3),
    (.operator .subtract, 3), (.operator .greater, 2), (.operator .less, 2),
    (.operator .greaterOrEqual, 2), (.operator .lessOrEqual, 2), (.operator .equal, 2),
    (.operator .notEqual, 2), (.question, 1)]

def levelOf (lead : Lead) : Action Int :=
  match levels.lookup lead with
  | some level => return level
  | none => throw (.noLevel lead)

/-- What the parts of a node make up, unless they do not fit together. A reference is given its name
in full. -/
def assemble : Engine.Node Assembly → Except Misfit Assembly
  | .number literal => .ok literal.toAssembly
  | .reference mark stem => Assembly.reference? mark (mark.sign ++ stem)
  | .parenthesized inner => .ok (.parenthesized inner)
  | .call function argument => .ok (.call function argument)
  | .callPair function first second => Assembly.callPair? function first second
  | .binary left operator right => .ok (.binary left (.known operator) right)
  | .conditional condition whenTrue whenFalse => .ok (.conditional condition whenTrue whenFalse)

def build (node : Engine.Node Assembly) : Action Assembly :=
  match assemble node with
  | .ok tree => return tree
  | .error misfit => throw (.misfit misfit)

instance : Engine Action Cursor Assembly where
  peek := peek
  advance := advance
  skipBlanks := skipBlanks
  take := expect
  takeToken := readToken
  place := get
  refuse cause place := throw (.refused cause place)
  levelOf := levelOf
  build := build
  rounds := return (← ahead).length + 1
  giveUp _ := throw .unfinished

end Drafting.Stepping
