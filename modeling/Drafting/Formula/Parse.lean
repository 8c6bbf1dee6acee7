import Drafting.Cursor.Basic
import Drafting.Grammar.Basic

/-!
# Parsing

From a formula text to its tree, all or nothing: the result is a formula, or a failure that tells
what is wrong and where.

## Main definitions

* `Options` — how a text is to be read.
* `Formula.parse` — the formula of a text.
-/

namespace Drafting

/-- How a text is to be read. -/
structure Options where
  /-- Whether text after the formula is a mistake. -/
  strict : Bool := false
  /-- The deepest nesting that is accepted. -/
  maxDepth : Int := 64
  /-- The name of the text in reports. -/
  filename : String := "<formula>"
  /-- The levels of nesting that the stack holds, whatever `maxDepth` says; none when the stack is no
  concern. This idealises a stack of frames: every level is taken to need as many frames as that of an
  argument, and the stack to give out as soon as a level too many is entered. -/
  stackDepth : Option Nat := some 198
deriving DecidableEq, Repr

namespace Options

/-- The deepest nesting that is read. -/
def limit (options : Options) : Int :=
  match options.stackDepth with
  | none => options.maxDepth
  | some depth => min options.maxDepth depth

/-- Whether the stack gives out before the nesting exceeds what is accepted. -/
def stackFirst (options : Options) : Bool := options.limit < options.maxDepth

/-- The levels that are left when `depth` levels are already taken. -/
def room (options : Options) (depth : Nat) : Nat := (options.limit - depth).toNat

end Options

/-- The formula of a text. -/
def Formula.parse (options : Options) (text : List Char) : Except Failure Formula :=
  match Grammar.formula (options.room 0) options.strict text with
  | .ok (tree, _) => .ok tree
  | .error fault => .error ((Cursor.start options.filename text).failure options.limit fault)

end Drafting
