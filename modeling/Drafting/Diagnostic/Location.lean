import Drafting.Text.Quoted

/-!
# Locations

Where something is in a text: the name of the text, the line and column counted from one, and the
number of characters before it.

## Main definitions

* `Location` — a place, as reported.
* `Location.ofOffset` — the place of an offset in a text.
-/

namespace Drafting

/-- A reported place. The numbers are integers, since a caller may report any place it likes. -/
structure Location where
  filename : String
  line : Int
  column : Int
  offset : Int
deriving DecidableEq, Repr

namespace Location

/-- The line of an offset: one more than the newlines before it. -/
def lineAt (text : List Char) (offset : Nat) : Nat := (text.take offset).count '\n' + 1

/-- The column of an offset: one more than the characters between the last newline before it and
the offset itself. An offset past the end counts on from the end. -/
def columnAt (text : List Char) (offset : Nat) : Nat :=
  let before := text.take offset
  (offset - before.length) + (before.reverse.takeWhile (· ≠ '\n')).length + 1

def ofOffset (filename : String) (text : List Char) (offset : Nat) : Location where
  filename := filename
  line := lineAt text offset
  column := columnAt text offset
  offset := offset

/-- The place as a reader sees it: name, line and column. -/
def text (place : Location) : String :=
  place.filename ++ ":" ++ toString place.line ++ ":" ++ toString place.column

/-- The place with all its parts, the name quoted. -/
def inspect (place : Location) : String :=
  "SourceLocation(" ++ quotedString place.filename ++ ", " ++ toString place.line ++ ", " ++
    toString place.column ++ ", " ++ toString place.offset ++ ")"

end Location

end Drafting
