import Drafting.Grammar.Reading

/-!
# Cursors

A place in a named text. The text never changes; a cursor stands before one of its characters, at its
end or beyond it. A fault met while reading from a cursor becomes a failure to report, with the place
counted out.

## Main definitions

* `Cursor` — the place.
* `Cursor.movedTo` — the cursor before a given remainder of its text.
* `Failure` — what is reported when a text is refused.
* `Cursor.failure` — the report of a fault.
-/

namespace Drafting

/-- What is reported when a text is refused: a diagnostic, or that a whole numeral is too long to be
read, which is told without a place. -/
inductive Failure
  | invalid (diagnostic : Diagnostic)
  | tooManyDigits (message : String)
deriving DecidableEq, Repr

structure Cursor where
  filename : String
  text : List Char
  offset : Nat
deriving DecidableEq, Repr

namespace Cursor

/-- The cursor at the start of a text. -/
def start (filename : String) (text : List Char) : Cursor := ⟨filename, text, 0⟩

/-- The text from the cursor on. -/
def rest (cursor : Cursor) : List Char := cursor.text.drop cursor.offset

/-- The cursor after a reading that left a given remainder. -/
def movedTo (cursor : Cursor) (left : List Char) : Cursor :=
  { cursor with offset := cursor.offset + (cursor.rest.length - left.length) }

@[simp] theorem movedTo_rest (cursor : Cursor) : cursor.movedTo cursor.rest = cursor := by
  simp [movedTo]

def location (cursor : Cursor) : Location :=
  .ofOffset cursor.filename cursor.text cursor.offset

/-- The text with the character at the cursor in brackets, which are empty at the end. -/
def marked (cursor : Cursor) : List Char :=
  match cursor.rest with
  | [] => cursor.text ++ ['[', ']']
  | c :: after => cursor.text.take cursor.offset ++ '[' :: c :: ']' :: after

/-- The text, quoted, and the offset. -/
def inspect (cursor : Cursor) : String :=
  "Scanner(" ++ String.ofList (quoted cursor.text) ++ ", pos=" ++ toString cursor.offset ++ ")"

/-- The report of a fault met in reading from the cursor, where `limit` is the deepest nesting
allowed. -/
def failure (cursor : Cursor) (limit : Int) (fault : Grammar.Fault) : Failure :=
  let place := cursor.movedTo fault.left
  let message := fault.cause.message limit
  match fault.cause.code? with
  | none => .tooManyDigits message
  | some code => .invalid {
      message := message
      location := place.location
      code := some code.label
      help := if fault.cause.showsPlace then some (String.ofList place.marked) else none }

end Cursor

end Drafting
