import Drafting.Cursor.Basic

/-!
# Moves of a cursor

Stepping through a text by hand. A move answers something and may take the cursor forward; a move
that is refused leaves the cursor where it is. Looking past the end is no mistake, only taking a
character there is.

## Main definitions

* `Move` — what can be asked of a cursor.
* `Answer`, `Refusal` — what it answers.
* `Cursor.move` — the answer and the cursor after the move.
-/

namespace Drafting

inductive Move
  | peek
  | peekNext
  | advance
  | atEnd
  | skipBlanks
  | expect (wanted : List Char)
  | readToken (stops : List Char)
  | location
  | marked
  | inspect
  | seek (offset : Nat)
deriving DecidableEq, Repr

inductive Answer
  | nothing
  | lookahead (found : Option Char)
  | flag (value : Bool)
  | text (value : List Char)
  | location (place : Location)
deriving DecidableEq, Repr

/-- Why a move is refused. -/
inductive Refusal
  /-- A character was to be taken past the end. -/
  | pastEnd
  | failure (failure : Failure)
deriving DecidableEq, Repr

namespace Cursor

/-- Takes a reading from the cursor. No move is nested, so that the nesting limit in a report does
not matter. -/
def take (cursor : Cursor) (reading : Grammar.Result (List Char × List Char)) :
    Except Refusal Answer × Cursor :=
  match reading with
  | .ok (taken, left) => (.ok (.text taken), cursor.movedTo left)
  | .error fault => (.error (.failure (cursor.failure 0 fault)), cursor)

def move (cursor : Cursor) : Move → Except Refusal Answer × Cursor
  | .peek => (.ok (.lookahead cursor.rest.head?), cursor)
  | .peekNext => (.ok (.lookahead cursor.rest.tail.head?), cursor)
  | .advance =>
    match cursor.rest with
    | [] => (.error .pastEnd, cursor)
    | c :: left => (.ok (.text [c]), cursor.movedTo left)
  | .atEnd => (.ok (.flag cursor.rest.isEmpty), cursor)
  | .skipBlanks =>
    let left := dropBlanks cursor.rest
    (.ok (.flag (left.length < cursor.rest.length)), cursor.movedTo left)
  | .expect wanted =>
    cursor.take ((Grammar.expect wanted cursor.rest).map fun left => (wanted, left))
  | .readToken stops => cursor.take (Grammar.readToken stops.contains cursor.rest)
  | .location => (.ok (.location cursor.location), cursor)
  | .marked => (.ok (.text cursor.marked), cursor)
  | .inspect => (.ok (.text cursor.inspect.toList), cursor)
  | .seek offset => (.ok .nothing, { cursor with offset := offset })

end Cursor

end Drafting
