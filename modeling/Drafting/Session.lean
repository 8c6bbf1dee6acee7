import Drafting.Cursor.Move
import Drafting.Formula.Parse

/-!
# Sessions

A cursor from which formulas and parts of formulas can be read one after the other, going on after a
refusal. A session counts the refusals of levels that exceed the limit: each of them takes one level
from the room of all readings after it. A refusal because the stack gave out looks the same, but leaves
all levels as they were.

## Main definitions

* `Session` — a cursor, the options and the count.
* `Session.Step` — a move of the cursor, or a reading.
* `Session.run` — the outcome of a step and the session after it.
-/

namespace Drafting

structure Session where
  options : Options
  cursor : Cursor
  /-- The number of levels taken for good by readings that exceeded the limit. -/
  depth : Nat
deriving DecidableEq, Repr

namespace Session

/-- What can be asked of a session. The readings are those of a whole formula, of an expression from
a level upwards and of an operand above a level. -/
inductive Step
  | move (move : Move)
  | formula
  | expression (level : Int)
  | operand (level : Int)
deriving DecidableEq, Repr

inductive Reply
  | answer (answer : Answer)
  | tree (tree : Formula)
deriving DecidableEq, Repr

/-- A fresh session at the start of a text. -/
def start (options : Options) (text : List Char) : Session :=
  ⟨options, .start options.filename text, 0⟩

/-- The levels that a reading may take. -/
def room (session : Session) : Nat := session.options.room session.depth

/-- Whether a refusal for this cause leaves a level counted in: the level was one too many for the
limit, and not only for the stack. A level for which the stack gave out is counted out again like all
the levels around it. -/
def keepsLevel (options : Options) (cause : Cause) : Bool :=
  cause = .tooDeep && !options.stackFirst

/-- The session after a reading. A fault leaves the cursor at its place, or after the numeral it is
about. -/
def finish (session : Session) (result : Grammar.Result (Formula × List Char)) :
    Except Refusal Reply × Session :=
  match result with
  | .ok (tree, left) => (.ok (.tree tree), { session with cursor := session.cursor.movedTo left })
  | .error fault =>
    (.error (.failure (session.cursor.failure session.options.limit fault)),
      { session with
        cursor := session.cursor.movedTo fault.unread
        depth := if keepsLevel session.options fault.cause then session.depth + 1 else session.depth })

def run (session : Session) : Step → Except Refusal Reply × Session
  | .move move =>
    let (outcome, cursor) := session.cursor.move move
    (outcome.map .answer, { session with cursor := cursor })
  | .formula =>
    session.finish (Grammar.formula session.room session.options.strict session.cursor.rest)
  | .expression level =>
    session.finish (Grammar.expression session.room level session.cursor.rest)
  | .operand level =>
    let nested := Grammar.expression session.room Operator.conditionalLevel
    session.finish (Grammar.operand nested level session.cursor.rest)

end Session

end Drafting
