import Drafting.Proofs.Grammar.Acceptance
import Drafting.Proofs.Refusal.Within
import Drafting.Proofs.Stepping.Agreement
import Drafting.Session

/-!
# How a reading can end

A reading of a session, from wherever its cursor stands, ends with a tree or with a report. The same
reading made step by step, where any action may go wrong, ends in the same way, so that nothing else
goes wrong. With a tree the cursor has moved on within the text, with a report it has not moved back.

## Main definitions

* `Session.Reading` — the steps of a session that read.
* `Session.stepwise`, `Session.result` — such a step on the cursor, and on the text ahead.
* `Reported` — the reports that are made.

Main statement: `Session.run_reading`.
-/

namespace Drafting

namespace Cursor

variable {cursor : Cursor} {left : List Char}

theorem offset_movedTo (left : List Char) :
    (cursor.movedTo left).offset = cursor.offset + (cursor.rest.length - left.length) := rfl

theorem length_rest (cursor : Cursor) : cursor.rest.length = cursor.text.length - cursor.offset :=
  List.length_drop

/-- A fault is reported for the place where it was met. -/
theorem failure_movedTo {fault : Grammar.Fault} (h : fault.left <:+ cursor.rest) (limit : Int) :
    (cursor.movedTo fault.left).failure limit ⟨fault.cause, (cursor.movedTo fault.left).rest⟩ =
      cursor.failure limit fault := by
  have hplace := movedTo_movedTo h (List.suffix_refl fault.left)
  simp only [failure, rest_movedTo h, hplace]

end Cursor

/-- The reports that are made of a place of a text: one of the seven kinds of mistake, or that the
whole numeral between this place and the cursor has too many digits. -/
def Reported (place cursor : Cursor) : Failure → Prop
  | .invalid d => ∃ code : ErrorCode, d.code = some code.label
  | .tooManyDigits _ => ∃ token negative digits, place.rest = token ++ cursor.rest ∧
      Numeral.ofToken? token = some (.whole negative digits) ∧ 4300 < digits.length

namespace Session

/-- The steps that read. -/
inductive Reading
  | formula
  | expression (level : Int)
  | operand (level : Int)
deriving DecidableEq, Repr

def Reading.step : Reading → Step
  | formula => .formula
  | expression level => .expression level
  | operand level => .operand level

/-- A reading on the cursor, action by action. -/
def stepwise (session : Session) : Reading → Stepping.Action Assembly
  | .formula => Engine.formula session.room session.options.strict
  | .expression level => Engine.expression session.room level
  | .operand level => Engine.operand (Engine.expression session.room Operator.conditionalLevel) level

/-- A reading of the text ahead. -/
def result (session : Session) : Reading → Grammar.Result (Formula × List Char)
  | .formula => Grammar.formula session.room session.options.strict session.cursor.rest
  | .expression level => Grammar.expression session.room level session.cursor.rest
  | .operand level =>
    Grammar.operand (Grammar.expression session.room Operator.conditionalLevel) level
      session.cursor.rest

variable (session : Session) (reading : Reading)

theorem run_step : session.run reading.step = session.finish (session.result reading) := by
  cases reading <;> rfl

theorem outcome_stepwise :
    Stepping.outcome (session.stepwise reading) session.cursor =
      Stepping.told session.cursor Formula.toAssembly (session.result reading) := by
  have hagrees {action : Stepping.Action Assembly} {nested : Grammar.Nested}
      (h : Stepping.Follows session.cursor Formula.toAssembly action nested session.cursor.rest) :
      Stepping.outcome action session.cursor =
        Stepping.told session.cursor Formula.toAssembly (nested session.cursor.rest) := by
    have hcursor := h.agrees (List.suffix_refl _)
    rwa [Cursor.movedTo_rest] at hcursor
  cases reading with
  | formula => exact hagrees (Stepping.formula_follows _ session.room session.options.strict _)
  | expression level => exact hagrees (Stepping.expression_follows _ session.room level _)
  | operand level => exact hagrees (Stepping.operand_follows _ session.room level _)

theorem result_within : Grammar.Within session.cursor.rest (session.result reading) := by
  cases reading with
  | formula => exact Grammar.formula_within _ _ _
  | expression level => exact Grammar.expression_within _ _ _
  | operand level => exact Grammar.operand_within _ _ _

theorem result_shortens {tree : Formula} {left : List Char}
    (h : session.result reading = .ok (tree, left)) : left.length < session.cursor.rest.length := by
  cases reading with
  | formula => exact Grammar.expression_shortens _ _ (Grammar.formula_eq_ok_iff.1 h).1
  | expression level => exact Grammar.expression_shortens _ _ h
  | operand level =>
    exact Grammar.operand_shortens (Grammar.expression_settles _).shortens level h

theorem reported_failure {fault : Grammar.Fault} (h : session.result reading = .error fault) :
    Reported (session.cursor.movedTo fault.left) (session.cursor.movedTo fault.unread)
      (session.cursor.failure session.options.limit fault) := by
  have hwithin := session.result_within reading
  obtain ⟨hsuffix, hfits⟩ := hwithin.fault h
  cases hcause : fault.cause with
  | tooManyDigits token count =>
    rw [hcause] at hfits
    obtain ⟨⟨after, hafter⟩, negative, digits, htoken, rfl, hlimit⟩ := hfits
    have hunread : fault.unread = after := by
      simp [Grammar.Fault.unread, hcause, Cause.token, ← hafter]
    have hplace := Cursor.rest_movedTo hsuffix
    have hcursor := Cursor.rest_movedTo ((h ▸ hwithin).unread_suffix)
    simp only [Cursor.failure, hcause, Cause.code?]
    exact ⟨token, negative, digits, by rw [hplace, hcursor, hunread, hafter], htoken, hlimit⟩
  | _ =>
    simp only [Cursor.failure, hcause, Cause.code?]
    exact ⟨_, rfl⟩

/-- A reading ends with a tree, or with one of the reports that are made. Made step by step it ends
in the same way, and meets with no other mishap. -/
theorem run_reading :
    (∃ tree after, session.run reading.step = (.ok (.tree tree), after) ∧
      Stepping.outcome (session.stepwise reading) session.cursor =
        (.ok tree.toAssembly, after.cursor) ∧
      session.cursor.offset < after.cursor.offset ∧
      after.cursor.offset ≤ session.cursor.text.length) ∨
    ∃ cause place failure after, session.run reading.step = (.error (.failure failure), after) ∧
      Stepping.outcome (session.stepwise reading) session.cursor =
        (.error (.refused cause place), after.cursor) ∧
      failure = place.failure session.options.limit ⟨cause, place.rest⟩ ∧
      Reported place after.cursor failure ∧
      session.cursor.offset ≤ after.cursor.offset ∧
      after.cursor.offset ≤ max session.cursor.text.length session.cursor.offset := by
  have hrun := session.run_step reading
  have hagrees := session.outcome_stepwise reading
  have hrest := session.cursor.length_rest
  cases hresult : session.result reading with
  | ok result =>
    obtain ⟨tree, left⟩ := result
    have hlength := session.result_shortens reading hresult
    rw [hresult] at hrun hagrees
    refine .inl ⟨tree, _, hrun, hagrees, ?_, ?_⟩
    · rw [Cursor.offset_movedTo]
      omega
    · rw [Cursor.offset_movedTo]
      omega
  | error fault =>
    have hsuffix := ((session.result_within reading).fault hresult).1
    have hreports := session.reported_failure reading hresult
    rw [hresult] at hrun hagrees
    refine .inr ⟨fault.cause, session.cursor.movedTo fault.left, _, _, hrun, hagrees,
      (Cursor.failure_movedTo hsuffix _).symm, hreports, ?_, ?_⟩
    · rw [Cursor.offset_movedTo]
      omega
    · rw [Cursor.offset_movedTo]
      omega

end Session

end Drafting
