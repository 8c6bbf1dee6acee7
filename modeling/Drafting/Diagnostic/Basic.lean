import Drafting.Diagnostic.Location

/-!
# Diagnostics

A message about a text, with the place it is about. A diagnostic may carry a code that names the
kind of mistake, and a help text that shows the place inside the text.

## Main definitions

* `ErrorCode` — the seven kinds of mistake, with the label of each.
* `Diagnostic.text` — the diagnostic as printed, two or three lines.
* `Diagnostic.summary` — the diagnostic in one line, with the formula it is about.
-/

namespace Drafting

/-- The kinds of mistake that a formula text can hold. -/
inductive ErrorCode
  | unexpectedCharacter
  | unexpectedEnd
  | blankToken
  | misplacedOperator
  | trailingText
  | tooDeep
  | outOfRange
deriving DecidableEq, Repr

namespace ErrorCode

/-- The kinds in the order of their labels. -/
def all : List ErrorCode :=
  [unexpectedCharacter, unexpectedEnd, blankToken, misplacedOperator, trailingText, tooDeep,
    outOfRange]

theorem mem_all (code : ErrorCode) : code ∈ all := by cases code <;> decide

def label : ErrorCode → String
  | unexpectedCharacter => "S001"
  | unexpectedEnd => "S002"
  | blankToken => "S003"
  | misplacedOperator => "S004"
  | trailingText => "S005"
  | tooDeep => "S006"
  | outOfRange => "S007"

theorem label_injective : Function.Injective label := by
  intro a b h
  cases a <;> cases b <;> simp_all [label]

end ErrorCode

/-- A message about a place in a text. -/
structure Diagnostic where
  message : String
  location : Location
  code : Option String
  help : Option String
deriving DecidableEq, Repr

namespace Diagnostic

/-- The printed diagnostic: the message with its code, the place, and the help text if there is
one. An empty code and an empty help text count as none. -/
def text (d : Diagnostic) : String :=
  let code := d.code.getD ""
  let help := d.help.getD ""
  let mark := if code = "" then "ERROR: " else "ERROR[" ++ code ++ "]: "
  let advice := if help = "" then "" else "  help: " ++ help ++ "\n"
  mark ++ d.message ++ "\n" ++ "  --> " ++ d.location.text ++ "\n" ++ advice

/-- The diagnostic in one line, naming the formula when it is known. -/
def summary (d : Diagnostic) (formula : Option (List Char)) : String :=
  let subject := match formula with
    | none => "Invalid formula"
    | some formula => "Invalid formula " ++ String.ofList (quoted formula)
  subject ++ ": " ++ d.message ++ " at " ++ d.location.text

end Diagnostic

end Drafting
