import Drafting.Diagnostic.Basic

/-!
# Causes

Why a text was refused, apart from where. Each cause holds what its message has to name; the kind of
mistake and the wording follow from it.

## Main definitions

* `Cause` — the reasons for refusing a text.
* `Cause.code?` — the kind of mistake; a numeral with too many digits has none.
* `Cause.message` — the wording.
-/

namespace Drafting

/-- How a message names a text found or wanted: between quotes, a lone newline or tab by its
escape. -/
def nameOfText (text : List Char) : String :=
  if text = ['\n'] then "'\\n'"
  else if text = ['\t'] then "'\\t'"
  else "'" ++ String.ofList text ++ "'"

/-- What a reader was looking for when the text ended. -/
inductive Wanted
  | token
  | exactly (text : List Char)
deriving DecidableEq, Repr

/-- The reasons for refusing a text. -/
inductive Cause
  /-- Another character stands where a certain text was wanted. -/
  | unexpected (wanted : List Char) (found : Char)
  /-- The text ends too early. -/
  | endOfText (wanted : Wanted)
  /-- A blank stands where a token has to start. -/
  | blankToken
  /-- An operator stands where an operand has to start. -/
  | misplacedOperator (found : Char)
  /-- Something follows the formula. -/
  | trailingText
  /-- The nesting exceeds the limit. -/
  | tooDeep
  /-- A decimal numeral exceeds the largest number. -/
  | outOfRange (token : List Char)
  /-- A whole numeral has more digits than are read. -/
  | tooManyDigits (token : List Char) (digits : Nat)
deriving DecidableEq, Repr

namespace Cause

def code? : Cause → Option ErrorCode
  | unexpected .. => some .unexpectedCharacter
  | endOfText _ => some .unexpectedEnd
  | blankToken => some .blankToken
  | misplacedOperator _ => some .misplacedOperator
  | trailingText => some .trailingText
  | tooDeep => some .tooDeep
  | outOfRange _ => some .outOfRange
  | tooManyDigits .. => none

/-- The token that was read before the text was refused; only a numeral is refused after it was
read. -/
def token : Cause → List Char
  | outOfRange token => token
  | tooManyDigits token _ => token
  | _ => []

/-- Whether the message is accompanied by the text with the place marked in it. -/
def showsPlace : Cause → Bool
  | tooDeep | outOfRange _ | tooManyDigits .. => false
  | _ => true

/-- The wording of a cause, where `limit` is the deepest nesting allowed. -/
def message (limit : Int) : Cause → String
  | unexpected wanted found => "Expected " ++ nameOfText wanted ++ " found " ++ nameOfText [found]
  | endOfText .token => "Unexpected end of input, expected a token"
  | endOfText (.exactly wanted) => "Unexpected end of input, expected " ++ nameOfText wanted
  | blankToken => "Found whitespace where a token was expected"
  | misplacedOperator found =>
    "Unexpected token (operator not expected here): " ++ nameOfText [found]
  | trailingText => "Unexpected input after the end of the formula"
  | tooDeep => "Formula is nested more than " ++ toString limit ++ " levels deep"
  | outOfRange token => "Numeric literal out of range: " ++ String.ofList token
  | tooManyDigits _ digits =>
    "Exceeds the limit (4300 digits) for integer string conversion: value has " ++
      toString digits ++ " digits; use sys.set_int_max_str_digits() to increase the limit"

end Cause

end Drafting
