import Drafting.CommandLine.Switch
import Drafting.Text.DecimalDigit

/-!
# Words of a command line

Which arguments are switches and which are not. A switch may be written by any name of its own, by
the start of a long name if only one switch fits, and with a text attached: after `=`, or right
after a letter. An argument that starts with a minus sign and is no switch is an operand if it reads
as a negative number or holds a space. After a lone `--` everything is an operand.

## Main definitions

* `Word` — what an argument is.
* `Word.ofArgument` — the reading of one argument.
* `Word.ofArguments` — the reading of all of them.
-/

namespace Drafting.CommandLine

inductive Word
  | operand (text : List Char)
  /-- The lone `--` after which everything is an operand. -/
  | separator
  /-- A switch, by its letter or by a long name, and the text attached to it. -/
  | option (switch : Switch) (byLetter : Bool) (attached : Option (List Char))
  /-- An argument that looks like a switch but is none. -/
  | unknown (text : List Char)
deriving DecidableEq, Repr

/-- The word that ends the switches. -/
def separatorText : List Char := ['-', '-']

/-- The text before the first equals sign, and the text after it if there is one. -/
def splitAtEquals (text : List Char) : List Char × Option (List Char) :=
  match text.dropWhile (· ≠ '=') with
  | [] => (text, none)
  | _ :: value => (text.takeWhile (· ≠ '='), some value)

/-- A run of digits of any script, which may be followed by one newline at the very end. -/
def endsInDigits (text : List Char) : Bool :=
  let rest := text.dropWhile fun c => (decimalDigit? c).isSome
  rest.length < text.length && (rest = [] || rest = ['\n'])

/-- Whether an argument reads as a negative number: a minus sign and digits, with a point among or
before them. -/
def isNegativeNumber : List Char → Bool
  | '-' :: text =>
    endsInDigits text ||
      match text.dropWhile fun c => (decimalDigit? c).isSome with
      | '.' :: fraction => endsInDigits fraction
      | _ => false
  | _ => false

namespace Word

/-- Whether a name starts with two minus signs. -/
def isLong (name : List Char) : Bool := separatorText.isPrefixOf name

/-- The switch that an argument names in full, with the text after the equals sign if there is
one. -/
def fullyNamed? (argument : List Char) : Option Word :=
  match Switch.named? argument with
  | some switch => some (option switch (!isLong argument) none)
  | none =>
    match splitAtEquals argument with
    | (name, some value) =>
      (Switch.named? name).map fun switch => option switch (!isLong name) (some value)
    | _ => none

/-- The switches that an argument may stand for by a part of a name: for a long name those that it
starts, otherwise the switch of its first letter, to which the rest is attached. -/
def candidates (argument : List Char) : List (List Char × Word) :=
  if isLong argument then
    let (start, value) := splitAtEquals argument
    (Switch.names.filter fun entry => start.isPrefixOf entry.1).map fun entry =>
      (entry.1, option entry.2 false value)
  else
    (Switch.names.filter fun entry => entry.1 = argument.take 2).map fun entry =>
      (entry.1, option entry.2 true (some (argument.drop 2)))

/-- What one argument is, where it is not the separator. -/
def ofArgument (argument : List Char) : Except Complaint Word :=
  if argument.head? ≠ some '-' ∨ argument = ['-'] then .ok (operand argument)
  else match fullyNamed? argument with
    | some word => .ok word
    | none =>
      match candidates argument with
      | [(_, word)] => .ok word
      | [] =>
        if isNegativeNumber argument || argument.contains ' ' then .ok (operand argument)
        else .ok (unknown argument)
      | several => .error (.ambiguous argument (several.map (·.1)))

/-- What the arguments are. -/
def ofArguments : List (List Char) → Except Complaint (List Word)
  | [] => .ok []
  | argument :: rest =>
    if argument = separatorText then .ok (separator :: rest.map operand)
    else do
      let word ← ofArgument argument
      let words ← ofArguments rest
      return word :: words

end Word

end Drafting.CommandLine
