import Drafting.CommandLine.Integer
import Drafting.CommandLine.Word

/-!
# Requests

What the arguments ask for. The switches take effect from left to right, a later one overriding an
earlier one; the first that asks for help or for the version, or that is used wrongly, settles the
matter. One operand is the formula; any other word that is left over is a mistake.

## Main definitions

* `Item` — a switch with its value, or a word.
* `Settings` — how the formula is to be read and rendered.
* `Request` — what is asked for.
* `Request.ofArguments` — the reading of the arguments.
-/

namespace Drafting.CommandLine

/-- A step in the reading of the arguments. -/
inductive Item
  | operand (text : List Char)
  | separator
  /-- A switch that takes no value. -/
  | flag (switch : Switch)
  | setting (switch : Switch) (value : List Char)
  | unknown (text : List Char)
  | mistake (complaint : Complaint)
deriving DecidableEq, Repr

namespace Item

/-- The switches whose letters follow each other, from a first one on. What follows the last letter
is a value that this switch does not take, and then none of the switches takes effect. -/
def cluster (switch : Switch) : List Char → Except Complaint (List Item)
  | [] => .ok [flag switch]
  | letter :: letters =>
    match Switch.ofLetter? letter with
    | none => .error (.ignoredValue switch (letter :: letters))
    | some next => (cluster next letters).map (flag switch :: ·)

/-- A switch with a text attached. To a switch that takes no value, more letters of switches may be
attached if it is named by its letter itself, and nothing else. -/
def ofAttached (switch : Switch) (byLetter : Bool) (text : List Char) : List Item :=
  if switch.takesValue then [setting switch text]
  else if byLetter && text ≠ [] then
    match cluster switch text with
    | .ok items => items
    | .error complaint => [mistake complaint]
  else [mistake (.ignoredValue switch text)]

/-- A switch with nothing attached and no operand after it. -/
def ofBare (switch : Switch) : Item :=
  if switch.takesValue then mistake (.missingValue switch) else flag switch

/-- Joins each switch that takes a value with the operand after it. -/
def ofWords : List Word → List Item
  | [] => []
  | .option switch _ none :: .operand text :: words =>
    if switch.takesValue then setting switch text :: ofWords words
    else flag switch :: operand text :: ofWords words
  | .option switch _ none :: words => ofBare switch :: ofWords words
  | .option switch byLetter (some text) :: words => ofAttached switch byLetter text ++ ofWords words
  | .operand text :: words => operand text :: ofWords words
  | .separator :: words => separator :: ofWords words
  | .unknown text :: words => unknown text :: ofWords words

end Item

/-- How the formula is to be read and rendered. -/
structure Settings where
  format : Format := .xml
  strict : Bool := false
  maxDepth : Int := 64
  verbose : Bool := false
deriving DecidableEq, Repr

/-- What the arguments ask for. -/
inductive Request
  | help
  | version
  | complain (complaint : Complaint)
  | convert (settings : Settings) (formula : List Char)
deriving DecidableEq, Repr

/-- The arguments read so far. -/
structure Progress where
  settings : Settings := {}
  formula : Option (List Char) := none
  /-- Whether the last word was the formula. -/
  atFormula : Bool := false
  leftover : List (List Char) := []
deriving DecidableEq, Repr

namespace Progress

def leave (progress : Progress) (text : List Char) : Progress :=
  { progress with atFormula := false, leftover := progress.leftover ++ [text] }

/-- The first operand is the formula, the others are left over. -/
def takeOperand (progress : Progress) (text : List Char) : Progress :=
  match progress.formula with
  | none => { progress with formula := some text, atFormula := true }
  | some _ => progress.leave text

/-- The separator goes with the formula next to it, and is left over without one. -/
def takeSeparator (progress : Progress) : Progress :=
  if progress.formula = none then progress
  else if progress.atFormula then { progress with atFormula := false }
  else progress.leave separatorText

def updateSettings (progress : Progress) (settings : Settings) : Progress :=
  { progress with settings := settings, atFormula := false }

/-- A switch without a value takes effect, or settles the request. -/
def turnOn (progress : Progress) : Switch → Except Request Progress
  | .help => .error .help
  | .version => .error .version
  | .strict => .ok (progress.updateSettings { progress.settings with strict := true })
  | .verbose => .ok (progress.updateSettings { progress.settings with verbose := true })
  | switch => .error (.complain (.missingValue switch))

/-- A switch takes a value. -/
def set (progress : Progress) (switch : Switch) (value : List Char) : Except Request Progress :=
  match switch with
  | .format =>
    match Format.named? value with
    | some format => .ok (progress.updateSettings { progress.settings with format := format })
    | none => .error (.complain (.invalidFormat value))
  | .maxDepth =>
    match readInteger? value with
    | some depth => .ok (progress.updateSettings { progress.settings with maxDepth := depth })
    | none => .error (.complain (.invalidInteger value))
  | switch => .error (.complain (.ignoredValue switch value))

def step (progress : Progress) : Item → Except Request Progress
  | .operand text => .ok (progress.takeOperand text)
  | .separator => .ok progress.takeSeparator
  | .unknown text => .ok (progress.leave text)
  | .flag switch => progress.turnOn switch
  | .setting switch value => progress.set switch value
  | .mistake complaint => .error (.complain complaint)

/-- What is asked for when all arguments were read. -/
def request (progress : Progress) : Request :=
  if progress.leftover = [] then .convert progress.settings (progress.formula.getD ['-'])
  else .complain (.unrecognized progress.leftover)

end Progress

namespace Request

/-- What the arguments ask for. -/
def ofArguments (arguments : List (List Char)) : Request :=
  match Word.ofArguments arguments with
  | .error complaint => complain complaint
  | .ok words =>
    match (Item.ofWords words).foldlM Progress.step {} with
    | .error request => request
    | .ok progress => progress.request

/-- Whether the formula is to be read from the input. -/
def readsInput : Request → Bool
  | convert _ formula => formula = ['-']
  | _ => false

end Request

end Drafting.CommandLine
