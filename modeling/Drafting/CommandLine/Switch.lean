import Drafting.Rendering.Canonical
import Drafting.Rendering.Debug
import Drafting.Rendering.Document
import Drafting.Text.Quoted

/-!
# Switches

The options of the command line: their names, whether they take a value, and the renderings that can
be asked for.

## Main definitions

* `Switch` — the options.
* `Format` — the renderings.
* `Complaint` — what can be wrong with the arguments.
-/

namespace Drafting.CommandLine

inductive Switch
  | help
  | format
  | strict
  | maxDepth
  | verbose
  | version
deriving DecidableEq, Repr

namespace Switch

/-- Every name of every switch, in the order in which candidates are listed. -/
def names : List (List Char × Switch) :=
  [("-h".toList, help), ("--help".toList, help), ("--format".toList, format),
    ("--strict".toList, strict), ("--max-depth".toList, maxDepth), ("-v".toList, verbose),
    ("--verbose".toList, verbose), ("--version".toList, version)]

/-- The switch of a given name. -/
def named? (name : List Char) : Option Switch := names.lookup name

/-- The switch of a given letter. -/
def ofLetter? (letter : Char) : Option Switch := named? ['-', letter]

/-- All names of a switch, as a message lists them. -/
def title : Switch → String
  | help => "-h/--help"
  | format => "--format"
  | strict => "--strict"
  | maxDepth => "--max-depth"
  | verbose => "-v/--verbose"
  | version => "--version"

def takesValue : Switch → Bool
  | format | maxDepth => true
  | _ => false

end Switch

/-- The renderings that can be asked for. -/
inductive Format
  | debug
  | normative
  | xml
deriving DecidableEq, Repr

namespace Format

def all : List Format := [debug, normative, xml]

theorem mem_all (format : Format) : format ∈ all := by cases format <;> decide

def name : Format → List Char
  | debug => "debug".toList
  | normative => "normative".toList
  | xml => "xml".toList

def named? (word : List Char) : Option Format := all.find? (·.name = word)

def render : Format → Formula → List Char
  | debug => Rendering.debug
  | normative => Rendering.canonical
  | xml => Rendering.document

@[simp] theorem render_debug : render debug = Rendering.debug := rfl

@[simp] theorem render_normative : render normative = Rendering.canonical := rfl

@[simp] theorem render_xml : render xml = Rendering.document := rfl

end Format

/-- What can be wrong with the arguments. -/
inductive Complaint
  /-- A shortened name fits more than one switch. -/
  | ambiguous (word : List Char) (candidates : List (List Char))
  | missingValue (switch : Switch)
  /-- A value is attached to a switch that takes none. -/
  | ignoredValue (switch : Switch) (value : List Char)
  | invalidInteger (value : List Char)
  | invalidFormat (value : List Char)
  | unrecognized (words : List (List Char))
deriving DecidableEq, Repr

namespace Complaint

def message : Complaint → String
  | ambiguous word candidates =>
    "ambiguous option: " ++ String.ofList word ++ " could match " ++
      ", ".intercalate (candidates.map String.ofList)
  | missingValue switch => "argument " ++ switch.title ++ ": expected one argument"
  | ignoredValue switch value =>
    "argument " ++ switch.title ++ ": ignored explicit argument " ++ String.ofList (quoted value)
  | invalidInteger value =>
    "argument " ++ Switch.maxDepth.title ++ ": invalid int value: " ++ String.ofList (quoted value)
  | invalidFormat value =>
    "argument " ++ Switch.format.title ++ ": invalid choice: " ++ String.ofList (quoted value) ++
      " (choose from " ++
      ", ".intercalate (Format.all.map fun format => String.ofList (quoted format.name)) ++ ")"
  | unrecognized words =>
    "unrecognized arguments: " ++ " ".intercalate (words.map String.ofList)

end Complaint

end Drafting.CommandLine
