import Drafting.About
import Drafting.CommandLine.Request
import Drafting.Formula.Parse

/-!
# Running the command line

From arguments and input to what is printed. A formula that is `-`, or missing, is read from the
input, without the newlines at its end.

## Main definitions

* `usage`, `help` — the texts about the command line itself.
* `Outcome` — what is printed, and how the run ends.
* `run` — the outcome of a run.
-/

namespace Drafting.CommandLine

def usage : String :=
  "usage: " ++ About.program ++ " [-h] [--format \x7bdebug,normative,xml\x7d] [--strict]\n" ++
  "                      [--max-depth MAX_DEPTH] [-v] [--version]\n" ++
  "                      [formula]\n"

def help : String :=
  usage ++
  "\n" ++
  "Parse a pattern-drafting formula and print it as XML, canonical text or debug form\n" ++
  "\n" ++
  "positional arguments:\n" ++
  "  formula               Formula text, or '-' to read it from standard input\n" ++
  "                        (default)\n" ++
  "\n" ++
  "options:\n" ++
  "  -h, --help            show this help message and exit\n" ++
  "  --format \x7bdebug,normative,xml\x7d\n" ++
  "                        Output rendering (default: xml)\n" ++
  "  --strict              Fail if text is left over after the formula\n" ++
  "  --max-depth MAX_DEPTH\n" ++
  "                        Deepest nesting accepted (default: 64)\n" ++
  "  -v, --verbose         Log parser activity to standard error\n" ++
  "  --version             show program's version number and exit\n" ++
  "\n" ++
  "Examples:\n" ++
  "    patternformula \"a + 5 / 2\"                       # XML document\n" ++
  "    patternformula --format normative \" a + 5 \"      # canonical text\n" ++
  "    patternformula --format debug \"1+2*3\"            # show grouping\n" ++
  "    patternformula --strict \"a b\"                    # reject trailing text\n" ++
  "        \n"

/-- How a run ends: with a status, or broken off at a numeral that is too long to be read. -/
inductive Ending
  | exited (status : Nat)
  | brokenOff (message : String)
deriving DecidableEq, Repr

structure Outcome where
  ending : Ending
  output : String
  errors : String
deriving DecidableEq, Repr

/-- What is told about the reading of a formula. -/
def parseLog (formula : List Char) : Except Failure Formula → String
  | .ok _ =>
    About.program ++ ".parser.parser: Parsed formula " ++ String.ofList (quoted formula) ++ "\n"
  | .error (.invalid diagnostic) =>
    About.program ++ ".parser.parser: Failed to parse formula " ++ String.ofList (quoted formula) ++
      ": " ++ diagnostic.message ++ "\n"
  | .error (.tooManyDigits _) => ""

def renderLog (format : Format) : String :=
  About.program ++ ".cli: Rendering as " ++ String.ofList format.name ++ "\n"

/-- A text without the newlines at its end. -/
def dropFinalNewlines (text : List Char) : List Char :=
  (text.reverse.dropWhile (· = '\n')).reverse

/-- How the settings have the formula read. -/
def Settings.options (settings : Settings) : Options :=
  { strict := settings.strict, maxDepth := settings.maxDepth }

/-- Reads a formula and prints its rendering, or what is wrong with it. -/
def convert (settings : Settings) (formula : List Char) : Outcome :=
  let result := Formula.parse settings.options formula
  let log := if settings.verbose then parseLog formula result else ""
  match result with
  | .ok tree =>
    ⟨.exited 0, String.ofList (settings.format.render tree) ++ "\n",
      log ++ if settings.verbose then renderLog settings.format else ""⟩
  | .error (.invalid diagnostic) =>
    ⟨.exited 1, "",
      log ++ "error: " ++ diagnostic.summary (some formula) ++ "\n" ++ diagnostic.text⟩
  | .error (.tooManyDigits message) => ⟨.brokenOff message, "", log⟩

/-- Grants a request, with the input at hand. -/
def Request.outcome (input : List Char) : Request → Outcome
  | help => ⟨.exited 0, CommandLine.help, ""⟩
  | version => ⟨.exited 0, About.program ++ " " ++ About.version ++ "\n", ""⟩
  | complain complaint =>
    ⟨.exited 2, "", usage ++ About.program ++ ": error: " ++ complaint.message ++ "\n"⟩
  | convert settings formula =>
    CommandLine.convert settings (if formula = ['-'] then dropFinalNewlines input else formula)

/-- The outcome of a run. -/
def run (arguments : List (List Char)) (input : List Char) : Outcome :=
  (Request.ofArguments arguments).outcome input

end Drafting.CommandLine
