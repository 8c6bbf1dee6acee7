import Drafting.CommandLine.Run

/-!
# The program

Hands the arguments and the input to the command line and prints what it says. The input is read
only where the formula is to come from it.
-/

def main (arguments : List String) : IO UInt32 := do
  let request := Drafting.CommandLine.Request.ofArguments (arguments.map String.toList)
  let input ← if request.readsInput then (← IO.getStdin).readToEnd else pure ""
  let outcome := request.outcome input.toList
  IO.print outcome.output
  IO.eprint outcome.errors
  match outcome.ending with
  | .exited status => return UInt32.ofNat status
  | .brokenOff message =>
    IO.eprintln message
    return 1
