import Qualifier.CommandLine

/-!
# The program

Hands the arguments to `CommandLine.run` and writes out its answer.
-/

open Qualifier in
/-- Evaluates the expression on the command line. -/
def main (arguments : List String) : IO UInt32 := do
  let answer := CommandLine.run arguments
  (← IO.getStdout).putStr answer.output
  (← IO.getStderr).putStr answer.errors
  return answer.code
