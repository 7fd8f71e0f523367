import Sentential.CommandLine

/- The program: runs the command line, shows what it has to show and exits. Failed
   evaluations are logged on standard output too. -/

open Sentential

/-- Runs the showcase with the given words. -/
def main (words : List String) : IO UInt32 := do
  let logger := Logger.debugLines fun _ => ""
  let outcome := CommandLine.runWith CommandLine.Reader.builtIn logger words
  IO.print outcome.shown
  if let some complaint := outcome.complaint then
    IO.eprintln complaint
  return outcome.exit.code.toUInt32
