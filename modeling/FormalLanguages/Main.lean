import FormalLanguages.CommandLine.Report

/-! # The program -/

/-- Runs the command line, with entropy from the system. -/
def main (arguments : List String) : IO UInt32 := do
  let bytes ← IO.getRandomBytes 8
  let entropy := bytes.foldl (fun n byte => n * 256 + byte.toUInt64) 0
  let outcome := FormalLanguages.CommandLine.run arguments entropy
  IO.print outcome.output
  IO.eprint outcome.errors
  return outcome.status.toUInt32
