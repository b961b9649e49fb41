import GraphLowering.Command.Run

/-!
# Command-line program

Writes what `Command.run` says and ends with its exit code.
-/

open GraphLowering.Command

/-- Writes the dump to its file, if it has one, and tells why that failed, if it did. -/
def writeDump : Outcome → IO (Option String)
  | .dumped _ dump (some file) => do
    try
      IO.FS.writeFile file dump
      return none
    catch e =>
      return some e.toString
  | _ => return none

def main (args : List String) : IO UInt32 := do
  let outcome := run args
  let result := outcome.finish (← writeDump outcome)
  IO.print result.stdout
  IO.eprint result.stderr
  for cause in result.causes do
    IO.eprintln s!"Error: {cause}"
  return UInt32.ofNat result.exitCode
