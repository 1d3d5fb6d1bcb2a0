import BlockTrace.CommandLine.Command

/-! The command line. -/
open BlockTrace.CommandLine

def main (arguments : List String) : IO UInt32 := do
  let content ← match inputFile? arguments with
    | none => pure none
    | some path =>
      try
        pure (some (← IO.FS.readFile path))
      catch _ => pure none
  let output := respond (fun _ => content) arguments
  IO.print output.stdout
  IO.eprint output.stderr
  return output.exit
