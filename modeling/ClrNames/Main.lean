import ClrNames.CommandLine.Run

/-!
# The command line program

Reads the file that the arguments name, runs the command, and prints its text,
its error and the cause of the error.
-/

set_option autoImplicit false

open ClrNames ClrNames.CommandLine

def dumpPath? (args : List String) : Option String :=
  match readArguments args {} with
  | .error _ => none
  | .ok i =>
    match i.command with
    | .types path _ _ _ _ => some path
    | .failures path _ => some path
    | .parse _ dump _ _ => dump

def readDumpFile (path : String) : IO FileContent := do
  try
    return .content (← IO.FS.readBinFile path).toList
  catch _ => return .missing

def main (args : List String) : IO UInt32 := do
  let content ←
    match dumpPath? args with
    | some path => readDumpFile path
    | none => pure .missing
  let result := run (fun _ => content) args
  IO.print result.stdout
  if let some error := result.error then
    IO.eprintln s!"Error: {error}"
    if let some cause := result.cause then
      IO.eprintln s!"\nCaused by:\n    {cause.message}"
  return result.exitCode.toUInt32
