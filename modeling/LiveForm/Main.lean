import LiveForm.CommandLine

/-! The program: reads the files that a command names and prints what the command gives. -/

open LiveForm

/-- The document in a file. -/
def readDocument (path : String) : IO (Except LoadFault Value) := do
  try
    return loadDocument (← IO.FS.readFile path)
  catch _ => return .error (.missingFile path)

/-- The path that a command reads, if it reads one. -/
def formOf : CommandLine.Command → Option String
  | .eval form _ _ => some form
  | .test form _ => some form
  | .validate _ => none

def main (args : List String) : IO UInt32 := do
  let form := (CommandLine.command? args).bind formOf
  let document ← match form with
    | some path => readDocument path
    | none => pure (.error .malformed)
  match CommandLine.run (fun _ => document) args with
  | .ok output =>
    IO.print output.stdout
    return output.code.toUInt32
  | .error cause =>
    IO.eprintln s!"aborted: {repr cause}"
    return 1
