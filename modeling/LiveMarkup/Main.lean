import LiveMarkup.CommandLine.Report

/-!
# The program

Reads the files that its arguments name and writes the result. It ends with 1 after a failure and
with 2 after arguments that spell no invocation.
-/

open LiveMarkup

/-- The content of a file, if it can be read as text. -/
def readFile? (name : String) : IO (Option String) := do
  try return some (← IO.FS.readFile name) catch _ => return none

def main (args : List String) : IO UInt32 := do
  match Invocation.parse args with
  | none =>
    IO.eprintln Topic.program.usage
    return 2
  | some invocation =>
    let contents ← invocation.files.mapM fun name => do return (name, ← readFile? name)
    match invocation.perform fun name => (contents.lookup name).join with
    | .ok lines =>
      for line in lines do
        IO.println line
      return 0
    | .error failure =>
      for line in failure.report do
        IO.eprintln line
      return 1
