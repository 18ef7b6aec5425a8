import TypeRecovery.Command.Run

/-!
# The command line program

Reads the file that the command line names, prints what the run has to say, and ends with its code.
-/
namespace TypeRecovery.Command

def readText (path : String) : IO (Option String) := do
  try
    return some (← IO.FS.readFile path)
  catch _ =>
    return none

def report (r : Response) : IO UInt32 := do
  IO.print r.out
  for line in r.err do
    IO.eprintln line
  match r.ending with
  | .exit code => return code.toUInt32
  | .unreadable =>
    IO.eprintln "The document is no JSON text"
    return 1
  | .fault f =>
    IO.eprintln f.message
    return 1

end TypeRecovery.Command

open TypeRecovery.Command in
def main (args : List String) : IO UInt32 := do
  match Request.ofArguments args with
  | .invocation i =>
    let file ← match i.task.path? with
      | some path => readText path
      | none => pure none
    report (run i file)
  | _ => report (respond args fun _ => none)
