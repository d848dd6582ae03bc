/-
  JavaClass.Main — the command line.
-/
import JavaClass.Command.Run

namespace JavaClass.Command

/-- What stands under the name of a file on disk. -/
def Stored.read (file : String) : IO Stored := do
  try
    return .content (← IO.FS.readBinFile file).data
  catch
    | .noFileOrDirectory .. => return .missing
    | e => return .unreadable (toString e)

/-- The files that an invocation reads, with what stands under their names. -/
def Invocation.stored : Invocation → IO (List (String × Stored))
  | .run _ task => task.files.mapM fun file => do return (file, ← Stored.read file)
  | _ => return []

/-- Print a report, and give the exit code. -/
def Report.conclude (r : Report) : IO UInt32 := do
  IO.print r.stdout
  IO.eprint r.stderr
  match r.status with
  | .exit code => return UInt32.ofNat code
  | .broken fault => do
    IO.eprintln fault.message
    return 1

end JavaClass.Command

/-- Do what the command line asks for. -/
def main (args : List String) : IO UInt32 := do
  let invocation := JavaClass.Command.Invocation.ofWords args
  let stored ← invocation.stored
  (JavaClass.Command.run (fun file => (stored.lookup file).getD .missing) invocation).conclude
