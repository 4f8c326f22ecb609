import Reckoner.Command.Run

/-!
# The program

Looks up the file that the command line names, runs the command and prints its report.
-/

namespace Reckoner.Command

/-- Looks a path up in the file system. A directory can be opened but not read. -/
def lookUp (path : Path) : IO Found := do
  try
    return .file (← IO.FS.readBinFile path.text)
  catch
    | .noFileOrDirectory .. => return .nothing
    | .inappropriateType none .. => return .directory
    | .inappropriateType (some _) .. => return .nothing
    | .invalidArgument .. => return .nothing
    | e => throw e

/-- Says why a command broke off. -/
def Breakdown.message : Breakdown → String
  | directory => "the file is a directory"
  | encoding => "the file is not UTF-8"
  | fault f => f.message

/-- Runs a command line and prints its report. -/
def execute (arguments : List String) : IO UInt32 := do
  let found ←
    match arguments with
    | _ :: name :: _ => lookUp (Path.ofString name)
    | _ => pure .nothing
  let report := run (fun _ => found) arguments
  IO.print report.output
  IO.eprint report.logText
  match report.ending with
  | .exit code => return UInt32.ofNat code
  | .broken why =>
    IO.eprintln why.message
    return 1

end Reckoner.Command

def main (arguments : List String) : IO UInt32 :=
  Reckoner.Command.execute arguments
