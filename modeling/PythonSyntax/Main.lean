/-
**The program: the command line, run on the files of the system.**

Main definitions:

* `PythonSyntax.Command.lookUp` — what a file of the system holds;
* `PythonSyntax.Command.execute` — running the command on such a file;
* `main` — the command.
-/

import PythonSyntax.Command

set_option autoImplicit false

namespace PythonSyntax.Command

/-- What a file of the system holds. -/
def lookUp (path : String) : IO Contents := do
  try
    let bytes ← IO.FS.readBinFile path
    match String.fromUTF8? bytes with
    | some text => return .text text
    | none => return .unreadable .encoding
  catch error =>
    match error with
    | .inappropriateType _ 21 _ => return .unreadable .directory
    | .permissionDenied .. => return .unreadable .permission
    | _ => return .missing

/-- Reads the file that the arguments name, writes the report, and yields its status. -/
def execute (arguments : List String) : IO UInt32 := do
  let program := (← IO.appPath).toString
  let contents ←
    match (Invocation.ofArguments arguments).input with
    | some input => lookUp input
    | none => pure .missing
  let report := run program arguments fun _ => contents
  (← IO.getStderr).putStr report.stderr
  (← IO.getStdout).putStr report.stdout
  return UInt32.ofNat report.status

end PythonSyntax.Command

/-- The command. -/
def main (arguments : List String) : IO UInt32 := PythonSyntax.Command.execute arguments
