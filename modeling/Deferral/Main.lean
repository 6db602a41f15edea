import Deferral.CommandLine.Basic

/-!
# The program

Reads the source that the command line names, and prints what the run leaves behind.
-/

namespace Deferral.CommandLine

/-- The number of a failed call, which some calls give with its sign turned. -/
def callFault (code : UInt32) : UInt32 := if code < 0x80000000 then code else -code

/-- Why reading a file failed. -/
def ReadFault.ofError : IO.Error → ReadFault
  | .noFileOrDirectory _ _ _ => .missing
  | .inappropriateType _ code _ => if callFault code = 20 then .notDirectory else .isDirectory
  | e@(.invalidArgument _ code _) =>
    if callFault code = 36 then .nameTooLong else .described (toString e)
  | e => .described (toString e)

def readSource (path : String) : IO (Except ReadFault String) := do
  try return .ok (← IO.FS.readFile path)
  catch e => return .error (.ofError e)

end Deferral.CommandLine

open Deferral CommandLine

def main (arguments : List String) : IO UInt32 := do
  let source ← readSource (arguments.headD "")
  let outcome := run (fun _ => source) arguments
  outcome.output.forM fun line => IO.println line
  outcome.errors.forM fun line => IO.eprintln line
  return UInt32.ofNat outcome.exitCode
