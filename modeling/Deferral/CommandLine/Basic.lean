import Deferral.Report.Listing
import Deferral.Report.Picture
import Deferral.Token.Scan
import Deferral.Unit.Definition
import Deferral.Unit.Grammar

/-!
# The command line

The command line takes the path of one source. It lists the declarations of a source without faults,
and otherwise reports its diagnostics.
-/

namespace Deferral

/-- The declarations of a source in `file`, resolved, or its diagnostics. -/
def resolveSource (source : List Char) (file : String) :
    Except (List Diagnostic) (SymbolTable × SourceUnit) := do
  let tokens ← (Token.scan source file).mapError ([·])
  let (unit?, table) := (SourceUnit.read tokens).run.run SymbolTable.empty
  let u ← unit?.mapError ([·])
  let ((u, reported), table) := u.resolve.run table
  if reported.isEmpty then return (table, u) else throw reported

namespace CommandLine

/-- Why a source cannot be read. -/
inductive ReadFault where
  | missing
  | isDirectory
  | notDirectory
  | nameTooLong
  | described (text : String)

def ReadFault.text : ReadFault → String
  | .missing => "No such file or directory (os error 2)"
  | .isDirectory => "Is a directory (os error 21)"
  | .notDirectory => "Not a directory (os error 20)"
  | .nameTooLong => "File name too long (os error 36)"
  | .described text => text

/-- What a run leaves behind: the exit code, and the lines on the two output channels. -/
structure Outcome where
  exitCode : Nat
  output : List String
  errors : List String

/-- The components of a path that name something. -/
def components (path : String) : List String :=
  (path.splitOn "/").filter fun part => part ≠ "" ∧ part ≠ "."

/-- The name under which a source is reported: the last component of its path, or the whole path if
that names no file. -/
def fileName (path : String) : String :=
  match (components path).getLast? with
  | none | some ".." => path
  | some name => name

/-- A run on a source that could be read. -/
def onSource (file : String) (source : List Char) : Outcome :=
  match resolveSource source file with
  | .ok (table, u) => ⟨0, Listing.lines table u.body, []⟩
  | .error reported => ⟨1, reported.flatMap (·.report file source), []⟩

/-- A run with some arguments, where `read` reads the source at a path. -/
def run (read : String → Except ReadFault String) : (arguments : List String) → Outcome
  | [path] =>
    match read path with
    | .ok source => onSource (fileName path) source.toList
    | .error fault => ⟨1, [], ["error: cannot read " ++ path ++ ": " ++ fault.text]⟩
  | _ => ⟨2, [], ["usage: elaborator <file>"]⟩

end CommandLine

end Deferral
