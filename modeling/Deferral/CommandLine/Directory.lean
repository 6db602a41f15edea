import Deferral.CommandLine.Basic

/-!
# Directories of sources

A source is looked up along its path, one component after another, from the directory that holds all
sources. A component leads on only from a directory, so the first one that leads nowhere decides the
fault.
-/

namespace Deferral.CommandLine

/-- What stands under a name in a directory. -/
inductive Entry where
  | file (text : String)
  | directory (entries : List (String × Entry))

/-- Entries by name. Of two under one name the first counts. -/
abbrev Directory := List (String × Entry)

namespace Directory

/-! ## Contents -/

/-- A directory with one more file, at the end of some components, and with the directories that
lead to it. -/
def addFile (text : String) : (components : List String) → Directory → Directory
  | [], d => d
  | [name], d => (name, .file text) :: d
  | name :: rest, d =>
    let inner := match d.lookup name with
      | some (.directory entries) => entries
      | _ => []
    (name, .directory (addFile text rest inner)) :: d

/-- The directory that holds the given texts, each at its path. -/
def ofFiles (files : List (String × String)) : Directory :=
  files.foldl (fun d (path, text) => d.addFile text (components path)) []

/-! ## Look-up -/

/-- One component further. A way holds the entry reached, the directory around it, and so on up to
the outermost, which is its own surrounding directory. -/
def step (way : List Entry) (component : String) : Except ReadFault (List Entry) :=
  match way with
  | .directory entries :: above =>
    if component = ".." then .ok (if above.isEmpty then way else above)
    else match entries.lookup component with
      | some entry => .ok (entry :: way)
      | none => .error .missing
  | _ => .error .notDirectory

/-- Whether a path asks for a directory, by ending in a slash or a dot. -/
def wantsDirectory (path : String) : Bool :=
  match (path.splitOn "/").getLast? with
  | some part => part = "" || part = "."
  | none => false

/-- The text of the file at a path. -/
def read (d : Directory) (path : String) : Except ReadFault String :=
  if path = "" then .error .missing
  else do
    match ← (components path).foldlM step [.directory d] with
    | .file text :: _ => if wantsDirectory path then .error .notDirectory else .ok text
    | _ => .error .isDirectory

end Directory

end Deferral.CommandLine
