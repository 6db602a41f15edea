import Deferral.SymbolTable.Basic
import Deferral.Tree.Text

/-!
# The listing of declarations

Each declaration of a unit is listed with its type, and a constant with its value; the members of a
class follow it, indented.
-/

namespace Deferral

namespace Listing

/-- The names of a function's type parameters, in angle brackets, if it has any. -/
def typeParameters (t : SymbolTable) (c : Callable) : String :=
  if c.isGeneric then
    "<" ++ ", ".intercalate (c.typeParameters.map fun id => (t.decl id).name) ++ ">"
  else ""

/-- The line of a declaration, if it has one. -/
def line? (t : SymbolTable) (id : DeclId) : Option String :=
  let d := t.decl id
  match d.kind with
  | .object .var type _ => some ("var " ++ d.name ++ ": " ++ type.shown)
  | .object .constant type _ =>
    let value := match t.constant? id with
      | some c => " = " ++ c.shown
      | none => ""
    some ("def " ++ d.name ++ ": " ++ type.shown ++ value)
  | .super type => some ("super " ++ d.name ++ ": " ++ type.shown)
  | .callable sort c =>
    let keyword := match sort with
      | .function => "def "
      | .coroutine => "coroutine "
    some (keyword ++ d.name ++ typeParameters t c ++ ": " ++ c.type.shown)
  | .classDecl _ kind _ => some ("class " ++ d.name ++ ": " ++ kind.shown)
  | .parameter _ | .typeParameter => none

/-- The lines of the declarations among some statements, with at most `level` levels of members
inside them. -/
def within (t : SymbolTable) : (level : Nat) → List Stmt → List String
  | 0, _ => []
  | level + 1, body =>
    (body.filterMap Stmt.declaration?).flatMap fun id =>
      (line? t id).toList ++ (within t level (t.members id)).map ("  " ++ ·)

/-- The lines of the declarations among some statements. Classes nest no deeper than there are
declarations. -/
def lines (t : SymbolTable) (body : List Stmt) : List String := within t (t.decls.size + 1) body

end Listing

end Deferral
