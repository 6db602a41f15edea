import Deferral.Unit.Reporting

/-!
# Extensions

A class is declared once, and any number of extensions of its name in the same scope add members to
it. While the class is being worked on, the members of its extensions are its own; afterwards the
extensions no longer share its name.
-/

namespace Deferral

namespace SymbolTable

/-- Whether a class shares its name in the scope `enclosing` with other declarations. -/
def isOverloaded (t : SymbolTable) (enclosing : ScopeId) (name : String) : Bool :=
  ((t.scope enclosing).find? name).any (1 < ·.length)

/-- Moves what one extension declares, names and statements, into a class. Bodies declared in the
extension see the members of the class around them. -/
def absorb (t : SymbolTable) (cls extension : DeclId) (inner outer : ScopeId) : SymbolTable :=
  let imported := t.modifyScope outer (·.extendAll (t.scope inner).names)
  let moved := (imported.reparent inner outer).modifyDecl extension (·.mapMembers fun _ => [])
  moved.modifyDecl cls (·.mapMembers (· ++ t.members extension))

end SymbolTable

namespace Resolution

/-- Absorbs the extensions among some declarations into a class whose members are in `outer`. -/
def absorbAll (cls : DeclId) (outer : ScopeId) : List DeclId → Resolution Unit
  | [] => return
  | id :: rest => do
    if ← look fun t => (t.decl id).isExtension then
      let inner ← scopeOf (.decl id)
      modify (·.absorb cls id inner outer)
    absorbAll cls outer rest

/-- Absorbs the extensions that share the name of a class in the scope `enclosing`, in order. -/
def absorbExtensions (enclosing : ScopeId) (cls : DeclId) : Resolution Unit := do
  let set ← look fun t => ((t.scope enclosing).find? (t.decl cls).name).getD []
  let outer ← scopeOf (.decl cls)
  absorbAll cls outer set

end Resolution

namespace Faulting

/-- Runs a computation while a class has the members of its extensions. On every way out the
extensions lose the name they share with the class. -/
def withExtensions {α : Type} (enclosing : ScopeId) (cls : DeclId) (action : Reporting α) :
    Faulting α := do
  let name ← look fun t => (t.decl cls).name
  if ← look (·.isOverloaded enclosing name) then
    ending (do resolve (Resolution.absorbExtensions enclosing cls); action)
      (·.keepOnly enclosing name fun d => !d.isExtension)
  else action

end Faulting

end Deferral
