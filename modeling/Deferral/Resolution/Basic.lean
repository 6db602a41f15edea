import Deferral.SymbolTable.Basic

/-!
# Resolution

Resolving reads and changes the symbol table and may end in a diagnostic. What had been changed by
then stays changed; only the active scopes are restored on every way out.
-/

namespace Deferral

/-- A computation over the symbol table that may end in a diagnostic. -/
abbrev Resolution := ExceptT Diagnostic (StateM SymbolTable)

namespace Resolution

/-- Ends in a fault that is reported at a position. -/
def fail {α : Type} (cause : Cause) (position : Position) : Resolution α :=
  throw { cause, position }

/-- What `pick` finds in the table. -/
def look {α : Type} (pick : SymbolTable → α) : Resolution α := pick <$> get

/-- An outcome that does not hang on the table. -/
def ofExcept {α : Type} : Except Diagnostic α → Resolution α
  | .ok a => pure a
  | .error d => throw d

/-- Runs a computation with a scope active, and leaves the scope however it ends. -/
def under {α : Type} (scope : ScopeId) (action : Resolution α) : Resolution α :=
  ExceptT.mk do
    modify (·.enter scope)
    let outcome ← action.run
    modify (·.leave)
    return outcome

/-- Runs a computation, and `after` on the table however it ends. -/
def ending {α : Type} (action : Resolution α) (after : SymbolTable → SymbolTable) :
    Resolution α :=
  ExceptT.mk do
    let outcome ← action.run
    modify after
    return outcome

/-- The scope saved for an owner; that there is none is a fault without a place. -/
def scopeOf (owner : ScopeOwner) : Resolution ScopeId := do
  match ← look (·.scopeOf? owner) with
  | some scope => return scope
  | none => fail (.internal (.noSavedScope owner.text)) .nowhere

theorem run_scopeOf_of_eq_some {owner : ScopeOwner} {t : SymbolTable} {scope : ScopeId}
    (h : t.scopeOf? owner = some scope) : (scopeOf owner).run.run t = (.ok scope, t) := by
  change StateT.run (ExceptT.run (match t.scopeOf? owner with
    | some scope => (pure scope : Resolution ScopeId)
    | none => fail (.internal (.noSavedScope owner.text)) .nowhere)) t = _
  rw [h]
  rfl

/-- The fault of a declaration that has not the parts asked of it. -/
def unexpectedDecl {α : Type} (d : Decl) : Resolution α :=
  fail (.internal (.unexpected d.subject d.name)) d.span.start

end Resolution

end Deferral
