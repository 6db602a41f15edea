import Deferral.Resolution.Definition

/-!
# Reporting

A pass over a unit does not stop at a fault: it reports it and goes on with the next declaration.
`Reporting` collects the diagnostics in the order in which they are found.
-/

namespace Deferral

/-- A computation over the symbol table that reports diagnostics and always ends. -/
abbrev Reporting := StateT (List Diagnostic) (StateM SymbolTable)

namespace Reporting

/-- What `pick` finds in the table. -/
def look {α : Type} (pick : SymbolTable → α) : Reporting α :=
  (pick <$> get : StateM SymbolTable α)

/-- Changes the table. -/
def change (f : SymbolTable → SymbolTable) : Reporting Unit := (modify f : StateM SymbolTable Unit)

def report (d : Diagnostic) : Reporting Unit := modify fun reported => reported ++ [d]

/-- Reports a fault, if there is one, against a subject. -/
def reportWithin (subject : Subject) : Option Diagnostic → Reporting Unit
  | none => return
  | some d => report (d.within subject)

/-- The outcome of resolving. -/
def attempt {α : Type} (action : Resolution α) : Reporting (Except Diagnostic α) :=
  (action.run : StateM SymbolTable (Except Diagnostic α))

/-- Runs a computation with a scope active. -/
def under {α : Type} (scope : ScopeId) (action : Reporting α) : Reporting α := do
  change (·.enter scope)
  let a ← action
  change (·.leave)
  return a

/-- What the computation did with the scope active, and the scope left. -/
theorem run_under {α : Type} (scope : ScopeId) (action : Reporting α) (reported : List Diagnostic)
    (t : SymbolTable) :
    ((under scope action).run reported).run t =
      (((action.run reported).run (t.enter scope)).1,
        ((action.run reported).run (t.enter scope)).2.leave) := rfl

/-- Runs a computation in a fresh scope inside the innermost one, which nothing can name later. -/
def underFresh {α : Type} (action : Reporting α) : Reporting α := do
  let scope ← look (·.nextScope)
  change fun t => t.addScope t.innermost
  under scope action

/-- The diagnostics of a computation that starts with none. -/
def collect {α : Type} (action : Reporting α) : StateM SymbolTable (α × List Diagnostic) :=
  action.run []

end Reporting

/-- A computation that reports diagnostics and may end in one that is not reported yet. -/
abbrev Faulting := ExceptT Diagnostic Reporting

namespace Faulting

/-- What `pick` finds in the table. -/
def look {α : Type} (pick : SymbolTable → α) : Faulting α := (Reporting.look pick : Reporting α)

/-- Changes the table. -/
def change (f : SymbolTable → SymbolTable) : Faulting Unit := (Reporting.change f : Reporting Unit)

/-- Resolves, and ends where resolving ends in a fault. -/
def resolve {α : Type} (action : Resolution α) : Faulting α := ExceptT.mk (Reporting.attempt action)

/-- Runs a computation, and `after` on the table however it ends. -/
def ending {α : Type} (action : Faulting α) (after : SymbolTable → SymbolTable) : Faulting α :=
  ExceptT.mk do
    let outcome ← action.run
    Reporting.change after
    return outcome

/-- The fault that a computation ends in, if it does. -/
def fault? (action : Faulting Unit) : Reporting (Option Diagnostic) := do
  match ← action.run with
  | .ok _ => return none
  | .error d => return some d

end Faulting

end Deferral
