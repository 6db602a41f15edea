/-!
# Identities of declarations and scopes

Declarations and scopes are numbered in the order in which they are made, each from zero.
-/

namespace Deferral

/-- The number of a declaration. -/
structure DeclId where
  index : Nat
deriving DecidableEq, Repr, Inhabited

/-- The number of a scope. -/
structure ScopeId where
  index : Nat
deriving DecidableEq, Repr, Inhabited

/-- The scope that encloses every other. -/
def ScopeId.global : ScopeId := ⟨0⟩

end Deferral
