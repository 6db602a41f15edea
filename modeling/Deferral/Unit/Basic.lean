import Deferral.Declaration.Statement

/-!
# Units

A unit is the statements of one source and the scope they stand in.
-/

namespace Deferral

structure SourceUnit where
  body : List Stmt
  scope : ScopeId

end Deferral
