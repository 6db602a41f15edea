import Deferral.Tree.Basic

/-!
# Statements

Statements hold their expressions in place; a declaration statement only names the declaration that
was made when it was read. A block keeps the number under which its scope was saved.
-/

namespace Deferral

inductive Stmt where
  | block (id : Nat) (body : List Stmt) (span : Span)
  | returning (value : Option Expr) (span : Span)
  | yielding (value : Expr) (span : Span)
  | conditional (condition : Expr) (onTrue : Stmt) (onFalse : Option Stmt) (span : Span)
  | whileLoop (condition : Expr) (body : Stmt) (span : Span)
  | breaking (span : Span)
  | continuing (span : Span)
  | declaration (decl : DeclId) (span : Span)
  | expression (value : Expr)

namespace Stmt

instance : Inhabited Stmt := ⟨.breaking .nowhere⟩

def span : Stmt → Span
  | .block _ _ span | .returning _ span | .yielding _ span | .conditional _ _ _ span => span
  | .whileLoop _ _ span | .breaking span | .continuing span | .declaration _ span => span
  | .expression value => value.span

/-- The declaration that a declaration statement stands for. -/
def declaration? : Stmt → Option DeclId
  | .declaration decl _ => some decl
  | _ => none

end Stmt

end Deferral
