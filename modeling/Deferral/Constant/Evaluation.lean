import Deferral.Constant.Arithmetic
import Deferral.Resolution.Basic

/-!
# Evaluation

The value of a typed expression. A constant that has no value yet is given one on the spot; how is
left to the caller, since it takes resolving the constant's own definition.
-/

namespace Deferral

namespace Expr

/-- The fault of an expression that cannot be evaluated. -/
def notEvaluable {α : Type} (fault : EvaluationFault) (span : Span) : Resolution α :=
  Resolution.fail (.notEvaluable fault) span.start

/-- An outcome of arithmetic at an expression. -/
def computed (span : Span) : Except EvaluationFault Constant → Resolution Constant
  | .ok c => pure c
  | .error fault => notEvaluable fault span

/-- The value of a truth value at an expression. -/
def truth (span : Span) : Constant → Resolution Bool
  | .boolean b => pure b
  | _ => notEvaluable .notBoolean span

/-- The value of a name. `bind` gives a constant its value if it has none yet. -/
def evaluateName (bind : DeclId → Resolution Unit) (decl : DeclId) (name : String) (span : Span) :
    Resolution Constant := do
  if ← Resolution.look fun t => (t.decl decl).isConstant then bind decl
  match ← Resolution.look (·.constant? decl) with
  | some c => return c
  | none => notEvaluable (.notConstant name) span

/-- The value of an expression. Operands come from left to right, and a connective that its first
operand decides leaves the second alone. -/
def evaluateWith (bind : DeclId → Resolution Unit) : Expr → Resolution Constant
  | ⟨.deferred _, _, span⟩ => Resolution.fail (.internal .deferredOperand) span.start
  | ⟨.boolean b, _, _⟩ => return .boolean b
  | ⟨.integer n, _, _⟩ => return .integer n
  | ⟨.float x, _, _⟩ => return .float x
  | ⟨.name decl name, _, span⟩ => evaluateName bind decl name span
  | ⟨.unary op operand, type, span⟩ => do
    let c ← evaluateWith bind operand
    computed span (Constant.unary op type c)
  | ⟨.binary (.connective op) left right, _, _⟩ => do
    let l ← truth left.span (← evaluateWith bind left)
    if l = (op = .or) then return .boolean l
    let r ← truth right.span (← evaluateWith bind right)
    return .boolean r
  | ⟨.binary (.arithmetic op) left right, type, span⟩ => do
    let l ← evaluateWith bind left
    let r ← evaluateWith bind right
    computed span (Constant.arithmetic op type l r)
  | ⟨.binary (.comparison op) left right, _, span⟩ => do
    let l ← evaluateWith bind left
    let r ← evaluateWith bind right
    computed span (Constant.comparison op l r)
  | ⟨.call _ _, _, span⟩ => notEvaluable .call span
  | ⟨.assign _ _, _, span⟩ => notEvaluable .assignment span
  | ⟨.converted conversion source, type, span⟩ => do
    let c ← evaluateWith bind source
    computed span (Constant.convert conversion type c)

end Expr

end Deferral
