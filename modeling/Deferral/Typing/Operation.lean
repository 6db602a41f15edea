import Deferral.Conversion.CommonType
import Deferral.Typing.Initializer

/-!
# Typing operations

Each function makes one expression of its typed operands: it converts them as the operation asks and
gives the whole its type. Operands of dependent type are left unconverted.
-/

namespace Deferral

namespace Expr

/-- The fault of an expression whose type is not of the kind wanted. -/
def mismatch (wanted : String) (e : Expr) : Diagnostic :=
  { cause := .typeMismatch wanted e.type.shown, position := e.start }

/-- Refuses an operand that is known not to be a number. -/
def checkArithmetic (e : Expr) : Except Diagnostic Unit :=
  if e.type.isArithmetic then .ok () else .error (e.mismatch "an arithmetic type")

/-- The negative of a number, or the negation of a truth value. -/
def ofUnary (op : UnaryOp) (operand : Expr) (span : Span) : Except Diagnostic Expr :=
  match op with
  | .negate => do
    let operand := operand.asValue
    if !operand.type.isDependent then operand.checkArithmetic
    return ⟨.unary .negate operand, operand.type, span⟩
  | .not => do
    let operand ← operand.asCondition
    return ⟨.unary .not operand, .bool, span⟩

/-- The type of an arithmetic operation or a comparison whose operands have the type `operand`. -/
def resultType (op : BinaryOp) (operand : Ty) : Ty :=
  match op with
  | .arithmetic _ => operand
  | _ => .bool

/-- Two truth values joined by a connective. -/
def ofConnective (op : Connective) (left right : Expr) : Except Diagnostic Expr := do
  let l ← left.asCondition
  let r ← right.asCondition
  return ⟨.binary (.connective op) l r, .bool, left.span.upTo right.span⟩

/-- Two operands in their common type; arithmetic wants numbers. A dependent operand leaves both as
they are, and gives arithmetic its own type. -/
def ofOperands (op : BinaryOp) (left right : Expr) : Except Diagnostic Expr := do
  let span := left.span.upTo right.span
  let left := left.asValue
  let right := right.asValue
  if left.type.isDependent then return ⟨.binary op left right, resultType op left.type, span⟩
  if right.type.isDependent then return ⟨.binary op left right, resultType op right.type, span⟩
  if let .arithmetic _ := op then
    left.checkArithmetic
    right.checkArithmetic
  let (left, right) ← left.common right
  return ⟨.binary op left right, resultType op left.type, span⟩

/-- A binary operation, from the start of its left operand to the end of its right one. -/
def ofBinary (op : BinaryOp) (left right : Expr) : Except Diagnostic Expr :=
  match op with
  | .connective connective => ofConnective connective left right
  | op => ofOperands op left right

/-- Arguments converted to initialize the parameters, one by one. -/
def bindArguments : (arguments : List Expr) → (parameters : List Ty) → Except Diagnostic (List Expr)
  | argument :: arguments, parameter :: parameters => do
    let bound ← argument.initializer parameter
    let rest ← bindArguments arguments parameters
    return bound :: rest
  | _, _ => .ok []

/-- A call. A function takes as many arguments as it has parameters and yields its result; what a
dependent callee yields is not known yet. -/
def ofCall (callee : Expr) (arguments : List Expr) (span : Span) : Except Diagnostic Expr :=
  match callee.type.valueType with
  | .function parameters result => do
    let expected := parameters.length
    let received := arguments.length
    if expected < received then
      throw { cause := .tooManyArguments expected received, position := span.start }
    if received < expected then
      throw { cause := .tooFewArguments expected received, position := span.start }
    let bound ← bindArguments arguments parameters
    return ⟨.call callee bound, result, span⟩
  | type =>
    if type.isDependent then .ok ⟨.call callee (arguments.map asValue), .auto, span⟩
    else .error (callee.mismatch "a function")

/-- An assignment has the type of what is assigned to. -/
def ofAssign (target value : Expr) : Except Diagnostic Expr := do
  let bound ← value.asValue.initializer target.type.valueType
  return ⟨.assign target bound, target.type, target.span.upTo value.span⟩

end Expr

end Deferral
