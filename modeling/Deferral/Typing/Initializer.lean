import Deferral.Conversion.Standard

/-!
# Conditions and initializers

What is asked of an expression at a place that fixes its type. Nothing is converted while either
type is dependent, since it may turn out to fit.
-/

namespace Deferral

namespace Expr

/-- Reads an expression as a truth value. -/
def asCondition (e : Expr) : Except Diagnostic Expr :=
  let read := e.asValue
  if read.type.isDependent then .ok read else read.convertTo .bool

/-- Converts an expression to initialize an object of the type `target`. A reference binds to an
expression whose value has the referenced type; everything else takes the standard conversions. -/
def initializer (e : Expr) (target : Ty) : Except Diagnostic Expr :=
  if e.type.isDependent || target.isDependent then .ok e
  else match target with
    | .reference referenced =>
      if e.type.valueType.equivalent referenced.valueType then .ok e
      else .error { cause := .noConversion e.type.shown target.shown, position := e.start }
    | _ => e.convertTo target

/-- Converts an expression to initialize an object, reading it as a value unless a reference is
bound. -/
def definingInitializer (e : Expr) (target : Ty) : Except Diagnostic Expr :=
  (if e.type.isReference || target.isReference then e else e.asValue).initializer target

end Expr

end Deferral
