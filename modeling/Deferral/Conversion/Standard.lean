import Deferral.Conversion.Equivalence
import Deferral.Diagnostic
import Deferral.Tree.Text

/-!
# Standard conversions

An expression converts to a type by at most one step of each of three kinds, in this order: reading
the value behind a reference, changing the kind or width of a number, and gaining qualifiers. Each
step is an expression around the one before; a step that does not apply leaves it alone.
-/

namespace Deferral

namespace Expr

/-- Reads the value that an expression of reference type refers to. -/
def dereferenced (e : Expr) : Expr :=
  match e.type with
  | .reference target => e.convert .value target
  | _ => e

@[simp] theorem type_dereferenced (e : Expr) : e.dereferenced.type = e.type.referent := by
  obtain ⟨node, type, span⟩ := e
  cases type <;> rfl

@[simp] theorem span_dereferenced (e : Expr) : e.dereferenced.span = e.span := by
  obtain ⟨node, type, span⟩ := e
  cases type <;> rfl

/-- Reads the value behind a reference, unless a reference is wanted. -/
def categoryConverted (e : Expr) (target : Ty) : Expr :=
  if target.isReference then e else e.dereferenced

/-- An integer is true unless it is zero. -/
def toBoolean (e : Expr) (target : Ty) : Expr :=
  if e.type.isInteger then e.convert .boolean target else e

/-- An integer widens, or changes sign at the same width, and a truth value is zero or one. Nothing
is narrowed. -/
def toInteger (e : Expr) (target : Ty) : Expr :=
  match target.unqualified, e.type.unqualified with
  | .integer wide signed, .integer precision signed' =>
    if precision < wide ∨ (precision = wide ∧ signed' ≠ signed) then e.convert .integer target
    else e
  | .integer _ _, .bool => e.convert .integer target
  | _, _ => e

/-- A float widens. -/
def toWiderFloat (e : Expr) (target : Ty) : Expr :=
  match target.unqualified, e.type.unqualified with
  | .float wide, .float precision => if precision < wide then e.convert .float target else e
  | _, _ => e

/-- An integer becomes a float of any width. -/
def integerToFloat (e : Expr) (target : Ty) : Expr :=
  if e.type.isInteger && target.isFloat then e.convert .float target else e

/-- A float widens and an integer becomes a float. -/
def toFloat (e : Expr) (target : Ty) : Expr :=
  if e.type.isFloat then e.toWiderFloat target
  else if e.type.isInteger then e.integerToFloat target
  else e

/-- The step that changes the kind or width of a number, as the target asks without its
qualifiers. -/
def valueConverted (e : Expr) (target : Ty) : Expr :=
  if e.type.isReference then e
  else match target.unqualified with
    | .bool => e.toBoolean .bool
    | .integer p s => e.toInteger (.integer p s)
    | .float p => e.toFloat (.float p)
    | _ => e

/-- The step that gains qualifiers, between similar types. -/
def qualificationConverted (e : Expr) (target : Ty) : Expr :=
  if e.type.similar target && Qualifiers.convertible e.type.signature target.signature then
    e.convert .qualification target
  else e

/-- Converts an expression to a type, and stops as soon as its type is equivalent to it. -/
def convertTo (e : Expr) (target : Ty) : Except Diagnostic Expr :=
  let first := e.categoryConverted target
  if first.type.equivalent target then .ok first
  else
    let second := first.valueConverted target
    if second.type.equivalent target then .ok second
    else
      let third := second.qualificationConverted target
      if third.type.equivalent target then .ok third
      else .error {
        cause := .noConversion e.type.shown target.shown
        position := third.start }

/-- Drops the outer qualifiers, which belong to an object and not to its value. -/
def withoutQualifiers (e : Expr) : Expr :=
  match e.type with
  | .qualified inner _ => e.convert .qualification inner
  | _ => e

@[simp] theorem type_withoutQualifiers (e : Expr) :
    e.withoutQualifiers.type = e.type.unqualified := by
  obtain ⟨node, type, span⟩ := e
  cases type <;> rfl

@[simp] theorem span_withoutQualifiers (e : Expr) : e.withoutQualifiers.span = e.span := by
  obtain ⟨node, type, span⟩ := e
  cases type <;> rfl

/-- Reads an expression as a value: what its reference refers to, without outer qualifiers. -/
def asValue (e : Expr) : Expr := e.dereferenced.withoutQualifiers

@[simp] theorem type_asValue (e : Expr) : e.asValue.type = e.type.valueType := by
  simp [asValue, Ty.valueType]

@[simp] theorem span_asValue (e : Expr) : e.asValue.span = e.span := by
  simp [asValue]

end Expr

end Deferral
