import Deferral.Constant.Basic
import Deferral.Decimal.Binary64
import Deferral.Diagnostic
import Deferral.Tree.Shape

/-!
# Arithmetic on constants

Integers are computed in 64 bits, and a result that does not fit is a fault; then they are reduced
to the width and sign of the type that the operation has. Floats follow binary floating point.
-/

namespace Deferral

/-- Whether an integer fits in 64 bits with a sign. -/
def fitsWord (n : Int) : Bool := -(twoTo 63 : Int) ≤ n && n < (twoTo 63 : Int)

/-- An integer that fits in 64 bits. -/
def checkWord (n : Int) : Except EvaluationFault Int :=
  if fitsWord n then .ok n else .error .overflow

theorem checkWord_eq_ok_iff {n m : Int} :
    checkWord n = .ok m ↔ fitsWord n ∧ n = m := by
  unfold checkWord
  split <;> simp_all

/-- The integer of a width and sign that agrees with `n` modulo two to that width. -/
def wrapTo (precision : Nat) (signed : Bool) (n : Int) : Int :=
  if signed then n.bmod (twoTo precision) else n % (twoTo precision : Int)

namespace Ty

/-- Reduces an integer to the range of an integer type narrower than 64 bits. -/
def wrap (t : Ty) (n : Int) : Int :=
  match t.unqualified with
  | .integer precision signed => if precision < 64 then wrapTo precision signed n else n
  | _ => n

end Ty

namespace Arithmetic

/-- An arithmetic operation on integers, exact and then checked. Division goes toward zero. -/
def onIntegers (op : Arithmetic) (a b : Int) : Except EvaluationFault Int :=
  match op with
  | .add => checkWord (a + b)
  | .sub => checkWord (a - b)
  | .mul => checkWord (a * b)
  | .div => if b = 0 then .error .divisionByZero else checkWord (a.tdiv b)
  | .rem =>
    -- The quotient is computed along with the remainder and has to fit as well.
    if b = 0 then .error .divisionByZero
    else (checkWord (a.tdiv b)).map fun _ => a.tmod b

/-- An arithmetic operation on floats. -/
def onFloats (op : Arithmetic) (a b : Float) : Float :=
  match op with
  | .add => a + b
  | .sub => a - b
  | .mul => a * b
  | .div => a / b
  | .rem => Decimal.remainder a b

end Arithmetic

/-- The order of two floats, if neither is outside it. -/
def floatOrder? (a b : Float) : Option Ordering :=
  if a < b then some .lt
  else if b < a then some .gt
  else if a == b then some .eq
  else none

namespace Constant

/-- A unary operation on a constant, for an expression of type `t`. -/
def unary (op : UnaryOp) (t : Ty) : Constant → Except EvaluationFault Constant
  | .integer n =>
    match op with
    | .negate => (checkWord (-n)).map fun m => .integer (t.wrap m)
    | .not => .error (.unary op.name (Constant.integer n).shown)
  | .float x =>
    match op with
    | .negate => .ok (.float (-x))
    | .not => .error (.unary op.name (Constant.float x).shown)
  | .boolean b =>
    match op with
    | .not => .ok (.boolean !b)
    | .negate => .error (.unary op.name (Constant.boolean b).shown)

/-- An arithmetic operation on two numbers of one kind, for an expression of type `t`. -/
def arithmetic (op : Arithmetic) (t : Ty) (left right : Constant) :
    Except EvaluationFault Constant :=
  match left, right with
  | .integer a, .integer b => (op.onIntegers a b).map fun n => .integer (t.wrap n)
  | .float a, .float b => .ok (.float (op.onFloats a b))
  | .boolean _, .boolean _ => .error (.booleanOperator (BinaryOp.arithmetic op).symbol)
  | left, right => .error (.mismatched left.shown right.shown)

/-- A comparison of two constants of one kind. Truth values are equal or not, and have no order. -/
def comparison (op : Comparison) (left right : Constant) : Except EvaluationFault Constant :=
  match left, right with
  | .integer a, .integer b => .ok (.boolean (op.holds (some (compare a b))))
  | .float a, .float b => .ok (.boolean (op.holds (floatOrder? a b)))
  | .boolean a, .boolean b =>
    match op with
    | .equals => .ok (.boolean (a == b))
    | .notEquals => .ok (.boolean (a != b))
    | op => .error (.booleanOperator (BinaryOp.comparison op).symbol)
  | left, right => .error (.mismatched left.shown right.shown)

/-- A standard conversion of a constant to the type `t`. -/
def convert (conversion : Conversion) (t : Ty) (c : Constant) : Except EvaluationFault Constant :=
  match conversion, c with
  | .value, c | .qualification, c => .ok c
  | .boolean, .integer n => .ok (.boolean (n != 0))
  | .integer, .boolean b => .ok (.integer (if b then 1 else 0))
  | .integer, .integer n => .ok (.integer (t.wrap n))
  | .float, .integer n => .ok (.float (Decimal.ofInt n))
  | .float, .float x => .ok (.float x)
  | conversion, c => .error (.conversion conversion.name c.shown)

end Constant

end Deferral
