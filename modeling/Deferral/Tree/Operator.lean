import Deferral.Token.Kind

/-!
# Operators

Binary operators fall into three families: arithmetic on numbers, comparisons that yield a truth
value, and the two connectives of truth values, which need not evaluate their second operand.
-/

namespace Deferral

inductive UnaryOp where
  | negate
  | not
deriving DecidableEq, Repr

namespace UnaryOp

def symbol : UnaryOp → String
  | .negate => "-"
  | .not => "!"

def name : UnaryOp → String
  | .negate => "Negate"
  | .not => "Not"

end UnaryOp

inductive Arithmetic where
  | add | sub | mul | div | rem
deriving DecidableEq, Repr

inductive Comparison where
  | less | lessEquals | greater | greaterEquals | equals | notEquals
deriving DecidableEq, Repr

inductive Connective where
  | and | or
deriving DecidableEq, Repr

inductive BinaryOp where
  | arithmetic (op : Arithmetic)
  | comparison (op : Comparison)
  | connective (op : Connective)
deriving DecidableEq, Repr

namespace BinaryOp

def symbol : BinaryOp → String
  | .arithmetic .add => "+"
  | .arithmetic .sub => "-"
  | .arithmetic .mul => "*"
  | .arithmetic .div => "/"
  | .arithmetic .rem => "%"
  | .comparison .less => "<"
  | .comparison .lessEquals => "<="
  | .comparison .greater => ">"
  | .comparison .greaterEquals => ">="
  | .comparison .equals => "=="
  | .comparison .notEquals => "!="
  | .connective .and => "&&"
  | .connective .or => "||"

/-- The operator that a mark stands for between two operands. -/
def ofMark? : Mark → Option BinaryOp
  | .plus => some (.arithmetic .add)
  | .dash => some (.arithmetic .sub)
  | .star => some (.arithmetic .mul)
  | .slash => some (.arithmetic .div)
  | .percent => some (.arithmetic .rem)
  | .less => some (.comparison .less)
  | .lessEquals => some (.comparison .lessEquals)
  | .greater => some (.comparison .greater)
  | .greaterEquals => some (.comparison .greaterEquals)
  | .equals => some (.comparison .equals)
  | .notEquals => some (.comparison .notEquals)
  | .andMark => some (.connective .and)
  | .orMark => some (.connective .or)
  | _ => none

end BinaryOp

/-- Whether an order between two things satisfies a comparison; `none` stands for two numbers that
have no order, of which only `notEquals` holds. -/
def Comparison.holds (op : Comparison) (order : Option Ordering) : Bool :=
  match op, order with
  | .notEquals, o => o ≠ some .eq
  | _, none => false
  | .less, some o => o = .lt
  | .lessEquals, some o => o ≠ .gt
  | .greater, some o => o = .gt
  | .greaterEquals, some o => o ≠ .lt
  | .equals, some o => o = .eq

end Deferral
