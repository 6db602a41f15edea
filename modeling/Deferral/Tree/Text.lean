import Deferral.Decimal.Shown
import Deferral.Tree.Basic

/-!
# The text of types and expressions

Types are written with their suffixes from the inside out, expressions with brackets around every
binary operation. Conversions are implicit in a source and leave no trace in the text.
-/

namespace Deferral

mutual

/-- The text of a type. -/
def Ty.shown : Ty → String
  | .void => "void"
  | .bool => "bool"
  | .integer precision signed => (if signed then "int" else "uint") ++ precision.repr
  | .float precision => "float" ++ precision.repr
  | .auto => "auto"
  | .decltype e => "decltype(" ++ e.shown ++ ")"
  | .decltypeAuto => "decltype(auto)"
  | .function parameters result => "(" ++ Ty.shownAll parameters ++ ") -> " ++ result.shown
  | .reference t => t.shown ++ "&"
  | .qualified t q => t.shown ++ q.suffix
  | .pointer t => t.shown ++ "*"
  | .array t extent => t.shown ++ "[" ++ extent.repr ++ "]"
  | .sequence t => t.shown ++ "[]"
  | .named _ _ name => name
  | .metatype => "type"
  | .deferred excerpt => excerpt.shown

/-- The texts of types with commas between them. -/
def Ty.shownAll : List Ty → String
  | [] => ""
  | [t] => t.shown
  | t :: rest => t.shown ++ ", " ++ Ty.shownAll rest

/-- The text of what an expression does. -/
def Node.shown : Node → String
  | .deferred excerpt => excerpt.shown
  | .boolean b => if b then "true" else "false"
  | .integer n => n.repr
  | .float x => Decimal.shown x
  | .name _ name => name
  | .unary op operand => op.symbol ++ operand.shown
  | .binary op left right => "(" ++ left.shown ++ " " ++ op.symbol ++ " " ++ right.shown ++ ")"
  | .call callee arguments => callee.shown ++ "(" ++ Expr.shownAll arguments ++ ")"
  | .assign target value => target.shown ++ " = " ++ value.shown
  | .converted _ source => source.shown

/-- The text of an expression. -/
def Expr.shown : Expr → String
  | ⟨node, _, _⟩ => node.shown

/-- The texts of expressions with commas between them. -/
def Expr.shownAll : List Expr → String
  | [] => ""
  | [e] => e.shown
  | e :: rest => e.shown ++ ", " ++ Expr.shownAll rest

end

end Deferral
