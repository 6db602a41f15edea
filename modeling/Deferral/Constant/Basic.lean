import Deferral.Decimal.Shown

/-!
# Constants

The values that expressions can have before anything runs: truth values, integers of 64 bits and
floats.
-/

namespace Deferral

inductive Constant where
  | boolean (b : Bool)
  | integer (n : Int)
  | float (x : Float)

/-- The text of a constant. -/
def Constant.shown : Constant → String
  | .boolean b => if b then "true" else "false"
  | .integer n => n.repr
  | .float x => Decimal.shown x

end Deferral
