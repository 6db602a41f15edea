import Deferral.Decimal.Binary64

/-!
# Reading numbers

Decimal text is read as an exact quotient and then rounded once.
-/

namespace Deferral.Decimal

/-- The value of a decimal digit. -/
def digitValue? (c : Char) : Option Nat :=
  if '0' ≤ c ∧ c ≤ '9' then some (c.toNat - '0'.toNat) else none

/-- The natural number that decimal digits denote; the empty text denotes none. -/
def natural? (digits : List Char) : Option Nat :=
  if digits.isEmpty then none
  else digits.foldlM (fun n c => (digitValue? c).map (10 * n + ·)) 0

/-- An integer with an optional sign. -/
def integer? : List Char → Option Int
  | '-' :: digits => (natural? digits).map fun n => -(n : Int)
  | '+' :: digits => (natural? digits).map Int.ofNat
  | digits => (natural? digits).map Int.ofNat

/-- The float closest to `mantissa * 10 ^ exponent`. -/
def scaled (negative : Bool) (mantissa : Nat) (exponent : Int) : Float :=
  nearest negative (mantissa * tenTo exponent.toNat) (tenTo (-exponent).toNat)

/-- Digits with an optional fraction and an optional power of ten. -/
def magnitude? (negative : Bool) (text : List Char) : Option Float := do
  let (mantissa, power) := text.span (· ≠ 'e')
  let exponent ← match power with
    | [] => some 0
    | _ :: digits => integer? digits
  let (whole, rest) := mantissa.span (· ≠ '.')
  let fraction := rest.drop 1
  if rest.length = 1 then none
  let n ← natural? (whole ++ fraction)
  return scaled negative n (exponent - fraction.length)

/-- The float that a text denotes, rounded to the nearest. -/
def float? (text : String) : Option Float :=
  match text.toList with
  | ['N', 'a', 'N'] => some (0.0 / 0.0)
  | ['i', 'n', 'f'] => some (1.0 / 0.0)
  | ['-', 'i', 'n', 'f'] => some (-1.0 / 0.0)
  | '-' :: magnitude => magnitude? true magnitude
  | magnitude => magnitude? false magnitude

end Deferral.Decimal
