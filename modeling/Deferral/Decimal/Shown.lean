import Deferral.Decimal.Shortest

/-!
# The text of a float

A float is shown by the shortest decimal that reads back: positionally while its size is moderate,
with a power of ten otherwise.
-/

namespace Deferral.Decimal

/-- Which leading exponents are written positionally: those from `least` and below `limit`. -/
structure Layout where
  least : Int
  limit : Int
deriving DecidableEq, Repr

/-- Values from one ten-thousandth and below ten to the sixteenth are written positionally. -/
def Layout.standard : Layout := ⟨-4, 16⟩

/-- The digits of a positive number without the zeros at its end, and the exponent of the first. -/
def significantDigits (d : Scaled) : List Char × Int :=
  let digits := Nat.toDigits 10 d.digits
  ((digits.reverse.dropWhile (· == '0')).reverse, d.exponent + digits.length - 1)

/-- Digits around a decimal point, with at least one on either side. -/
def positional (digits : List Char) (leading : Int) : List Char :=
  if leading < 0 then
    ['0', '.'] ++ List.replicate (-leading - 1).toNat '0' ++ digits
  else
    let whole := leading.toNat + 1
    let fraction := digits.drop whole
    digits.take whole ++ List.replicate (whole - digits.length) '0' ++
      ('.' :: if fraction.isEmpty then ['0'] else fraction)

/-- One digit before the point, the others behind it if there are any, and the power of ten. -/
def scientific (digits : List Char) (leading : Int) : List Char :=
  let point := match digits.drop 1 with
    | [] => []
    | rest => '.' :: rest
  digits.take 1 ++ point ++ ('e' :: leading.repr.toList)

/-- The text of a positive number in a layout. -/
def Layout.show (layout : Layout) (d : Scaled) : List Char :=
  let (digits, leading) := significantDigits d
  if layout.least ≤ leading ∧ leading < layout.limit then positional digits leading
  else scientific digits leading

/-- The text of a float. -/
def shown (x : Float) : String :=
  match decode x with
  | .nan => "NaN"
  | .infinite negative => if negative then "-inf" else "inf"
  | .finite negative significand exponent =>
    let magnitude :=
      if significand = 0 then ['0', '.', '0']
      else Layout.standard.show (Interval.ofFloat significand exponent).shortest
    String.ofList (if negative then '-' :: magnitude else magnitude)

end Deferral.Decimal
