import Deferral.Decimal.Binary64

/-!
# The shortest decimal that reads back

A float stands for every real number that rounds to it. Of the decimals in that interval `shortest`
finds one with the fewest digits and among those the nearest to the float itself.
-/

namespace Deferral.Decimal

/-- The number `digits * 10 ^ exponent`. -/
structure Scaled where
  digits : Nat
  exponent : Int
deriving DecidableEq, Repr

/-- The real numbers that round to one float, as numerators over one denominator: the float itself,
the two ends, and whether the ends belong. -/
structure Interval where
  low : Nat
  value : Nat
  high : Nat
  den : Nat
  closed : Bool
deriving DecidableEq, Repr

namespace Interval

/-- The interval of `significand * 2 ^ exponent`. It reaches half a place up and half a place down,
but only a quarter down from a power of two, below which the floats lie twice as dense. The ends
round to even. -/
def ofFloat (significand : Nat) (exponent : Int) : Interval :=
  let down := if significand = twoTo 52 ∧ leastExponent < exponent then 1 else 2
  let unit := twoTo (exponent - 2).toNat
  { low := (4 * significand - down) * unit
    value := 4 * significand * unit
    high := (4 * significand + 2) * unit
    den := twoTo (2 - exponent).toNat
    closed := significand % 2 == 0 }

/-- Whether `c * 10 ^ exponent` lies in the interval. -/
def contains (i : Interval) (c : Nat) (exponent : Int) : Bool :=
  let scaled := c * tenTo exponent.toNat * i.den
  let unit := tenTo (-exponent).toNat
  if i.closed then i.low * unit ≤ scaled && scaled ≤ i.high * unit
  else i.low * unit < scaled && scaled < i.high * unit

/-- The integer part of the value in units of `10 ^ exponent`, and twice the rest over its
denominator. -/
def onGrid (i : Interval) (exponent : Int) : Nat × Nat × Nat :=
  let num := i.value * tenTo (-exponent).toNat
  let den := i.den * tenTo exponent.toNat
  (num / den, 2 * (num % den), den)

/-- The multiple of `10 ^ exponent` that reads back as the value, if one does: of the two next to
the value the nearer, and the larger if both are equally near. -/
def onGrid? (i : Interval) (exponent : Int) : Option Scaled :=
  let (below, twice, den) := i.onGrid exponent
  match i.contains below exponent, i.contains (below + 1) exponent with
  | true, true => some ⟨if twice < den then below else below + 1, exponent⟩
  | true, false => some ⟨below, exponent⟩
  | false, true => some ⟨below + 1, exponent⟩
  | false, false => none

/-- The exponent of the leading decimal digit of the value. -/
def leadingExponent (i : Interval) : Int :=
  if i.den ≤ i.value then ((Nat.toDigits 10 (i.value / i.den)).length : Int) - 1
  else -Int.ofNat (((List.range 350).find? fun k => i.den ≤ i.value * tenTo k).getD 350)

/-- The coarsest grid of powers of ten with a multiple in the interval, seventeen digits at most:
so many always read back. -/
def shortest (i : Interval) : Scaled :=
  let leading := i.leadingExponent
  ((List.range 17).findSome? fun n => i.onGrid? (leading - Int.ofNat n)).getD
    ⟨(i.onGrid (leading - 17)).1, leading - 17⟩

end Interval

end Deferral.Decimal
