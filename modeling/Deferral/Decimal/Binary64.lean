/-!
# Binary floating point as exact numbers

A finite float is a sign and a natural number times a power of two. `decode` reads those parts off
the bits of a float, `nearest` finds the float closest to a quotient of natural numbers, and
`remainder` takes the remainder of one float by another without rounding.
-/

namespace Deferral

/-! ## Powers of two and ten -/

/-- Two to the power `n`. -/
def twoTo (n : Nat) : Nat := Nat.pow 2 n

@[simp] theorem twoTo_zero : twoTo 0 = 1 := rfl

theorem twoTo_succ (n : Nat) : twoTo (n + 1) = twoTo n * 2 := rfl

theorem twoTo_pos (n : Nat) : 0 < twoTo n := Nat.pow_pos (by decide)

/-- Ten to the power `n`. -/
def tenTo (n : Nat) : Nat := Nat.pow 10 n

end Deferral

namespace Deferral.Decimal

/-! ## Floats -/

/-- The parts of a float: for a finite one the magnitude is `significand * 2 ^ exponent`. -/
inductive Binary64 where
  | nan
  | infinite (negative : Bool)
  | finite (negative : Bool) (significand : Nat) (exponent : Int)
deriving DecidableEq, Repr

/-- The exponent of the last place of the smallest floats. -/
def leastExponent : Int := -1074

/-- The parts of a float, read off its sign, exponent and fraction bits. -/
def decode (x : Float) : Binary64 :=
  let bits := x.toBits.toNat
  let negative := bits / twoTo 63 == 1
  let biased : Nat := bits / twoTo 52 % twoTo 11
  let fraction := bits % twoTo 52
  if biased = 2047 then (if fraction = 0 then .infinite negative else .nan)
  else if biased = 0 then .finite negative fraction leastExponent
  else .finite negative (twoTo 52 + fraction) (biased - 1075)

/-- The natural number closest to `num / den`; of two equally close ones the even one. -/
def roundHalfEven (num den : Nat) : Nat :=
  let quotient := num / den
  let twice := 2 * (num % den)
  if twice < den then quotient
  else if den < twice then quotient + 1
  else quotient + quotient % 2

/-- The numerator and denominator of `num / den` divided by `2 ^ exponent`. -/
def scaleDown (num den : Nat) (exponent : Int) : Nat × Nat :=
  if 0 ≤ exponent then (num, den * twoTo exponent.toNat) else (num * twoTo (-exponent).toNat, den)

/-- The exponent of the last place of the float closest to `num / den`, for a positive quotient:
the one that leaves 53 bits before the point, but never below the least. -/
def placeExponent (num den : Nat) : Int :=
  let guess : Int := (num.log2 : Int) - den.log2 - 53
  let (n, d) := scaleDown num den guess
  max (if n / d < twoTo 53 then guess else guess + 1) leastExponent

/-- The bits of the magnitude closest to `num / den`. The hidden leading bit of the significand
carries into the exponent field, so that rounding up to the next power of two needs no case of its
own; what lies beyond the largest float is infinite. -/
def nearestBits (num den : Nat) : Nat :=
  if num = 0 then 0
  else
    let exponent := placeExponent num den
    let (n, d) := scaleDown num den exponent
    min ((exponent - leastExponent).toNat * twoTo 52 + roundHalfEven n d) (2047 * twoTo 52)

/-- The float closest to `num / den`, ties to even, with a sign. -/
def nearest (negative : Bool) (num den : Nat) : Float :=
  Float.ofBits (UInt64.ofNat ((if negative then twoTo 63 else 0) + nearestBits num den))

/-- The float closest to an integer. -/
def ofInt (n : Int) : Float := nearest (n < 0) n.natAbs 1

/-- The remainder of two magnitudes `a * 2 ^ p` and `b * 2 ^ q`, as a multiple of the smaller power
of two. -/
def magnitudeRemainder (a : Nat) (p : Int) (b : Nat) (q : Int) : Nat × Int :=
  let least := min p q
  ((a * twoTo (p - least).toNat) % (b * twoTo (q - least).toNat), least)

/-- What is left of `x` after taking away `y` as often as it fits, with the sign of `x`. Nothing is
rounded, since the remainder of two floats is a float. There is none of an infinite `x` or by
zero, and a finite `x` is its own remainder by an infinite `y`. -/
def remainder (x y : Float) : Float :=
  match decode x, decode y with
  | .nan, _ | _, .nan | .infinite _, _ => 0.0 / 0.0
  | .finite _ _ _, .infinite _ => x
  | .finite negative a p, .finite _ b q =>
    if b = 0 then 0.0 / 0.0
    else
      let (rest, exponent) := magnitudeRemainder a p b q
      if 0 ≤ exponent then nearest negative (rest * twoTo exponent.toNat) 1
      else nearest negative rest (twoTo (-exponent).toNat)

end Deferral.Decimal
