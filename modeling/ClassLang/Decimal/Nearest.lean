import ClassLang.Decimal

/-! # The nearest double

A positive quotient of natural numbers is rounded to the nearest double, a tie going to the even
neighbour. The result is given as the bit pattern, in which the patterns of growing doubles are
consecutive: rounding up past the largest mantissa therefore reaches the next binade, and past the
largest double infinity. -/

namespace ClassLang.Double

/-- A power of two. -/
def twoTo (exponent : Nat) : Nat := Nat.pow 2 exponent

/-- A power of ten. -/
def tenTo (exponent : Nat) : Nat := Nat.pow 10 exponent

/-- The number of the patterns of one binade, and the least mantissa with all its bits. -/
def mantissaRange : Nat := 0x10000000000000

/-- The bit pattern of infinity. -/
def infinityBits : Nat := 0x7FF0000000000000

/-- The bit of the sign in a bit pattern. -/
def signBit : Nat := 0x8000000000000000

/-- The least exponent of a unit in the last place. -/
def leastUnit : Int := -1074

variable (numerator denominator : Nat)

/-- A quotient rounded to the nearest natural number, a tie to the even one. -/
def roundQuotient : Nat :=
  let quotient := numerator / denominator
  let twice := 2 * (numerator % denominator)
  if twice < denominator ∨ (twice = denominator ∧ quotient % 2 = 0) then quotient else quotient + 1

/-- The quotient `numerator / (denominator · 2 ^ unit)` as a numerator and a denominator. -/
def inUnits (unit : Int) : Nat × Nat :=
  if unit < 0 then (numerator * twoTo (-unit).toNat, denominator)
  else (numerator, denominator * twoTo unit.toNat)

/-- The exponent of the unit in the last place for a positive quotient: the quotient has 53 binary
digits in front of it, or fewer at the least unit. -/
def unitOf : Int :=
  let low : Int := (numerator.log2 : Int) - denominator.log2 - 53
  let (scaled, divisor) := inUnits numerator denominator low
  let unit := if scaled / divisor < 2 * mantissaRange then low else low + 1
  max unit leastUnit

/-- The bit pattern of the double nearest to a positive quotient. -/
def nearestBits : Nat :=
  let unit := unitOf numerator denominator
  let (scaled, divisor) := inUnits numerator denominator unit
  min infinityBits ((unit - leastUnit).toNat * mantissaRange + roundQuotient scaled divisor)

end ClassLang.Double

namespace ClassLang.Decimal

/-- The bit pattern of the double nearest to a decimal. A decimal beyond `10 ^ 310` is infinite and
one below `10 ^ (-330)` is zero; all others are rounded exactly. -/
def nearestBits (decimal : Decimal) : Nat :=
  let places := (Nat.toDigits 10 decimal.digits).length + decimal.exponent
  if decimal.digits = 0 ∨ places < -330 then 0
  else if 310 < places then Double.infinityBits
  else if decimal.exponent < 0 then
    Double.nearestBits decimal.digits (Double.tenTo (-decimal.exponent).toNat)
  else Double.nearestBits (decimal.digits * Double.tenTo decimal.exponent.toNat) 1

/-- The double nearest to a decimal. -/
def nearest (decimal : Decimal) : Float := Float.ofBits decimal.nearestBits.toUInt64

/-- Whether the double nearest to a decimal is finite. -/
def isFinite (decimal : Decimal) : Bool := decimal.nearestBits < Double.infinityBits

end ClassLang.Decimal
