import ClassLang.Decimal.Nearest

/-! # The shortest decimal

Of all decimals that are read back as a given double, the one with the fewest digits, and among
those the nearest; a tie goes to the larger one. -/

namespace ClassLang.Double

/-- A positive double and the limits of the numbers that are rounded to it, all in the same unit
`2 ^ exponent`. -/
structure Interval where
  /-- The double itself. -/
  value : Nat
  /-- The limit below. -/
  low : Nat
  /-- The limit above. -/
  high : Nat
  /-- The exponent of the common unit. -/
  exponent : Int
  /-- Whether the limits themselves are rounded to the double. -/
  closed : Bool

/-- The interval of a positive finite double, from its bit pattern. Below a power of two the
neighbour is half as far away as above it. -/
def Interval.ofBits (bits : Nat) : Interval :=
  let fraction := bits % mantissaRange
  let binade := bits / mantissaRange % 0x800
  let mantissa := if binade = 0 then fraction else fraction + mantissaRange
  { value := 4 * mantissa
    low := if fraction = 0 ∧ 1 < binade then 4 * mantissa - 1 else 4 * mantissa - 2
    high := 4 * mantissa + 2
    exponent := (max binade 1 : Nat) - 1077
    closed := mantissa % 2 = 0 }

variable (interval : Interval)

/-- A number of an interval's unit as a quotient in units of `10 ^ exponent`. -/
def Interval.quotient (amount : Nat) (exponent : Int) : Nat × Nat :=
  (amount * twoTo interval.exponent.toNat * tenTo (-exponent).toNat,
   twoTo (-interval.exponent).toNat * tenTo exponent.toNat)

/-- Whether `digits · 10 ^ exponent` is rounded to the double. -/
def Interval.contains (digits : Nat) (exponent : Int) : Bool :=
  let (low, lowUnit) := interval.quotient interval.low exponent
  let (high, highUnit) := interval.quotient interval.high exponent
  if interval.closed then decide (low ≤ digits * lowUnit ∧ digits * highUnit ≤ high)
  else decide (low < digits * lowUnit ∧ digits * highUnit < high)

/-- Of the two neighbours of the double on the grid of `10 ^ exponent`, the nearer one that is
rounded to it. -/
def Interval.onGrid? (exponent : Int) : Option Decimal :=
  let (amount, unit) := interval.quotient interval.value exponent
  let below := amount / unit
  let above := below + 1
  let nearerAbove := unit ≤ 2 * (amount % unit)
  match interval.contains below exponent, interval.contains above exponent with
  | true, true => some ⟨if nearerAbove then above else below, exponent⟩
  | true, false => some ⟨below, exponent⟩
  | false, true => some ⟨above, exponent⟩
  | false, false => none

/-- How many zeros stand between the point and the first digit of a quotient below one; `budget`
bounds their number. -/
def leadingZeros (numerator denominator : Nat) : Nat → Nat
  | 0 => 0
  | budget + 1 =>
    if denominator ≤ 10 * numerator then 0
    else leadingZeros (10 * numerator) denominator budget + 1

/-- The number of places before the point of the double, negative if it starts with zeros. -/
def Interval.places : Int :=
  let (numerator, denominator) := interval.quotient interval.value 0
  if denominator ≤ numerator then (Nat.toDigits 10 (numerator / denominator)).length
  else -(leadingZeros numerator denominator 330 : Int)

/-- The shortest decimal that is read back as the double of an interval; seventeen digits always
suffice. -/
def Interval.shortest : Decimal :=
  let places := interval.places
  let found := (List.range 17).findSome? fun (count : Nat) =>
    interval.onGrid? (places - (count + 1))
  found.getD ⟨0, 0⟩

end ClassLang.Double
