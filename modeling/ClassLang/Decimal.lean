/-! # Decimal numbers

A decimal is a natural number of digits scaled by a power of ten. It is read from a numeral and
written out in positional or in scientific form. -/

namespace ClassLang

/-- The number `digits · 10 ^ exponent`. -/
structure Decimal where
  /-- The digits as one natural number. -/
  digits : Nat
  /-- The power of ten that scales them. -/
  exponent : Int
  deriving DecidableEq, Repr

namespace Decimal

/-! ## Reading -/

/-- The natural number that decimal digits spell. -/
def valueOf (digits : List Char) : Nat :=
  digits.foldl (fun value digit => 10 * value + (digit.toNat - '0'.toNat)) 0

/-- Split off a sign; the first component says whether it was a minus. -/
def splitSign : List Char → Bool × List Char
  | '-' :: rest => (true, rest)
  | '+' :: rest => (false, rest)
  | characters => (false, characters)

/-- The integer that one or more digits spell, with or without a sign. -/
def integer? (characters : List Char) : Option Int :=
  let (negative, digits) := splitSign characters
  if digits ≠ [] ∧ digits.all Char.isDigit then
    let value : Int := valueOf digits
    some (if negative then -value else value)
  else none

/-- The power of ten after the digits: nothing, or a mark and an integer. -/
def scale? : List Char → Option Int
  | [] => some 0
  | mark :: rest => if mark = 'e' ∨ mark = 'E' then integer? rest else none

/-- Digits after a point, and what follows them. -/
def afterPoint : List Char → List Char × List Char
  | '.' :: rest => (rest.takeWhile Char.isDigit, rest.dropWhile Char.isDigit)
  | characters => ([], characters)

/-- The decimal that a numeral without a sign spells: digits on at least one side of an optional
point, then an optional power of ten. -/
def ofNumeral? (characters : List Char) : Option Decimal :=
  let whole := characters.takeWhile Char.isDigit
  let (fraction, rest) := afterPoint (characters.dropWhile Char.isDigit)
  if whole = [] ∧ fraction = [] then none
  else (scale? rest).map fun scale => ⟨valueOf (whole ++ fraction), scale - fraction.length⟩

/-! ## Writing -/

/-- The digits from the first to the last that is not zero, and the number of places before the
point. -/
def significant (decimal : Decimal) : List Char × Int :=
  let digits := (Nat.toDigits 10 decimal.digits)
  (((digits.reverse.dropWhile (· = '0')).reverse), decimal.exponent + digits.length)

/-- A run of zeros. -/
def zeros (count : Nat) : List Char := List.replicate count '0'

/-- Digits written with a point after `places` of them, with a digit on both sides of it. -/
def positional (digits : List Char) (places : Int) : String :=
  if places ≤ 0 then String.ofList (['0', '.'] ++ zeros (-places).toNat ++ digits)
  else
    let whole := places.toNat
    let fraction := digits.drop whole
    String.ofList (digits.take whole ++ zeros (whole - digits.length) ++ ['.'] ++
      (if fraction = [] then ['0'] else fraction))

/-- Digits written with a point after the first of them and a power of ten. -/
def scientific (digits : List Char) (places : Int) : String :=
  let fraction := digits.drop 1
  String.ofList (digits.take 1 ++ (if fraction = [] then [] else '.' :: fraction)) ++ "e" ++
    toString (places - 1)

/-- Which numbers are written in positional form. -/
structure Style where
  /-- The least number of places before the point. -/
  least : Int
  /-- The greatest number of places before the point. -/
  greatest : Int

/-- A decimal written in a style. -/
def write (style : Style) (decimal : Decimal) : String :=
  let (digits, places) := decimal.significant
  if style.least ≤ places ∧ places ≤ style.greatest then positional digits places
  else scientific digits places

end Decimal

end ClassLang
