import ClassLang.Decimal.Nearest
import ClassLang.Decimal.Shortest
import ClassLang.Syntax.Source

/-! # Constants

The values that literals denote: integers of 64 bits, doubles and truth values. Operations on
constants are computed where they have a result that can be written as a literal again: an integer
operation that overflows or divides by zero has none, nor does one on doubles with an infinite or
undefined result. -/

namespace ClassLang

/-- The value of a literal. -/
inductive Constant where
  /-- An integer. -/
  | int (value : Int)
  /-- A double. -/
  | real (value : Float)
  /-- A truth value. -/
  | bool (value : Bool)
  deriving Repr

namespace Constant

/-! ## Integers -/

/-- The least integer of 64 bits. -/
def minInt : Int := -0x8000000000000000

/-- The greatest integer of 64 bits. -/
def maxInt : Int := 0x7FFFFFFFFFFFFFFF

/-- An integer, if it fits into 64 bits. -/
def fitting? (value : Int) : Option Int :=
  if minInt ≤ value ∧ value ≤ maxInt then some value else none

/-- The integer that a literal's text denotes. -/
def intOfText? (text : String) : Option Int := (Decimal.integer? text.toList).bind fitting?

/-- The result of an arithmetic operation on integers. Division goes toward zero. -/
def intArithmetic? : BinaryOp → Int → Int → Option Int
  | .add, left, right => fitting? (left + right)
  | .sub, left, right => fitting? (left - right)
  | .mul, left, right => fitting? (left * right)
  | .div, left, right => if right = 0 then none else fitting? (left.tdiv right)
  | _, _, _ => none

/-- The result of comparing integers. -/
def intCompare : BinaryOp → Int → Int → Bool
  | .gt, left, right => right < left
  | .lt, left, right => left < right
  | .ge, left, right => right ≤ left
  | .le, left, right => left ≤ right
  | .eq, left, right => left = right
  | .ne, left, right => left ≠ right
  | _, _, _ => false

/-! ## Doubles -/

/-- The infinite double. -/
def infinity : Float := Float.ofBits Double.infinityBits.toUInt64

/-- The undefined double. -/
def undefined : Float := Float.ofBits 0x7FF8000000000000

/-- The double that a text without a sign denotes: a numeral, or the name of infinity or of the
undefined value in letters of any case. -/
def magnitudeOfText? (characters : List Char) : Option Float :=
  let name := String.ofList (characters.map Char.toLower)
  if name = "inf" ∨ name = "infinity" then some infinity
  else if name = "nan" then some undefined
  else (Decimal.ofNumeral? characters).map Decimal.nearest

/-- The double that a literal's text denotes. -/
def realOfText? (text : String) : Option Float :=
  let (negative, characters) := Decimal.splitSign text.toList
  (magnitudeOfText? characters).map fun magnitude => if negative then -magnitude else magnitude

/-- The double nearest to an integer. -/
def realOfInt (value : Int) : Float :=
  let magnitude := Decimal.nearest ⟨value.natAbs, 0⟩
  if value < 0 then -magnitude else magnitude

/-- The result of an arithmetic operation on doubles, if it is finite. -/
def realArithmetic? (op : BinaryOp) (left right : Float) : Option Float :=
  let finite (value : Float) : Option Float := if value.isFinite then some value else none
  match op with
  | .add => finite (left + right)
  | .sub => finite (left - right)
  | .mul => finite (left * right)
  | .div => finite (left / right)
  | _ => none

/-- The result of comparing doubles; the undefined value is only ever unequal. -/
def realCompare : BinaryOp → Float → Float → Bool
  | .gt, left, right => right < left
  | .lt, left, right => left < right
  | .ge, left, right => right ≤ left
  | .le, left, right => left ≤ right
  | .eq, left, right => left == right
  | .ne, left, right => left != right
  | _, _, _ => false

/-- Doubles from `10 ^ (-4)` up to `10 ^ 16` are written in positional form. -/
def realStyle : Decimal.Style := ⟨-3, 16⟩

/-- The text of a double: the fewest digits that are read back as it. -/
def realText (value : Float) : String :=
  if value.isNaN then "NaN"
  else
    let bits := value.toBits.toNat
    let sign := if Double.signBit ≤ bits then "-" else ""
    let magnitude := bits % Double.signBit
    if magnitude = Double.infinityBits then sign ++ "inf"
    else if magnitude = 0 then sign ++ "0.0"
    else sign ++ (Double.Interval.ofBits magnitude).shortest.write realStyle

/-! ## Constants of any kind -/

/-- The value that a literal denotes. -/
def ofExpr? : Expr → Option Constant
  | .int text _ => (intOfText? text).map .int
  | .real text _ => (realOfText? text).map .real
  | .bool value _ => some (.bool value)
  | _ => none

/-- The number of a constant as a double. -/
def toReal? : Constant → Option Float
  | .int value => some (realOfInt value)
  | .real value => some value
  | .bool _ => none

/-- The text of a constant. -/
def text : Constant → String
  | .int value => toString value
  | .real value => realText value
  | .bool value => boolSource value

/-- The literal that denotes a constant. -/
def toExpr (position : Position) : Constant → Expr
  | .int value => .int (toString value) position
  | .real value => .real (realText value) position
  | .bool value => .bool value position

/-- The result of an operation on constants, if it is computed. Two integers give an integer, a mix
of integers and doubles a double, comparisons a truth value; truth values are only compared for
equality. -/
def binary? (op : BinaryOp) : Constant → Constant → Option Constant
  | .int left, .int right =>
    if op.isArithmetic then (intArithmetic? op left right).map .int
    else some (.bool (intCompare op left right))
  | .bool left, .bool right =>
    match op with
    | .eq => some (.bool (left = right))
    | .ne => some (.bool (left ≠ right))
    | _ => none
  | left, right => do
    let left ← left.toReal?
    let right ← right.toReal?
    if op.isArithmetic then (realArithmetic? op left right).map .real
    else some (.bool (realCompare op left right))

end Constant

end ClassLang
