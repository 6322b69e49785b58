/-! # Tables of code point ranges

A character class of a standard is a sorted list of disjoint ranges. Membership walks the list and
stops at the first range that lies beyond the character. A large class is given by the lengths of the
runs of code points that alternately lie outside and inside it. -/

namespace ClassLang.Text

/-- A sorted list of disjoint code point ranges, both ends included. -/
abbrev Ranges := List (Nat × Nat)

/-- Whether a code point lies in one of the ranges. -/
def Ranges.contains : Ranges → Nat → Bool
  | [], _ => false
  | (low, high) :: rest, code =>
    if code < low then false
    else if code ≤ high then true
    else Ranges.contains rest code

/-- The ranges of a class from a code point on, given by the lengths of its runs. -/
def Ranges.ofRuns (start : Nat) : List Nat → Ranges
  | outside :: inside :: runs =>
    (start + outside, start + outside + inside - 1) :: ofRuns (start + outside + inside) runs
  | _ => []

end ClassLang.Text
