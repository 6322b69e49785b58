import ClassLang.Text.Ranges

/-! # Blank characters

The Unicode property `White_Space`: the ASCII blanks, the next-line and no-break controls, and the
typographic spaces. Zero-width characters are not blank. -/

namespace ClassLang.Text

/-- Code points with the property `White_Space`. -/
def blankRanges : Ranges :=
  [(0x09, 0x0D), (0x20, 0x20), (0x85, 0x85), (0xA0, 0xA0), (0x1680, 0x1680), (0x2000, 0x200A),
   (0x2028, 0x2029), (0x202F, 0x202F), (0x205F, 0x205F), (0x3000, 0x3000)]

/-- Whether a character separates tokens without being one. -/
def isBlank (c : Char) : Bool := blankRanges.contains c.toNat

end ClassLang.Text
