import ClassLang.Decimal.Nearest

/-! # Strings as scalars

How a string is written as a scalar of a document. It stands as it is where it cannot be taken for
something else; otherwise it is put in quotes, and in double quotes with escapes where a character
cannot be shown. A string with newlines is set as a block of lines where that keeps every character.
-/

namespace ClassLang.Text.Scalar

/-! ## Characters -/

variable (c : Char)

/-- Whether a character ends a line of a document. -/
def isBreak : Bool :=
  c = '\n' || c = '\r' || c = '\u0085' || c = '\u2028' || c = '\u2029'

/-- Whether a character separates marks from text: a blank, a tab, a line break or the null
character. -/
def isGap : Bool := c = ' ' || c = '\t' || isBreak c || c = '\x00'

/-- Whether a character can be shown as it is. -/
def isPrintable : Bool :=
  c = '\n' || (' ' ≤ c && c ≤ '~') || ('\u00a0' ≤ c && c ≤ '\ufffd' && c ≠ '\ufeff') || '\uffff' < c

/-! ## What a bare word means -/

/-- The bare words for the absent value. -/
def nullWords : List String := ["", "~", "null", "Null", "NULL"]

/-- The bare words for truth values. -/
def boolWords : List String := ["true", "True", "TRUE", "false", "False", "FALSE"]

/-- The bare words for infinity, which may have a sign. -/
def infinityWords : List String := [".inf", ".Inf", ".INF"]

/-- The bare words for the undefined number. -/
def undefinedWords : List String := [".nan", ".NaN", ".NAN"]

/-- The base that a letter after a zero stands for. -/
def base? : Char → Option Nat
  | 'x' => some 16
  | 'o' => some 8
  | 'b' => some 2
  | _ => none

/-- The value of a digit, where letters count on from ten. -/
def digitValue? : Option Nat :=
  if c.isDigit then some (c.toNat - '0'.toNat)
  else if 'a' ≤ c ∧ c ≤ 'f' then some (c.toNat - 'a'.toNat + 10)
  else if 'A' ≤ c ∧ c ≤ 'F' then some (c.toNat - 'A'.toNat + 10)
  else none

/-- The number that digits of a base spell after those already read. -/
def valueFrom? (base value : Nat) : List Char → Option Nat
  | [] => some value
  | c :: rest =>
    match digitValue? c with
    | some digit => if digit < base then valueFrom? base (base * value + digit) rest else none
    | none => none

/-- Whether characters without a sign spell an integer in another base than ten, up to a limit. -/
def isBased (limit : Nat) : List Char → Bool
  | '0' :: letter :: digit :: digits =>
    ((base? letter).bind fun base => valueFrom? base 0 (digit :: digits)).any (· ≤ limit)
  | _ => false

/-- The greatest magnitude of an integer of 128 bits, with or without a minus. -/
def basedLimit (negative : Bool) : Nat :=
  if negative then 0x80000000000000000000000000000000 else 0xFFFFFFFFFFFFFFFFFFFFFFFFFFFFFFFF

/-- Whether characters without a sign are digits behind a zero. -/
def isZeroLed : List Char → Bool
  | '0' :: digit :: digits => (digit :: digits).all Char.isDigit
  | _ => false

variable (characters : List Char)

/-- Whether a bare word would be read as a number, or nearly so. -/
def isNumeric : Bool :=
  let (negative, magnitude) := Decimal.splitSign characters
  (Decimal.ofNumeral? magnitude).any Decimal.isFinite || isZeroLed magnitude ||
    isBased (basedLimit negative) magnitude || String.ofList magnitude ∈ infinityWords ||
    String.ofList characters ∈ undefinedWords

/-- Whether a bare word would not be read as a string. -/
def isAmbiguous : Bool :=
  let word := String.ofList characters
  word ∈ nullWords || word ∈ boolWords || isNumeric characters

/-! ## Marks -/

/-- The characters that mean something at the start of a scalar. -/
def leadingMarks : List Char := "#,[]\x7b\x7d&*!|>'\"%@`".toList

/-- Whether the first character of a scalar would be taken for a mark, given the next one. -/
def isLeadingMark (next : Option Char) : Bool :=
  c ∈ leadingMarks || ((c = '?' || c = ':' || c = '-') && next.all isGap)

/-- Whether a character after the first would be taken for a mark: a colon before a gap, or a number
sign behind one. -/
def hasInnerMark (previous : Char) : List Char → Bool
  | [] => false
  | c :: rest =>
    (c = ':' && rest.head?.all isGap) || (c = '#' && isGap previous) || hasInnerMark c rest

/-- Whether a scalar starts like the line between two documents. -/
def startsLikeDivider : List Char → Bool
  | '-' :: '-' :: '-' :: _ => true
  | '.' :: '.' :: '.' :: _ => true
  | _ => false

/-- Whether a part of a scalar would be taken for a mark. -/
def hasMark : List Char → Bool
  | [] => false
  | c :: rest =>
    startsLikeDivider (c :: rest) || isLeadingMark c rest.head? || hasInnerMark c rest

/-! ## Forms -/

/-- Whether two neighbours satisfy two conditions. -/
def hasPair (first second : Char → Bool) : List Char → Bool
  | c :: next :: rest => (first c && second next) || hasPair first second (next :: rest)
  | _ => false

/-- The forms in which a string is written. -/
inductive Form where
  /-- As it is. -/
  | plain
  /-- In single quotes. -/
  | single
  /-- In double quotes, with escapes. -/
  | double
  /-- As a block of lines. -/
  | block
  deriving DecidableEq, Repr

/-- Whether no character needs an escape and no blank stands before a line break, where it would be
lost. -/
def isShowable : Bool :=
  characters.all isPrintable && !hasPair (· = ' ') isBreak characters

/-- Whether a string keeps its characters when it stands as it is. -/
def isBare : Bool :=
  characters.all (fun c => isPrintable c && !isBreak c) && characters.head? ≠ some ' ' &&
    characters.getLast? ≠ some ' ' && !hasMark characters

/-- The form in which a string is written. -/
def form : Form :=
  if '\n' ∈ characters then
    if isShowable characters && characters.getLast? ≠ some ' ' then .block else .double
  else if isBare characters && !isAmbiguous characters then .plain
  else if isShowable characters && !hasPair isBreak (· = ' ') characters then .single
  else .double

/-! ## Quotes -/

/-- A character between single quotes: a quote is written twice. -/
def inSingleQuotes : List Char := if c = '\'' then ['\'', '\''] else [c]

/-- The letter that stands for a character after a backslash. -/
def escapeLetter? : Char → Option Char
  | '\x00' => some '0'
  | '\x07' => some 'a'
  | '\x08' => some 'b'
  | '\t' => some 't'
  | '\n' => some 'n'
  | '\x0b' => some 'v'
  | '\x0c' => some 'f'
  | '\r' => some 'r'
  | '\x1b' => some 'e'
  | '"' => some '"'
  | '\\' => some '\\'
  | '\u0085' => some 'N'
  | '\u2028' => some 'L'
  | '\u2029' => some 'P'
  | _ => none

/-- A number in base sixteen with at least a given number of digits. -/
def hexadecimal (width number : Nat) : List Char :=
  let digits := (Nat.toDigits 16 number).map Char.toUpper
  List.replicate (width - digits.length) '0' ++ digits

/-- The code of a character after a backslash, with as many digits as its letter says. -/
def escapeCode : List Char :=
  if c ≤ '\u00ff' then 'x' :: hexadecimal 2 c.toNat
  else if c ≤ '\uffff' then 'u' :: hexadecimal 4 c.toNat
  else 'U' :: hexadecimal 8 c.toNat

/-- A character between double quotes. -/
def inDoubleQuotes : List Char :=
  if isPrintable c && !isBreak c && c ≠ '"' && c ≠ '\\' then [c]
  else
    match escapeLetter? c with
    | some letter => ['\\', letter]
    | none => '\\' :: escapeCode c

/-! ## Blocks -/

/-- The margin of a block is given where its first line does not show it. -/
def marginHint : List Char :=
  if characters.head?.any (fun c => c = ' ' || isBreak c) then ['2'] else []

/-- What is done about the end of a block: a minus says that no line break ends it, and a plus that
all those at its end belong to it. -/
def endHint : List Char :=
  match characters.reverse with
  | [] => ['-']
  | last :: before =>
    if !isBreak last then ['-'] else if before.head?.all isBreak then ['+'] else []

/-! ## Lines -/

/-- A string in its form. -/
def write : List Char :=
  match form characters with
  | .plain => characters
  | .single => '\'' :: characters.flatMap inSingleQuotes ++ ['\'']
  | .double => '"' :: characters.flatMap inDoubleQuotes ++ ['"']
  | .block => '|' :: marginHint characters ++ endHint characters ++ '\n' :: characters

/-- Text with a line break at its end. -/
def close : List Char :=
  if characters.getLast?.any isBreak then characters else characters ++ ['\n']

/-- Text cut behind its line breaks. -/
def cutBehindBreaks : List Char → List (List Char)
  | [] => []
  | c :: rest =>
    if isBreak c then [c] :: cutBehindBreaks rest
    else
      match cutBehindBreaks rest with
      | [] => [[c]]
      | line :: lines => (c :: line) :: lines

/-- The lines of a string as a scalar, each with its line break. -/
def lines (text : String) : List String :=
  (cutBehindBreaks (close (write text.toList))).map String.ofList

end ClassLang.Text.Scalar
