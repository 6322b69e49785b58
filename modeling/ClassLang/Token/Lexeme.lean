import ClassLang.Text.Alphabetic
import ClassLang.Text.Blank
import ClassLang.Text.Numeric
import ClassLang.Token

/-! # Lexemes

A lexeme is the first token of a run of characters together with the characters it takes up. Each
class of lexeme is read by a function of the characters alone; positions are added when a whole text
is scanned. -/

namespace ClassLang

/-- The first token of a run of characters, before it is given a position. -/
structure Lexeme where
  /-- What kind of token it is. -/
  kind : Kind
  /-- The text of the token. -/
  text : String
  /-- The characters taken up. -/
  spelling : List Char
  /-- The characters before the place that the token reports as its own. -/
  lead : List Char := []
  deriving DecidableEq, Repr

namespace Lexeme

/-! ## Blanks and comments -/

/-- The leading blanks and comments of a run of characters. A comment starts with two slashes and
ends before a newline; `inComment` says that one is open. -/
def trivia (inComment : Bool) : List Char → List Char
  | [] => []
  | c :: rest =>
    if inComment then c :: trivia (c ≠ '\n') rest
    else if Text.isBlank c then c :: trivia false rest
    else if c = '/' ∧ rest.head? = some '/' then c :: trivia true rest
    else []

/-! ## Words -/

/-- Whether a character can start a word. -/
def isWordStart (c : Char) : Bool := Text.isAlphabetic c || c = '_'

/-- Whether a character can stand inside a word. -/
def isWordPart (c : Char) : Bool := Text.isAlphabetic c || Text.isNumeric c || c = '_'

/-- The kind of a word: a boolean literal, a reserved word or a name. -/
def wordKind (word : String) : Kind :=
  if word = "true" ∨ word = "false" then .boolean
  else match Keyword.ofSpelling? word with
    | some keyword => .keyword keyword
    | none => .identifier

/-- The word that a run of characters starts with. -/
def word (characters : List Char) : Lexeme :=
  let spelling := characters.takeWhile isWordPart
  let text := String.ofList spelling
  { kind := wordKind text, text := text, spelling := spelling }

/-! ## Numbers -/

/-- A leading fraction: a point that a digit follows, with all the digits after it. -/
def fraction : List Char → List Char
  | '.' :: c :: rest => if c.isDigit then '.' :: (c :: rest).takeWhile Char.isDigit else []
  | _ => []

/-- The sign of an exponent, if there is one. -/
def exponentSign : List Char → List Char
  | c :: _ => if c = '+' ∨ c = '-' then [c] else []
  | [] => []

/-- The mark, the sign and the digits of a leading exponent. -/
def exponent? : List Char → Option (List Char × List Char)
  | c :: rest =>
    if c = 'e' ∨ c = 'E' then
      let sign := exponentSign rest
      some (c :: sign, (rest.drop sign.length).takeWhile Char.isDigit)
    else none
  | [] => none

/-- A number that cannot be read, and why; the fault lies after `lead`. -/
def badNumber (shown spelling lead : List Char) (reason : String) : Lexeme :=
  { kind := .malformed
    text := "Invalid number '" ++ String.ofList shown ++ "': " ++ reason
    spelling := spelling
    lead := lead }

/-- The number with a given whole part and fraction, before the rest of the text. A second fraction
is a fault, and so is an exponent without digits. -/
def numberOf (whole point rest : List Char) : Lexeme :=
  let mantissa := whole ++ point
  let secondPoint := fraction rest
  if point ≠ [] ∧ secondPoint ≠ [] then
    badNumber mantissa (mantissa ++ secondPoint) mantissa "more than one decimal point"
  else match exponent? rest with
    | some (mark, digits) =>
      let spelling := mantissa ++ mark ++ digits
      if digits = [] then badNumber spelling spelling mantissa "exponent requires digits"
      else { kind := .real, text := String.ofList spelling, spelling := spelling }
    | none =>
      { kind := if point = [] then .integer else .real
        text := String.ofList mantissa
        spelling := mantissa }

/-- The number that a run of characters starts with. A point belongs to it only before a digit, and
an `e` always starts its exponent. -/
def number (characters : List Char) : Lexeme :=
  let whole := characters.takeWhile Char.isDigit
  let behind := characters.dropWhile Char.isDigit
  let point := fraction behind
  numberOf whole point (behind.drop point.length)

/-! ## String literals -/

/-- The body of a string literal, after its opening quote. -/
structure Body where
  /-- The characters taken up, the closing quote included. -/
  spelling : List Char
  /-- The characters denoted. -/
  value : List Char
  /-- Whether the closing quote was reached. -/
  closed : Bool

/-- What a backslash and a character denote: an escape, or themselves. -/
def escaped : Char → List Char
  | 'n' => ['\n']
  | 't' => ['\t']
  | '"' => ['"']
  | '\\' => ['\\']
  | c => ['\\', c]

/-- The body of a string literal. It ends at a quote, or unclosed before a newline or the end. -/
def body : List Char → Body
  | [] => ⟨[], [], false⟩
  | '\n' :: _ => ⟨[], [], false⟩
  | '"' :: _ => ⟨['"'], [], true⟩
  | ['\\'] => ⟨['\\'], [], false⟩
  | '\\' :: '\n' :: _ => ⟨['\\'], [], false⟩
  | '\\' :: c :: rest =>
    let tail := body rest
    ⟨'\\' :: c :: tail.spelling, escaped c ++ tail.value, tail.closed⟩
  | c :: rest =>
    let tail := body rest
    ⟨c :: tail.spelling, c :: tail.value, tail.closed⟩

/-- The string literal whose opening quote stands before a run of characters. -/
def string (rest : List Char) : Lexeme :=
  let inside := body rest
  if inside.closed then
    { kind := .string, text := String.ofList inside.value, spelling := '"' :: inside.spelling }
  else
    { kind := .malformed
      text := "Unterminated string literal"
      spelling := '"' :: inside.spelling }

/-! ## Symbols -/

/-- A lexeme of one symbol. -/
def ofSymbol (symbol : Symbol) (spelling : List Char) : Lexeme :=
  { kind := .symbol symbol, text := String.ofList spelling, spelling := spelling }

/-- The symbol of a single character, or a complaint about it. -/
def single (c : Char) : Lexeme :=
  match Symbol.ofChar? c with
  | some symbol => ofSymbol symbol [c]
  | none =>
    { kind := .malformed
      text := "Unexpected character '" ++ c.toString ++ "'"
      spelling := [c] }

/-- The symbol that a run of characters starts with; two characters are preferred to one. -/
def symbolAt (c : Char) (rest : List Char) : Lexeme :=
  match rest with
  | next :: _ =>
    match Symbol.ofPair? c next with
    | some symbol => ofSymbol symbol [c, next]
    | none => single c
  | [] => single c

/-- The lexeme that a run of characters without leading trivia starts with. -/
def first : List Char → Lexeme
  | [] => { kind := .endOfFile, text := "", spelling := [] }
  | c :: rest =>
    if isWordStart c then word (c :: rest)
    else if c.isDigit then number (c :: rest)
    else if c = '"' then string rest
    else symbolAt c rest

end Lexeme

end ClassLang
