import ClassLang.Position

/-! # Tokens

The words and signs of the language. A token carries its kind, its text and the position where it
starts. A malformed piece of text is a token of its own kind whose text is the complaint. -/

namespace ClassLang

/-- The operators and punctuation marks. -/
inductive Symbol where
  | assign
  | equal
  | notEqual
  | greaterEqual
  | lessEqual
  | arrow
  | plus
  | minus
  | star
  | slash
  | less
  | greater
  | colon
  | semicolon
  | comma
  | period
  | leftParen
  | rightParen
  | leftBracket
  | rightBracket
  deriving DecidableEq, Repr

namespace Symbol

/-- How a symbol is written. -/
def spelling : Symbol → String
  | assign => ":="
  | equal => "=="
  | notEqual => "!="
  | greaterEqual => ">="
  | lessEqual => "<="
  | arrow => "=>"
  | plus => "+"
  | minus => "-"
  | star => "*"
  | slash => "/"
  | less => "<"
  | greater => ">"
  | colon => ":"
  | semicolon => ";"
  | comma => ","
  | period => "."
  | leftParen => "("
  | rightParen => ")"
  | leftBracket => "["
  | rightBracket => "]"

/-- All symbols. -/
def all : List Symbol :=
  [assign, equal, notEqual, greaterEqual, lessEqual, arrow, plus, minus, star, slash, less, greater,
   colon, semicolon, comma, period, leftParen, rightParen, leftBracket, rightBracket]

/-- The symbol written as one given character. -/
def ofChar? : Char → Option Symbol
  | '+' => some plus
  | '-' => some minus
  | '*' => some star
  | '/' => some slash
  | '<' => some less
  | '>' => some greater
  | ':' => some colon
  | ';' => some semicolon
  | ',' => some comma
  | '.' => some period
  | '(' => some leftParen
  | ')' => some rightParen
  | '[' => some leftBracket
  | ']' => some rightBracket
  | _ => none

/-- The symbol written as two given characters. -/
def ofPair? : Char → Char → Option Symbol
  | ':', '=' => some assign
  | '=', '=' => some equal
  | '!', '=' => some notEqual
  | '>', '=' => some greaterEqual
  | '<', '=' => some lessEqual
  | '=', '>' => some arrow
  | _, _ => none

end Symbol

/-- The reserved words. -/
inductive Keyword where
  | classWord
  | extendsWord
  | isWord
  | endWord
  | varWord
  | methodWord
  | thisWord
  | ifWord
  | thenWord
  | elseWord
  | whileWord
  | loopWord
  | returnWord
  | breakWord
  deriving DecidableEq, Repr

namespace Keyword

/-- How a reserved word is written. -/
def spelling : Keyword → String
  | classWord => "class"
  | extendsWord => "extends"
  | isWord => "is"
  | endWord => "end"
  | varWord => "var"
  | methodWord => "method"
  | thisWord => "this"
  | ifWord => "if"
  | thenWord => "then"
  | elseWord => "else"
  | whileWord => "while"
  | loopWord => "loop"
  | returnWord => "return"
  | breakWord => "break"

/-- All reserved words. -/
def all : List Keyword :=
  [classWord, extendsWord, isWord, endWord, varWord, methodWord, thisWord, ifWord, thenWord,
   elseWord, whileWord, loopWord, returnWord, breakWord]

/-- The reserved word with a given spelling. -/
def ofSpelling? (word : String) : Option Keyword := all.find? (fun keyword => keyword.spelling = word)

end Keyword

/-- What kind of token a piece of text is. -/
inductive Kind where
  /-- An operator or a punctuation mark. -/
  | symbol (sign : Symbol)
  /-- A reserved word. -/
  | keyword (word : Keyword)
  /-- A name. -/
  | identifier
  /-- An integer literal. -/
  | integer
  /-- A real literal. -/
  | real
  /-- A boolean literal. -/
  | boolean
  /-- A string literal. -/
  | string
  /-- The end of the text. -/
  | endOfFile
  /-- Text that is no token; the token's text says why. -/
  | malformed
  deriving DecidableEq, Repr

/-- How a kind of token is named in a complaint: what is always spelled alike is quoted. -/
def Kind.describe : Kind → String
  | .symbol sign => "'" ++ sign.spelling ++ "'"
  | .keyword word => "'" ++ word.spelling ++ "'"
  | .identifier => "identifier"
  | .integer => "integer literal"
  | .real => "real literal"
  | .boolean => "boolean literal"
  | .string => "string literal"
  | .endOfFile => "end of file"
  | .malformed => "invalid token"

/-- The name of a kind of token in a table of tokens. -/
def Kind.name : Kind → String
  | .symbol .assign => "Assign"
  | .symbol .equal => "EqualEqual"
  | .symbol .notEqual => "ExclEqual"
  | .symbol .greaterEqual => "RAngleEqual"
  | .symbol .lessEqual => "LAngleEqual"
  | .symbol .arrow => "Arrow"
  | .symbol .plus => "Plus"
  | .symbol .minus => "Minus"
  | .symbol .star => "Star"
  | .symbol .slash => "Slash"
  | .symbol .less => "LAngle"
  | .symbol .greater => "RAngle"
  | .symbol .colon => "Colon"
  | .symbol .semicolon => "Semicolon"
  | .symbol .comma => "Comma"
  | .symbol .period => "Period"
  | .symbol .leftParen => "LParen"
  | .symbol .rightParen => "RParen"
  | .symbol .leftBracket => "LBracket"
  | .symbol .rightBracket => "RBracket"
  | .keyword word => "Kw" ++ word.spelling.capitalize
  | .identifier => "Ident"
  | .integer => "IntLit"
  | .real => "RealLit"
  | .boolean => "BoolLit"
  | .string => "StringLit"
  | .endOfFile => "Eof"
  | .malformed => "Error"

/-- All kinds of token. -/
def Kind.all : List Kind :=
  Symbol.all.map Kind.symbol ++ Keyword.all.map Kind.keyword ++
    [Kind.identifier, .integer, .real, .boolean, .string, .endOfFile, .malformed]

/-- The kind of token with a given name. -/
def Kind.ofName? (name : String) : Option Kind := Kind.all.find? (fun kind => kind.name = name)

/-- A token: its kind, its text and where it starts. -/
structure Token where
  /-- What kind of token it is. -/
  kind : Kind
  /-- The text, with escapes resolved in a string literal, or the complaint of a malformed token. -/
  text : String
  /-- Where the token starts, or where the fault of a malformed number lies. -/
  position : Position
  deriving DecidableEq, Repr

/-- A token is shown as its text, and the end of the text by name. -/
def Token.display (token : Token) : String :=
  if token.kind = .endOfFile then "end of file" else token.text

end ClassLang
