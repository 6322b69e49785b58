/-! # Positions in a source text

A position names a character by line and column, both counted from one. Columns count characters,
and only the newline character starts a new line. -/

namespace ClassLang

/-- A place in a source text. -/
structure Position where
  /-- The line, counted from one. -/
  line : Nat
  /-- The column within the line, counted from one. -/
  column : Nat
  deriving DecidableEq, Repr, Inhabited

namespace Position

/-- The position of the first character of a text. -/
def start : Position := ⟨1, 1⟩

variable (position : Position)

/-- The position that follows a character. -/
def advance (character : Char) : Position :=
  if character = '\n' then ⟨position.line + 1, 1⟩ else ⟨position.line, position.column + 1⟩

/-- The position that follows a run of characters. -/
def after (characters : List Char) : Position :=
  characters.foldl advance position

/-- A position is written as line and column with a colon between them. -/
def display : String :=
  toString position.line ++ ":" ++ toString position.column

/-- An empty run leaves a position where it is. -/
@[simp] theorem after_nil : position.after [] = position := rfl

/-- A run is passed one character at a time. -/
@[simp] theorem after_cons (character : Char) (rest : List Char) :
    position.after (character :: rest) = (position.advance character).after rest := rfl

/-- Passing two runs in turn is passing their concatenation. -/
theorem after_append (first second : List Char) :
    position.after (first ++ second) = (position.after first).after second := by
  simp [after]

end Position

end ClassLang
