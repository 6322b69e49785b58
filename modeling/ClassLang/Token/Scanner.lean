import ClassLang.Token.Lexeme

/-! # Scanning

A scanner holds what is left of a text and the position reached. Each step skips blanks and comments
and yields one token; the tokens of a text end with the first end-of-file token. -/

namespace ClassLang

/-- What is left of a text, and the position reached in it. -/
structure Scanner where
  /-- The characters not yet scanned. -/
  rest : List Char
  /-- The position of the first of them. -/
  position : Position
  deriving DecidableEq, Repr

namespace Scanner

/-- A scanner at the start of a text. -/
def ofText (text : String) : Scanner := ⟨text.toList, Position.start⟩

/-- Pass over characters that the rest starts with. -/
def skip (scanner : Scanner) (characters : List Char) : Scanner :=
  ⟨scanner.rest.drop characters.length, scanner.position.after characters⟩

/-- The scanner behind leading blanks and comments. -/
def skipTrivia (scanner : Scanner) : Scanner := scanner.skip (Lexeme.trivia false scanner.rest)

/-- The next token and the scanner behind it. At the end the end-of-file token repeats. -/
def next (scanner : Scanner) : Token × Scanner :=
  let begun := scanner.skipTrivia
  let lexeme := Lexeme.first begun.rest
  (⟨lexeme.kind, lexeme.text, begun.position.after lexeme.lead⟩, begun.skip lexeme.spelling)

end Scanner

/-! ## A token takes up characters -/

namespace Lexeme

/-- A number takes up its whole part. -/
theorem numberOf_spelling_ne_nil {whole : List Char} (digits : whole ≠ []) (point rest : List Char) :
    (numberOf whole point rest).spelling ≠ [] := by
  unfold numberOf
  dsimp only
  split
  · simp [badNumber, digits]
  · split
    · split <;> simp [badNumber, digits]
    · simp [digits]

/-- A number starts with its leading digit. -/
theorem number_spelling_ne_nil (c : Char) (rest : List Char) (digit : c.isDigit = true) :
    (number (c :: rest)).spelling ≠ [] :=
  numberOf_spelling_ne_nil (by simp [digit]) _ _

/-- A string literal takes up its opening quote. -/
theorem string_spelling_ne_nil (rest : List Char) : (string rest).spelling ≠ [] := by
  unfold string
  dsimp only
  split <;> simp

/-- A symbol takes up its character, and so does a complaint about it. -/
theorem single_spelling_ne_nil (c : Char) : (single c).spelling ≠ [] := by
  unfold single
  split <;> simp [ofSymbol]

/-- Only the end of the text takes up no characters. -/
theorem first_spelling_ne_nil (c : Char) (rest : List Char) :
    (first (c :: rest)).spelling ≠ [] := by
  simp only [first]
  split
  · next start =>
      have part : isWordPart c = true := by
        simp only [isWordStart, isWordPart, Bool.or_eq_true] at *
        grind
      simp [word, part]
  · split
    · next digit => exact number_spelling_ne_nil c rest digit
    · split
      · exact string_spelling_ne_nil rest
      · unfold symbolAt
        split
        · split
          · simp [ofSymbol]
          · exact single_spelling_ne_nil c
        · exact single_spelling_ne_nil c

end Lexeme

namespace Scanner

/-- Skipping characters never lengthens the rest. -/
theorem length_skip_le (scanner : Scanner) (characters : List Char) :
    (scanner.skip characters).rest.length ≤ scanner.rest.length := by
  simp [skip]

/-- A token other than the end of the text takes up at least one character. -/
theorem length_next_lt {scanner : Scanner} (more : scanner.next.1.kind ≠ .endOfFile) :
    scanner.next.2.rest.length < scanner.rest.length := by
  have begun : scanner.skipTrivia.rest.length ≤ scanner.rest.length := length_skip_le _ _
  cases rest : scanner.skipTrivia.rest with
  | nil => simp [next, rest, Lexeme.first] at more
  | cons c tail =>
    have taken : (Lexeme.first (c :: tail)).spelling.length ≠ 0 := by
      simpa using Lexeme.first_spelling_ne_nil c tail
    simp only [next, skip, rest, List.length_drop, List.length_cons] at begun ⊢
    omega

/-- The tokens of the rest of a text, up to and including the end-of-file token. -/
def tokens (scanner : Scanner) : List Token :=
  let step := scanner.next
  if step.1.kind = .endOfFile then [step.1] else step.1 :: tokens step.2
termination_by scanner.rest.length
decreasing_by exact length_next_lt (by assumption)

end Scanner

/-- The tokens of a text; the last one is the end-of-file token. -/
def Token.scan (text : String) : List Token := (Scanner.ofText text).tokens

/-! ## Tokens on demand -/

/-- A scanner that is asked for its tokens one at a time. -/
structure Lexer where
  /-- What is left of the text. -/
  scanner : Scanner
  /-- Whether the end-of-file token has come in turn. -/
  finished : Bool

namespace Lexer

/-- A lexer at the start of a text. -/
def ofText (text : String) : Lexer := ⟨.ofText text, false⟩

/-- The next token. At the end the end-of-file token repeats. -/
def nextToken (lexer : Lexer) : Token × Lexer :=
  let step := lexer.scanner.next
  (step.1, { lexer with scanner := step.2 })

/-- The next token in turn. There is none behind the first end-of-file token. -/
def next? (lexer : Lexer) : Option Token × Lexer :=
  if lexer.finished then (none, lexer)
  else
    let step := lexer.nextToken
    (some step.1, { step.2 with finished := step.1.kind = .endOfFile })

end Lexer

end ClassLang
