import ClassLang.Proofs.Tiling

/-! # Spacing

The tokens of a text do not depend on the blanks and comments between them: their texts, with other
blanks and comments in between, are scanned to the same tokens again. -/

namespace ClassLang

open List

/-! ## Tokens that are found again -/

theorem Symbol.spelling_of_ofChar? {c : Char} {sign : Symbol} (found : ofChar? c = some sign) :
    sign.spelling = String.ofList [c] := by
  unfold ofChar? at found
  split at found <;> cases found <;> rfl

theorem Symbol.spelling_of_ofPair? {c next : Char} {sign : Symbol}
    (found : ofPair? c next = some sign) : sign.spelling = String.ofList [c, next] := by
  unfold ofPair? at found
  split at found <;> cases found <;> rfl

namespace Lexeme

/-- The symbol that a text starts with is spelled as it is. -/
theorem exists_of_symbolAt {c : Char} {rest : List Char}
    (well : (symbolAt c rest).kind ≠ .malformed) :
    ∃ sign, (symbolAt c rest).kind = .symbol sign ∧ (symbolAt c rest).text = sign.spelling := by
  have alone (well : (single c).kind ≠ .malformed) :
      ∃ sign, (single c).kind = .symbol sign ∧ (single c).text = sign.spelling := by
    unfold single at well ⊢
    split at well
    · next sign found => exact ⟨sign, rfl, (Symbol.spelling_of_ofChar? found).symm⟩
    · exact absurd rfl well
  unfold symbolAt at well ⊢
  split at well
  · split at well
    · next sign found => exact ⟨sign, rfl, (Symbol.spelling_of_ofPair? found).symm⟩
    · exact alone well
  · exact alone well

/-- The lexeme that a text starts with is found again before a blank, if it is no string literal and
no fault. -/
theorem found_first {c : Char} {characters rest : List Char}
    (notString : (first (c :: characters)).kind ≠ .string)
    (well : (first (c :: characters)).kind ≠ .malformed)
    (blank : ∀ c ∈ rest.head?, Text.isBlank c = true) :
    Found (first (c :: characters)).kind (first (c :: characters)).text rest := by
  rw [first] at notString well ⊢
  by_cases start : isWordStart c = true
  · rw [if_pos start]
    exact (isWord_word start characters).found (endsBefore_of_blank blank)
  rw [if_neg start] at notString well ⊢
  by_cases digit : c.isDigit = true
  · rw [if_pos digit] at well ⊢
    exact (isNumber_number digit well).found (endsBefore_of_blank blank)
  rw [if_neg digit] at notString well ⊢
  by_cases quote : c = '"'
  · rw [if_pos quote, string] at notString well
    split at notString
    · exact absurd rfl notString
    · next unclosed =>
        simp only [if_neg unclosed] at well
        exact absurd rfl well
  · rw [if_neg quote] at well ⊢
    obtain ⟨sign, kind, text⟩ := exists_of_symbolAt well
    rw [kind, text]
    exact found_symbol sign blank

end Lexeme

/-- A token is found again wherever a blank follows its text. -/
def Token.Recurs (token : Token) : Prop :=
  ∀ rest : List Char, (∀ c ∈ rest.head?, Text.isBlank c = true) →
    Lexeme.Found token.kind token.text rest

/-- All tokens of a text recur but string literals, faults and the end. -/
theorem Scanner.recurs_of_mem {scanner : Scanner} {token : Token} (mem : token ∈ scanner.tokens)
    (notString : token.kind ≠ .string) (well : token.kind ≠ .malformed)
    (notEnd : token.kind ≠ .endOfFile) : token.Recurs := by
  obtain ⟨scanner', rfl⟩ := exists_next_of_mem mem
  simp only [next] at notString well notEnd ⊢
  generalize scanner'.skipTrivia = begun at notString well notEnd ⊢
  obtain ⟨_ | ⟨c, characters⟩, position⟩ := begun
  · exact absurd rfl notEnd
  · exact fun rest blank => Lexeme.found_first notString well blank

/-! ## Separators -/

/-- Blanks and comments are skipped before any text, if no comment is left open. -/
theorem Lexeme.trivia_append {characters : List Char} (isTrivia : Trivia false characters)
    (rest : List Char) : trivia false (characters ++ rest) = characters ++ trivia false rest := by
  induction isTrivia with
  | nil => rfl
  | blank isBlank _ ih =>
    rw [cons_append, trivia, if_neg Bool.false_ne_true, if_pos isBlank, ih, cons_append]
  | @comment text more flat _ ih =>
    have split : '/' :: '/' :: (text ++ '\n' :: more) ++ rest =
        '/' :: '/' :: (text ++ '\n' :: (more ++ rest)) := by
      simp
    rw [cons_append] at ih
    rw [split, trivia_slashes, trivia_comment flat, ih]
    simp
  | unended _ ends => cases ends

/-- Blanks and comments do not matter for the tokens. -/
theorem Scanner.tokens_trivia {characters : List Char} (isTrivia : Trivia false characters)
    (rest : List Char) (position : Position) :
    (Scanner.mk (characters ++ rest) position).tokens =
      (Scanner.mk rest (position.after characters)).tokens := by
  refine tokens_congr ?_
  unfold skipTrivia skip
  dsimp only
  rw [Lexeme.trivia_append isTrivia, length_append, ← drop_drop, drop_left,
    Position.after_append]

/-- What keeps tokens apart: blanks and comments, of which a blank comes first and no comment is left
open. -/
structure Separates (characters : List Char) : Prop where
  trivia : Trivia false characters
  blank : ∃ c ∈ characters.head?, Text.isBlank c = true

/-- Texts in a row, with characters between them as far as some are given. -/
def interleave : List (List Char) → List String → List Char
  | separator :: separators, text :: texts =>
    text.toList ++ (separator ++ interleave separators texts)
  | _, texts => texts.flatMap String.toList

namespace Scanner

/-- Behind the tokens of a text comes only its end, with or without blanks and comments before it. -/
theorem tokens_interleave_end {separators : List (List Char)}
    (separate : ∀ separator ∈ separators, Separates separator) (position : Position) :
    ∃ position', (Scanner.mk (interleave separators [""]) position).tokens =
      [⟨.endOfFile, "", position'⟩] := by
  have ending (position : Position) :
      (Scanner.mk [] position).tokens = [⟨.endOfFile, "", position⟩] := by
    rw [tokens]
    rfl
  cases separators with
  | nil => exact ⟨position, ending position⟩
  | cons separator separators =>
    have text : interleave (separator :: separators) [""] = separator ++ [] := by
      cases separators <;> simp [interleave]
    rw [text, tokens_trivia (separate separator mem_cons_self).trivia]
    exact ⟨_, ending _⟩

/-- Tokens that recur are scanned again, with separators between their texts. -/
theorem tokens_interleave {found : List Token}
    (recurs : ∀ token ∈ found, token.kind ≠ .endOfFile ∧ token.Recurs)
    {separators : List (List Char)} (separate : ∀ separator ∈ separators, Separates separator)
    (enough : found.length ≤ separators.length + 1) (position : Position) :
    (Scanner.mk (interleave separators (found.map Token.text ++ [""])) position).tokens.map
        (fun token => (token.kind, token.text)) =
      found.map (fun token => (token.kind, token.text)) ++ [(.endOfFile, "")] := by
  induction found generalizing separators position with
  | nil =>
    obtain ⟨position', ends⟩ := tokens_interleave_end separate position
    rw [map_nil, nil_append, ends]
    rfl
  | cons token found ih =>
    rw [forall_mem_cons] at recurs
    obtain ⟨⟨notEnd, recurs⟩, others⟩ := recurs
    cases separators with
    | nil =>
      -- only the last token has nothing behind it
      obtain rfl : found = [] := eq_nil_of_length_eq_zero (by simpa using enough)
      have text : interleave [] ([token].map Token.text ++ [""]) = token.text.toList ++ [] := by
        simp [interleave]
      have rest := ih (forall_mem_nil _) (forall_mem_nil _) (Nat.zero_le _)
        (position.after token.text.toList)
      rw [text, tokens_lexeme (recurs [] (by simp)) notEnd, map_cons]
      exact congrArg (cons _) rest
    | cons separator separators =>
      rw [forall_mem_cons] at separate
      obtain ⟨separates, separate⟩ := separate
      have text : interleave (separator :: separators) ((token :: found).map Token.text ++ [""]) =
          token.text.toList ++
            (separator ++ interleave separators (found.map Token.text ++ [""])) := rfl
      have blank (rest : List Char) :
          ∀ c ∈ (separator ++ rest).head?, Text.isBlank c = true := by
        obtain ⟨c, starts, isBlank⟩ := separates.blank
        obtain ⟨more, rfl⟩ := head?_eq_some_iff.mp starts
        rintro _ ⟨⟩
        exact isBlank
      rw [text, tokens_lexeme (recurs _ (blank _)) notEnd, map_cons,
        tokens_trivia separates.trivia, ih others separate (Nat.le_of_succ_le_succ enough)]
      rfl

end Scanner

/-- The tokens of a text do not depend on the spacing between them. If none of them is a string literal
or a fault, then their texts, with any separators between them and with one or none before the end,
are scanned to tokens of the same kinds and texts. -/
theorem Token.scan_interleave {text : String}
    (plain : ∀ token ∈ Token.scan text, token.kind ≠ .string ∧ token.kind ≠ .malformed)
    {separators : List (List Char)} (separate : ∀ separator ∈ separators, Separates separator)
    (enough : (Token.scan text).length ≤ separators.length + 2) :
    (Token.scan (String.ofList (interleave separators ((Token.scan text).map Token.text)))).map
        (fun token => (token.kind, token.text)) =
      (Token.scan text).map fun token => (token.kind, token.text) := by
  have start : (Scanner.ofText text).position = Position.behind [] := rfl
  obtain ⟨pieces, -, -, scanned, proper, -, -⟩ := Scanner.exists_pieces _ start
  change Token.scan text = _ at scanned
  have recurs : ∀ token ∈ pieces.map Piece.token, token.kind ≠ .endOfFile ∧ token.Recurs := by
    intro token mem
    have mem' : token ∈ Token.scan text := scanned ▸ List.mem_append_left _ mem
    obtain ⟨piece, inside, rfl⟩ := List.mem_map.mp mem
    have notEnd := (proper piece inside).spells.notEnd
    obtain ⟨notString, well⟩ := plain piece.token mem'
    exact ⟨notEnd, Scanner.recurs_of_mem mem' notString well notEnd⟩
  have enough' : (pieces.map Piece.token).length ≤ separators.length + 1 := by
    rw [scanned, List.length_append] at enough
    exact Nat.le_of_succ_le_succ enough
  have again := Scanner.tokens_interleave recurs separate enough' Position.start
  rw [scanned, List.map_append, List.map_append, Token.scan, Scanner.ofText, String.toList_ofList]
  exact again

/-- A quotient next to a comparison, with wide blanks and comments between all tokens. -/
theorem Token.scan_interleave_quotient :
    let text := "é/2<=1.5e3"
    let separators := List.replicate 5 ['\u3000', '/', '/', '=', '\n']
    (∀ token ∈ Token.scan text, token.kind ≠ .string ∧ token.kind ≠ .malformed) ∧
      (Token.scan (String.ofList (interleave separators ((Token.scan text).map Token.text)))).map
          (fun token => (token.kind, token.text)) =
        (Token.scan text).map fun token => (token.kind, token.text) := by
  intro text separators
  have plain : ∀ token ∈ Token.scan text, token.kind ≠ .string ∧ token.kind ≠ .malformed := by
    decide +kernel
  have comment : Trivia false ('/' :: '/' :: (['='] ++ '\n' :: [])) :=
    .comment (by decide) (.blank (by decide) .nil)
  refine ⟨plain, Token.scan_interleave plain (fun separator mem => ?_) (by decide +kernel)⟩
  rw [List.eq_of_mem_replicate mem]
  exact ⟨.blank (by decide) comment, _, rfl, by decide⟩

end ClassLang
