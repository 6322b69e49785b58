import ClassLang.Proofs.Printing.Source

/-! # Tokens that the scanner finds

Every token of a text is a word that the scanner finds in a source text, too. -/

namespace ClassLang

open List

namespace Lexeme

theorem isDigits_takeWhile {characters : List Char}
    (nonempty : characters.takeWhile Char.isDigit ≠ []) :
    IsDigits (characters.takeWhile Char.isDigit) :=
  ⟨nonempty, fun _ mem => all_eq_true.mp all_takeWhile _ mem⟩

/-- The fraction that a text starts with is a fraction. -/
theorem isFraction_fraction (characters : List Char) : IsFraction (fraction characters) := by
  unfold fraction
  split
  · next c rest =>
      by_cases digit : c.isDigit = true
      · rw [if_pos digit]
        refine .inr ⟨_, rfl, isDigits_takeWhile ?_⟩
        rw [takeWhile_cons, if_pos digit]
        exact cons_ne_nil _ _
      · rw [if_neg digit]
        exact .inl rfl
  · exact .inl rfl

/-- The sign of an exponent is a plus or a minus, if it has one. -/
theorem exponentSign_cases (characters : List Char) : exponentSign characters = [] ∨
    exponentSign characters = ['+'] ∨ exponentSign characters = ['-'] := by
  cases characters with
  | nil => exact .inl rfl
  | cons c rest =>
    rw [exponentSign]
    by_cases signed : c = '+' ∨ c = '-'
    · rw [if_pos signed]
      rcases signed with rfl | rfl
      · exact .inr (.inl rfl)
      · exact .inr (.inr rfl)
    · rw [if_neg signed]
      exact .inl rfl

/-- The exponent that a text starts with is an exponent, if it has digits. -/
theorem isExponent_of_exponent? {characters mark digits : List Char}
    (found : exponent? characters = some (mark, digits)) (nonempty : digits ≠ []) :
    IsExponent (mark ++ digits) := by
  cases characters with
  | nil => cases found
  | cons c rest =>
    rw [exponent?] at found
    by_cases marked : c = 'e' ∨ c = 'E'
    · rw [if_pos marked] at found
      cases found
      exact .inr ⟨c, exponentSign rest, _, rfl, marked, exponentSign_cases rest,
        isDigits_takeWhile nonempty⟩
    · rw [if_neg marked] at found
      cases found

/-- Digits, a fraction and what follows them make a number, or a fault. -/
theorem isNumber_numberOf {whole point rest : List Char} (isWhole : IsDigits whole)
    (isFraction : IsFraction point) (well : (numberOf whole point rest).kind ≠ .malformed) :
    IsNumber (numberOf whole point rest).kind (numberOf whole point rest).text := by
  unfold numberOf at well ⊢
  dsimp only at well ⊢
  by_cases twice : point ≠ [] ∧ fraction rest ≠ []
  · rw [if_pos twice] at well
    exact absurd rfl well
  rw [if_neg twice] at well ⊢
  cases found : exponent? rest with
  | none =>
    by_cases none : point = []
    · simp only [if_pos none]
      exact ⟨whole, point, [], by simp, isWhole, isFraction, .inl rfl, by simp [none]⟩
    · simp only [if_neg none]
      exact ⟨whole, point, [], by simp, isWhole, isFraction, .inl rfl, by simp [none]⟩
  | some parts =>
    obtain ⟨mark, digits⟩ := parts
    dsimp only
    by_cases empty : digits = []
    · simp only [found, if_pos empty] at well
      exact absurd rfl well
    rw [if_neg empty]
    have isExponent := isExponent_of_exponent? found empty
    refine ⟨whole, point, mark ++ digits, by simp, isWhole, isFraction, isExponent, ?_⟩
    rw [if_neg]
    rintro ⟨-, nothing⟩
    exact empty (append_eq_nil_iff.mp nothing).2

/-- The number that a text starts with is a number, or a fault. -/
theorem isNumber_number {c : Char} (digit : c.isDigit = true) {rest : List Char}
    (well : (number (c :: rest)).kind ≠ .malformed) :
    IsNumber (number (c :: rest)).kind (number (c :: rest)).text := by
  refine isNumber_numberOf (isDigits_takeWhile ?_) (isFraction_fraction _) well
  rw [takeWhile_cons, if_pos digit]
  exact cons_ne_nil _ _

theorem isWord_word {c : Char} (start : isWordStart c = true) (rest : List Char) :
    IsWord (word (c :: rest)).text := by
  refine ⟨c, rest.takeWhile isWordPart, ?_, start, fun _ mem =>
    all_eq_true.mp all_takeWhile _ mem⟩
  rw [word, String.toList_ofList, takeWhile_cons, if_pos (isWordPart_of_isWordStart start)]

/-- The word that a text starts with is one that the scanner finds. -/
theorem lexical_word {c : Char} (start : isWordStart c = true) (rest : List Char) (line : Nat) :
    Word.Lexical ⟨(word (c :: rest)).kind, (word (c :: rest)).text, line⟩ := by
  have isWord := isWord_word start rest
  have kind : (word (c :: rest)).kind = wordKind (word (c :: rest)).text := rfl
  generalize word (c :: rest) = lexeme at isWord kind
  rw [kind]
  unfold Word.Lexical
  dsimp only
  split
  · next identifier => exact ⟨isWord, identifier⟩
  · next integer =>
      unfold wordKind at integer
      split at integer
      · cases integer
      · split at integer <;> cases integer
  · next real =>
      unfold wordKind at real
      split at real
      · cases real
      · split at real <;> cases real
  · trivial

/-- The lexeme that a text starts with is one that the scanner finds. -/
theorem lexical_first (characters : List Char) (line : Nat) :
    Word.Lexical ⟨(first characters).kind, (first characters).text, line⟩ := by
  cases characters with
  | nil => trivial
  | cons c rest =>
    rw [first]
    by_cases start : isWordStart c = true
    · rw [if_pos start]
      exact lexical_word start rest line
    rw [if_neg start]
    by_cases digit : c.isDigit = true
    · rw [if_pos digit]
      have isNumber := @isNumber_number c digit rest
      generalize number (c :: rest) = lexeme at isNumber
      obtain ⟨kind, text, _, _⟩ := lexeme
      cases kind with
      | identifier =>
        obtain ⟨whole, point, exponent, -, -, -, -, number⟩ := isNumber (by simp)
        split at number <;> cases number
      | integer | real => exact isNumber (by simp)
      | _ => trivial
    rw [if_neg digit]
    -- string literals, symbols and faults are spelled as they please
    by_cases quote : c = '"'
    · rw [if_pos quote, string]
      split <;> trivial
    · rw [if_neg quote]
      unfold symbolAt single
      split
      · split
        · trivial
        · split <;> trivial
      · split <;> trivial

end Lexeme

/-- Every token is found by a step of the scanner. -/
theorem Scanner.exists_next_of_mem {scanner : Scanner} {token : Token} (mem : token ∈ scanner.tokens) :
    ∃ scanner' : Scanner, token = scanner'.next.1 := by
  induction scanner using Scanner.tokens.induct with
  | case1 scanner step =>
    rename_i ended
    rw [tokens] at mem
    rw [if_pos ended, mem_singleton] at mem
    exact ⟨scanner, mem⟩
  | case2 scanner step more =>
    rename_i ih
    rw [tokens] at mem
    rw [if_neg more, mem_cons] at mem
    rcases mem with here | later
    · exact ⟨scanner, here⟩
    · exact ih later

theorem Scanner.lexical_of_mem_tokens {scanner : Scanner} {token : Token}
    (mem : token ∈ scanner.tokens) : token.word.Lexical := by
  obtain ⟨scanner', rfl⟩ := exists_next_of_mem mem
  exact Lexeme.lexical_first _ _

end ClassLang
