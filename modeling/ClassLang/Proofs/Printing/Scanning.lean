import ClassLang.Proofs.Printing.Layout
import ClassLang.Token.Scanner
import Mathlib.Data.Bool.AllAny

/-! # Scanning source texts

The tokens of the source text of a tree are the words of the tree, if its names and literals are ones
that the scanner finds. Each word is scanned on its own, as long as what follows does not belong to
it. -/

namespace ClassLang

open List Position

variable {c : Char} {second : Scanner} {point exponent rest : List Char} {text : String}
  {kind : Kind}

/-! ## Characters -/

/-- A code point in a table lies in one of its ranges. -/
theorem Text.Ranges.exists_of_contains {ranges : Text.Ranges} {code : Nat}
    (found : ranges.contains code = true) :
    ∃ range ∈ ranges, code ∈ range' range.1 (range.2 + 1 - range.1) := by
  induction ranges with
  | nil => cases found
  | cons range rest ih =>
    obtain ⟨low, high⟩ := range
    rw [Text.Ranges.contains] at found
    split at found
    · cases found
    · next above =>
        split at found
        · next below =>
            refine ⟨(low, high), mem_cons_self, ?_⟩
            rw [mem_range'_1]
            omega
        · obtain ⟨range, mem, inside⟩ := ih found
          exact ⟨range, mem_cons_of_mem _ mem, inside⟩

namespace Lexeme

/-- A blank continues no word, no number and no symbol. -/
theorem of_isBlank (blank : Text.isBlank c = true) :
    isWordPart c = false ∧ c.isDigit = false ∧ c ∉ ['e', 'E', '=', '>', '/'] := by
  have apart : ∀ range ∈ Text.blankRanges, ∀ code ∈ range' range.1 (range.2 + 1 - range.1),
      isWordPart (Char.ofNat code) = false ∧ (Char.ofNat code).isDigit = false ∧
        Char.ofNat code ∉ ['e', 'E', '=', '>', '/'] := by
    decide +kernel
  obtain ⟨range, mem, inside⟩ := Text.Ranges.exists_of_contains blank
  have facts := apart range mem c.toNat inside
  rwa [Char.ofNat_toNat] at facts

theorem toNat_mem_of_isDigit (digit : c.isDigit = true) : c.toNat ∈ range' 48 10 := by
  rw [mem_range'_1]
  rw [Char.isDigit, Bool.and_eq_true, decide_eq_true_eq, decide_eq_true_eq] at digit
  simp only [UInt32.le_iff_toNat_le] at digit
  exact ⟨digit.1, Nat.lt_succ_of_le digit.2⟩

/-- No digit starts a word or is blank. -/
theorem of_isDigit (digit : c.isDigit = true) :
    isWordStart c = false ∧ Text.isBlank c = false ∧ c ≠ '/' := by
  have apart : ∀ code ∈ range' 48 10, isWordStart (Char.ofNat code) = false ∧
      Text.isBlank (Char.ofNat code) = false ∧ Char.ofNat code ≠ '/' := by
    decide +kernel
  have facts := apart c.toNat (toNat_mem_of_isDigit digit)
  rwa [Char.ofNat_toNat] at facts

theorem isWordPart_of_isWordStart (start : isWordStart c = true) : isWordPart c = true := by
  rw [isWordStart, Bool.or_eq_true] at start
  rw [isWordPart, Bool.or_eq_true, Bool.or_eq_true]
  exact start.imp .inl id

/-- What starts a word is neither blank nor a slash. -/
theorem of_isWordStart (start : isWordStart c = true) : Text.isBlank c = false ∧ c ≠ '/' := by
  constructor
  · refine Bool.eq_false_iff.mpr fun blank => ?_
    have part := isWordPart_of_isWordStart start
    rw [(of_isBlank blank).1] at part
    cases part
  · rintro rfl
    exact absurd start (by decide)

/-- No trivia comes before a character that is neither blank nor a slash. -/
theorem trivia_of_solid (notBlank : Text.isBlank c = false) (notSlash : c ≠ '/') (rest : List Char) :
    trivia false (c :: rest) = [] := by
  rw [trivia, if_neg Bool.false_ne_true, if_neg (Bool.eq_false_iff.mp notBlank),
    if_neg fun comment => notSlash comment.1]

/-- Whether a text on one line is found as a lexeme of a kind before the rest. -/
structure Found (kind : Kind) (text : String) (rest : List Char) : Prop where
  flat : '\n' ∉ text.toList
  /-- No trivia comes first. -/
  solid : trivia false (text.toList ++ rest) = []
  /-- The lexeme takes up the text and nothing of the rest. -/
  first : first (text.toList ++ rest) = ⟨kind, text, text.toList, []⟩

end Lexeme

/-! ## Steps of the scanner -/

namespace Scanner

/-- The tokens behind leading trivia. -/
theorem tokens_congr {first : Scanner} (same : first.skipTrivia = second.skipTrivia) :
    first.tokens = second.tokens := by
  have step : first.next = second.next := by
    unfold next
    rw [same]
  rw [tokens.eq_def first, tokens.eq_def second, step]

/-- Blanks do not matter for the tokens. -/
theorem tokens_blank (blank : Text.isBlank c = true) (rest : List Char) (position : Position) :
    (mk (c :: rest) position).tokens = (mk rest (position.advance c)).tokens := by
  refine tokens_congr ?_
  unfold skipTrivia skip
  dsimp only
  rw [Lexeme.trivia, if_neg Bool.false_ne_true, if_pos blank, length_cons, drop_succ_cons,
    after_cons]

/-- A lexeme at the start of a text is its first token. -/
theorem tokens_lexeme (found : Lexeme.Found kind text rest) (more : kind ≠ .endOfFile)
    (position : Position) :
    (mk (text.toList ++ rest) position).tokens =
      ⟨kind, text, position⟩ :: (mk rest (position.after text.toList)).tokens := by
  have begun : (mk (text.toList ++ rest) position).skipTrivia =
      ⟨text.toList ++ rest, position⟩ := by
    unfold skipTrivia skip
    dsimp only
    rw [found.solid]
    rfl
  have step : (mk (text.toList ++ rest) position).next =
      (⟨kind, text, position⟩, ⟨rest, position.after text.toList⟩) := by
    unfold next
    rw [begun]
    dsimp only
    rw [found.first]
    dsimp only [skip]
    rw [drop_left, after_nil]
  rw [tokens, step]
  exact if_neg more

end Scanner

/-! ## Words and numbers -/

namespace Lexeme

/-- Whether a word or a number ends before the rest of a text: a blank, a bracket or a comma follows,
or a point before a name. -/
def endsBefore : List Char → Bool
  | [] => true
  | '.' :: next :: _ => isWordStart next
  | c :: _ => Text.isBlank c || c ∈ ['(', ')', '[', ']', ',']

/-- No part of a word or a number ends one. -/
theorem of_endsBefore (ends : endsBefore (c :: rest) = true) :
    isWordPart c = false ∧ c.isDigit = false ∧ c ≠ 'e' ∧ c ≠ 'E' := by
  have apart : ∀ c ∈ ['(', ')', '[', ']', ',', '.'],
      isWordPart c = false ∧ c.isDigit = false ∧ c ≠ 'e' ∧ c ≠ 'E' :=
    all_iff_forall_prop.mp (by decide)
  unfold endsBefore at ends
  split at ends
  · cases ‹_ = []›
  · next equal =>
      cases equal
      exact apart '.' (by decide)
  · next equal =>
      cases equal
      rw [Bool.or_eq_true, decide_eq_true_eq] at ends
      rcases ends with blank | mem
      · obtain ⟨notPart, notDigit, others⟩ := of_isBlank blank
        exact ⟨notPart, notDigit, fun lower => others (by simp [lower]),
          fun upper => others (by simp [upper])⟩
      · exact apart _ (mem_append_left ['.'] mem)

/-- A blank ends a word or a number, and so does the end of the text. -/
theorem endsBefore_of_blank (blank : ∀ c ∈ rest.head?, Text.isBlank c = true) :
    endsBefore rest = true := by
  cases rest with
  | nil => rfl
  | cons c rest =>
    have isBlank := blank c rfl
    unfold endsBefore
    split
    · cases ‹_ = []›
    · next equal =>
        cases equal
        exact absurd isBlank (by decide)
    · next equal =>
        cases equal
        rw [isBlank, Bool.true_or]

/-- Characters that satisfy a condition are all taken before a text that does not go on so. -/
theorem takeWhile_append_of_stop {condition : Char → Bool} {taken : List Char}
    (all : ∀ c ∈ taken, condition c = true) (stop : ∀ c ∈ rest.head?, condition c = false) :
    (taken ++ rest).takeWhile condition = taken := by
  rw [takeWhile_append_of_pos all]
  cases rest with
  | nil => rw [takeWhile_nil, append_nil]
  | cons c rest =>
    rw [takeWhile_cons, stop c rfl, if_neg Bool.false_ne_true, append_nil]

/-- And the rest is left. -/
theorem dropWhile_append_of_stop {condition : Char → Bool} {taken : List Char}
    (all : ∀ c ∈ taken, condition c = true) (stop : ∀ c ∈ rest.head?, condition c = false) :
    (taken ++ rest).dropWhile condition = rest := by
  rw [dropWhile_append_of_pos all]
  cases rest with
  | nil => rw [dropWhile_nil]
  | cons c rest => rw [dropWhile_cons, stop c rfl, if_neg Bool.false_ne_true]

/-- Whether a text is a word: a start and further parts. -/
def IsWord (text : String) : Prop :=
  ∃ c rest, text.toList = c :: rest ∧ isWordStart c = true ∧ ∀ part ∈ rest, isWordPart part = true

/-- A word is found before a text that ends it. -/
theorem IsWord.found (word : IsWord text) (ends : endsBefore rest = true) :
    Found (wordKind text) text rest := by
  obtain ⟨c, parts, spelling, start, all⟩ := word
  have stop : ∀ c ∈ rest.head?, isWordPart c = false := by
    cases rest with
    | nil => nofun
    | cons c rest =>
      rintro _ ⟨⟩
      exact (of_endsBefore ends).1
  have taken : (text.toList ++ rest).takeWhile isWordPart = text.toList := by
    refine takeWhile_append_of_stop ?_ stop
    rw [spelling, forall_mem_cons]
    exact ⟨isWordPart_of_isWordStart start, all⟩
  constructor
  · rw [spelling, mem_cons, not_or]
    refine ⟨?_, fun mem => absurd (all _ mem) (by decide)⟩
    rintro rfl
    exact absurd start (by decide)
  · rw [spelling]
    exact trivia_of_solid (of_isWordStart start).1 (of_isWordStart start).2 _
  · have whole : first (text.toList ++ rest) = word (text.toList ++ rest) := by
      rw [spelling, cons_append, first, if_pos start]
    rw [whole, word, taken, String.ofList_toList]

theorem isWord_spelling (keyword : Keyword) : IsWord keyword.spelling := by
  cases keyword <;> exact ⟨_, _, rfl, by decide, all_eq_true.mp (by decide)⟩

/-- Whether characters are digits, at least one. -/
def IsDigits (digits : List Char) : Prop := digits ≠ [] ∧ ∀ c ∈ digits, c.isDigit = true

/-- Whether characters are the fraction of a number, if it has one. -/
def IsFraction (point : List Char) : Prop :=
  point = [] ∨ ∃ digits, point = '.' :: digits ∧ IsDigits digits

/-- Whether characters are the exponent of a number, if it has one. -/
def IsExponent (exponent : List Char) : Prop :=
  exponent = [] ∨ ∃ mark sign digits, exponent = mark :: (sign ++ digits) ∧
    (mark = 'e' ∨ mark = 'E') ∧ (sign = [] ∨ sign = ['+'] ∨ sign = ['-']) ∧ IsDigits digits

/-- Whether a text is a number of a kind: digits, with a fraction and an exponent if it is real. -/
def IsNumber (kind : Kind) (text : String) : Prop :=
  ∃ whole point exponent, text.toList = whole ++ (point ++ exponent) ∧ IsDigits whole ∧
    IsFraction point ∧ IsExponent exponent ∧
    kind = if point = [] ∧ exponent = [] then .integer else .real

theorem blank_lt_of_isDigit {c : Char} (digit : c.isDigit = true) : ' ' < c := by
  rw [Char.isDigit, Bool.and_eq_true, decide_eq_true_eq] at digit
  exact Nat.lt_of_lt_of_le (by decide : 32 < 48) digit.1

/-- The characters of a number are visible: none is a blank, a newline or a control character. -/
theorem IsNumber.visible (isNumber : IsNumber kind text) : ∀ c ∈ text.toList, ' ' < c := by
  obtain ⟨whole, point, exponent, spelling, isWhole, isFraction, isExponent, -⟩ := isNumber
  have digits {digits : List Char} (isDigits : IsDigits digits) : ∀ c ∈ digits, ' ' < c :=
    fun c mem => blank_lt_of_isDigit (isDigits.2 c mem)
  rw [spelling, forall_mem_append, forall_mem_append]
  refine ⟨digits isWhole, ?_, ?_⟩
  · rcases isFraction with rfl | ⟨fraction, rfl, isDigits⟩
    · exact forall_mem_nil _
    · exact forall_mem_cons.mpr ⟨by decide, digits isDigits⟩
  · rcases isExponent with rfl | ⟨mark, sign, power, rfl, marked, signed, isDigits⟩
    · exact forall_mem_nil _
    · refine forall_mem_cons.mpr ⟨?_, forall_mem_append.mpr ⟨?_, digits isDigits⟩⟩
      · rcases marked with rfl | rfl <;> decide
      · rcases signed with rfl | rfl | rfl <;> simp

section Number

variable {rest : List Char} (ends : endsBefore rest = true)

include ends

/-- No digit follows a number. -/
theorem isDigit_head_of_endsBefore : ∀ c ∈ rest.head?, c.isDigit = false := by
  cases rest with
  | nil => nofun
  | cons c rest =>
    rintro _ ⟨⟩
    exact (of_endsBefore ends).2.1

/-- No fraction follows a number. -/
theorem fraction_of_endsBefore : fraction rest = [] := by
  unfold fraction
  split
  · next c rest =>
      refine if_neg fun digit => ?_
      have start : isWordStart c = true := ends
      rw [(of_isDigit digit).1] at start
      cases start
  · rfl

/-- No exponent follows a number. -/
theorem exponent?_of_endsBefore : exponent? rest = none := by
  cases rest with
  | nil => rfl
  | cons c rest =>
    obtain ⟨-, -, lower, upper⟩ := of_endsBefore ends
    rw [exponent?, if_neg (not_or.mpr ⟨lower, upper⟩)]

/-- An exponent is found before a text that ends the number. -/
theorem exponent?_append {mark : Char} {sign digits : List Char} (marked : mark = 'e' ∨ mark = 'E')
    (signed : sign = [] ∨ sign = ['+'] ∨ sign = ['-']) (numerals : IsDigits digits) :
    exponent? (mark :: (sign ++ digits) ++ rest) = some (mark :: sign, digits) := by
  have signFound : exponentSign (sign ++ digits ++ rest) = sign := by
    obtain ⟨nonempty, all⟩ := numerals
    obtain ⟨c, others, rfl⟩ := exists_cons_of_ne_nil nonempty
    rcases signed with rfl | rfl | rfl
    · have digit := all c mem_cons_self
      rw [nil_append, cons_append, exponentSign, if_neg]
      rintro (rfl | rfl) <;> exact absurd digit (by decide)
    · rfl
    · rfl
  rw [cons_append, exponent?, if_pos marked]
  dsimp only
  rw [signFound, append_assoc, drop_left,
    takeWhile_append_of_stop numerals.2 (isDigit_head_of_endsBefore ends)]

section Exponent

variable (isExponent : IsExponent exponent)

include isExponent

theorem fraction_exponent : fraction (exponent ++ rest) = [] := by
  rcases isExponent with rfl | ⟨mark, sign, digits, rfl, marked, -, -⟩
  · exact fraction_of_endsBefore ends
  · rcases marked with rfl | rfl <;> rfl

/-- No digit comes where the exponent of a number may stand. -/
theorem isDigit_head_exponent : ∀ c ∈ (exponent ++ rest).head?, c.isDigit = false := by
  rcases isExponent with rfl | ⟨mark, sign, digits, rfl, marked, -, -⟩
  · exact isDigit_head_of_endsBefore ends
  · rintro _ ⟨⟩
    rcases marked with rfl | rfl <;> rfl

/-- A fraction is found before an exponent and a text that ends the number. -/
theorem fraction_append (isFraction : IsFraction point) :
    fraction (point ++ (exponent ++ rest)) = point := by
  rcases isFraction with rfl | ⟨digits, rfl, nonempty, all⟩
  · rw [nil_append]
    exact fraction_exponent ends isExponent
  · obtain ⟨c, others, rfl⟩ := exists_cons_of_ne_nil nonempty
    rw [cons_append, cons_append, fraction, if_pos (all c mem_cons_self),
      ← cons_append, takeWhile_append_of_stop all (isDigit_head_exponent ends isExponent)]

/-- No digit comes where the fraction of a number may stand. -/
theorem isDigit_head_fraction (isFraction : IsFraction point) :
    ∀ c ∈ (point ++ (exponent ++ rest)).head?, c.isDigit = false := by
  rcases isFraction with rfl | ⟨digits, rfl, -⟩
  · rw [nil_append]
    exact isDigit_head_exponent ends isExponent
  · rintro _ ⟨⟩
    rfl

/-- The parts of a number are put together to the number. -/
theorem numberOf_append {whole : List Char} (spelling : text.toList = whole ++ (point ++ exponent)) :
    numberOf whole point (exponent ++ rest) =
      ⟨if point = [] ∧ exponent = [] then .integer else .real, text, text.toList, []⟩ := by
  have whole' : String.ofList (whole ++ (point ++ exponent)) = text := by
    rw [← spelling, String.ofList_toList]
  unfold numberOf
  dsimp only
  rw [fraction_exponent ends isExponent, if_neg (fun twice => twice.2 rfl)]
  rcases isExponent with rfl | ⟨mark, sign, digits, rfl, marked, signed, numerals⟩
  · rw [append_nil] at spelling whole'
    rw [nil_append, exponent?_of_endsBefore ends]
    simp only [whole', spelling, and_true]
  · have together : whole ++ point ++ mark :: sign ++ digits =
        whole ++ (point ++ mark :: (sign ++ digits)) := by
      simp only [append_assoc, cons_append]
    rw [exponent?_append ends marked signed numerals]
    dsimp only
    rw [if_neg numerals.1, together, whole', spelling, if_neg fun none => nomatch none.2]

end Exponent

/-- A number is found before a text that ends it. -/
theorem IsNumber.found (isNumber : IsNumber kind text) : Found kind text rest := by
  have flat : '\n' ∉ text.toList := fun mem => absurd (isNumber.visible _ mem) (by decide)
  obtain ⟨whole, point, exponent, spelling, isWhole, isFraction, isExponent, rfl⟩ := isNumber
  have split : text.toList ++ rest = whole ++ (point ++ (exponent ++ rest)) := by
    rw [spelling, append_assoc, append_assoc]
  have stop := isDigit_head_fraction ends isExponent isFraction
  obtain ⟨c, others, first⟩ := exists_cons_of_ne_nil isWhole.1
  have digit : c.isDigit = true := isWhole.2 c (by rw [first]; exact mem_cons_self)
  obtain ⟨notStart, notBlank, notSlash⟩ := of_isDigit digit
  constructor
  · exact flat
  · rw [split, first]
    exact trivia_of_solid notBlank notSlash _
  · have numeral : Lexeme.first (text.toList ++ rest) = number (text.toList ++ rest) := by
      rw [split, first, cons_append, Lexeme.first, if_neg (Bool.eq_false_iff.mp notStart),
        if_pos digit]
    rw [numeral, split, number]
    rw [takeWhile_append_of_stop isWhole.2 stop, dropWhile_append_of_stop isWhole.2 stop,
      fraction_append ends isExponent isFraction, drop_left]
    exact numberOf_append ends isExponent spelling

end Number

/-- A character before a blank is no part of a longer symbol. -/
theorem symbolAt_of_blank (c : Char) (blank : ∀ c ∈ rest.head?, Text.isBlank c = true) :
    symbolAt c rest = single c := by
  cases rest with
  | nil => rfl
  | cons next rest =>
    have others := (of_isBlank (blank next rfl)).2.2
    have none : Symbol.ofPair? c next = none := by
      unfold Symbol.ofPair?
      split <;> simp_all
    rw [symbolAt, none]

/-- A symbol is found before a blank. -/
theorem found_symbol (sign : Symbol) (blank : ∀ c ∈ rest.head?, Text.isBlank c = true) :
    Found (.symbol sign) sign.spelling rest := by
  cases sign
  case less | greater | colon => exact ⟨by decide, rfl, symbolAt_of_blank _ blank⟩
  case slash =>
    refine ⟨by decide, ?_, symbolAt_of_blank '/' blank⟩
    change ite _ _ (ite _ _ (ite _ _ _)) = _
    rw [if_neg Bool.false_ne_true, if_neg (by decide), if_neg]
    rintro ⟨-, second⟩
    exact (of_isBlank (blank '/' second)).2.2 (by decide)
  -- no longer symbol starts like the others
  all_goals cases rest <;> exact ⟨by decide, rfl, rfl⟩

theorem found_mark {sign : Symbol}
    (mark : sign ∈ [.leftParen, .rightParen, .leftBracket, .rightBracket, .comma, .period])
    (rest : List Char) : Found (.symbol sign) sign.spelling rest := by
  simp only [mem_cons, not_mem_nil, or_false] at mark
  rcases mark with rfl | rfl | rfl | rfl | rfl | rfl <;> cases rest <;> exact ⟨by decide, rfl, rfl⟩

end Lexeme

/-! ## The words of a text -/

/-- The line reached by passing over characters depends on the line before them only. -/
theorem Position.line_after_congr {first second : Position} (same : first.line = second.line)
    (characters : List Char) : (first.after characters).line = (second.after characters).line := by
  induction characters generalizing first second with
  | nil => exact same
  | cons c rest ih =>
    refine ih ?_
    unfold advance
    split
    · exact congrArg (· + 1) same
    · exact same

/-- Passing over characters without a newline stays on the line. -/
theorem Position.line_after_of_flat {characters : List Char} (flat : '\n' ∉ characters)
    (position : Position) : (position.after characters).line = position.line := by
  induction characters generalizing position with
  | nil => rfl
  | cons c rest ih =>
    rw [mem_cons, not_or] at flat
    rw [after_cons, ih flat.2, advance, if_neg (Ne.symm flat.1)]

namespace Scanner

/-- Scanners that differ in their columns only find the same word next. -/
theorem next_congr {first : Scanner} (rest : first.rest = second.rest)
    (line : first.position.line = second.position.line) :
    first.next.1.word = second.next.1.word ∧ first.next.2.rest = second.next.2.rest ∧
      first.next.2.position.line = second.next.2.position.line := by
  obtain ⟨text, position⟩ := first
  obtain ⟨text', position'⟩ := second
  cases rest
  unfold next skipTrivia skip Token.word
  dsimp only
  have begun := line_after_congr line (Lexeme.trivia false text)
  refine ⟨?_, rfl, line_after_congr begun _⟩
  rw [line_after_congr begun]

/-- The words of a text do not depend on the column where it starts. -/
theorem map_word_tokens_congr {first : Scanner} (rest : first.rest = second.rest)
    (line : first.position.line = second.position.line) :
    first.tokens.map Token.word = second.tokens.map Token.word := by
  induction first using tokens.induct generalizing second with
  | case1 first step =>
    rename_i ended
    obtain ⟨word, -, -⟩ := next_congr rest line
    have ended' : second.next.1.kind = .endOfFile := (congrArg Word.kind word).symm.trans ended
    rw [tokens.eq_def first, tokens.eq_def second]
    dsimp only
    rw [if_pos ended, if_pos ended', map_singleton, map_singleton, word]
  | case2 first step more =>
    rename_i ih
    obtain ⟨word, restNext, lineNext⟩ := next_congr rest line
    have more' : second.next.1.kind ≠ .endOfFile := fun ended =>
      more ((congrArg Word.kind word).trans ended)
    rw [tokens.eq_def first, tokens.eq_def second]
    dsimp only
    rw [if_neg more, if_neg more', map_cons, map_cons, word, ih restNext lineNext]

/-- The words of a text that starts on a line. -/
def words (line : Nat) (text : List Char) : List Word :=
  (Scanner.mk text ⟨line, 1⟩).tokens.map Token.word

theorem map_word_tokens (text : List Char) (position : Position) :
    (mk text position).tokens.map Token.word = words position.line text :=
  map_word_tokens_congr rfl rfl

theorem words_nil (line : Nat) : words line [] = [⟨.endOfFile, "", line⟩] := by
  rw [words, tokens]
  rfl

theorem words_space (line : Nat) (rest : List Char) : words line (' ' :: rest) = words line rest := by
  rw [words, tokens_blank (by decide), map_word_tokens]
  rfl

theorem words_newline (line : Nat) (rest : List Char) :
    words line ('\n' :: rest) = words (line + 1) rest := by
  rw [words, tokens_blank (by decide), map_word_tokens]
  rfl

/-- A lexeme is a word. -/
theorem words_lexeme (found : Lexeme.Found kind text rest) (more : kind ≠ .endOfFile) (line : Nat) :
    words line (text.toList ++ rest) = ⟨kind, text, line⟩ :: words line rest := by
  rw [words, tokens_lexeme found more, map_cons, map_word_tokens,
    line_after_of_flat found.flat]
  rfl

end Scanner

end ClassLang
