import Mathlib.Logic.Function.Iterate
import ClassLang.Proofs.Lines
import ClassLang.Proofs.Printing.Lexical

/-! # Tokens tile a text

A text is cut into pieces, one for each token before the last: blanks and comments, then the characters
that the token takes up. What is left behind the last piece are blanks and comments, too. So no character
is lost or read twice, and the position of a token is told by the pieces before it. A lexer gives the
tokens one by one and nothing afterwards. -/

namespace ClassLang

open List Position

variable {before : List Char}

/-! ## Blanks and comments -/

/-- Blanks and comments. A comment ends before a newline; if nothing follows, it may also end with the
text. -/
inductive Trivia (last : Bool) : List Char → Prop
  | nil : Trivia last []
  | blank {c rest} (isBlank : Text.isBlank c = true)
      (trivia : Trivia last rest) : Trivia last (c :: rest)
  /-- A comment up to a newline. -/
  | comment {text rest} (flat : '\n' ∉ text) (trivia : Trivia last ('\n' :: rest)) :
      Trivia last ('/' :: '/' :: (text ++ '\n' :: rest))
  /-- A comment up to the end. -/
  | unended {text} (flat : '\n' ∉ text) (ends : last = true) :
      Trivia last ('/' :: '/' :: text)

namespace Lexeme

theorem trivia_slashes (rest : List Char) :
    trivia false ('/' :: '/' :: rest) = '/' :: '/' :: trivia true rest := by
  simp [trivia, show Text.isBlank '/' = false by decide]

theorem trivia_newline (rest : List Char) :
    trivia false ('\n' :: rest) = '\n' :: trivia false rest := by
  simp [trivia, show Text.isBlank '\n' = true by decide]

/-- A comment ends before the next newline. -/
theorem trivia_comment {text : List Char} (flat : '\n' ∉ text) (rest : List Char) :
    trivia true (text ++ '\n' :: rest) = text ++ trivia false ('\n' :: rest) := by
  induction text with
  | nil =>
    rw [nil_append, nil_append, trivia_newline, trivia, if_pos rfl]
    rfl
  | cons c text ih =>
    rw [mem_cons, not_or] at flat
    have other : decide (c ≠ '\n') = true := decide_eq_true (Ne.symm flat.1)
    rw [cons_append, trivia, if_pos rfl, other, ih flat.2, cons_append]

/-- A comment without a newline behind it ends with the text. -/
theorem trivia_unended {text : List Char} (flat : '\n' ∉ text) : trivia true text = text := by
  induction text with
  | nil => rfl
  | cons c text ih =>
    rw [mem_cons, not_or] at flat
    have other : decide (c ≠ '\n') = true := decide_eq_true (Ne.symm flat.1)
    rw [trivia, if_pos rfl, other, ih flat.2]

/-- What is skipped in front of a token are blanks and comments, and no blank follows. -/
theorem exists_rest_of_trivia (characters : List Char) :
    ∃ rest, characters = trivia false characters ++ rest ∧
      Trivia rest.isEmpty (trivia false characters) ∧ ∀ c ∈ rest.head?, Text.isBlank c = false := by
  -- on the length, since a comment takes up characters as far as the next newline at once
  induction length : characters.length using Nat.strong_induction_on generalizing characters with
  | _ n ih =>
    subst length
    cases characters with
    | nil => exact ⟨[], rfl, .nil, nofun⟩
    | cons c tail =>
      by_cases blank : Text.isBlank c = true
      · obtain ⟨rest, split, isTrivia, solid⟩ := ih tail.length (by simp) tail rfl
        rw [trivia, if_neg Bool.false_ne_true, if_pos blank]
        exact ⟨rest, congrArg (List.cons c) split, .blank blank isTrivia, solid⟩
      by_cases slashes : c = '/' ∧ tail.head? = some '/'
      · obtain ⟨rfl, second⟩ := slashes
        obtain ⟨more, rfl⟩ := head?_eq_some_iff.mp second
        rw [trivia_slashes]
        -- the newline is left to the blanks behind the comment
        by_cases ends : '\n' ∈ more
        · obtain ⟨text, behind, rfl, flat⟩ := eq_append_cons_of_mem ends
          obtain ⟨rest, split, isTrivia, solid⟩ :=
            ih ('\n' :: behind).length (by simp; omega) ('\n' :: behind) rfl
          rw [trivia_comment flat]
          refine ⟨rest, ?_, ?_, solid⟩
          · rw [cons_append, cons_append, append_assoc, ← split]
          · rw [trivia_newline] at isTrivia ⊢
            exact .comment flat isTrivia
        · rw [trivia_unended ends]
          exact ⟨[], (append_nil _).symm, .unended ends rfl, nofun⟩
      · rw [trivia, if_neg Bool.false_ne_true, if_neg blank, if_neg slashes]
        refine ⟨c :: tail, rfl, .nil, ?_⟩
        rintro _ ⟨⟩
        exact Bool.eq_false_iff.mpr blank

/-! ## What a token takes up -/

/-- How a token of a kind and a text is spelled. The first part of the spelling is empty unless the token
is a number with a fault in it; then the fault lies behind the first part. -/
inductive Spells : Kind → String → List Char → Char → List Char → Prop
  /-- Names, reserved words, numbers, booleans and symbols have their spelling as their text. -/
  | plain {kind c tail} (notString : kind ≠ .string)
      (notMalformed : kind ≠ .malformed) (notEnd : kind ≠ .endOfFile) :
      Spells kind (String.ofList (c :: tail)) [] c tail
  /-- A string literal starts with a quote. -/
  | string {value tail} : Spells .string value [] '"' tail
  /-- So does one that is not closed. -/
  | unclosed {tail} : Spells .malformed "Unterminated string literal" [] '"' tail
  /-- A character that starts no token stands by itself. -/
  | unexpected {c} :
      Spells .malformed ("Unexpected character '" ++ c.toString ++ "'") [] c []
  /-- A second point in a number, with the digits behind it. -/
  | secondPoint {whole point digits} (isWhole : IsDigits whole)
      (isPoint : IsDigits point) (isDigits : IsDigits digits) :
      Spells .malformed ("Invalid number '" ++ String.ofList (whole ++ '.' :: point) ++ "': " ++
        "more than one decimal point") (whole ++ '.' :: point) '.' digits
  /-- The mark of an exponent without digits, with its sign. -/
  | noExponent {whole point sign c} (isWhole : IsDigits whole)
      (isFraction : IsFraction point) (marked : c = 'e' ∨ c = 'E')
      (signed : sign = [] ∨ sign = ['+'] ∨ sign = ['-']) :
      Spells .malformed ("Invalid number '" ++ String.ofList (whole ++ point ++ c :: sign) ++ "': " ++
        "exponent requires digits") (whole ++ point) c sign

theorem Spells.notEnd {kind : Kind} {text : String} {lead tail : List Char} {c : Char}
    (spells : Spells kind text lead c tail) : kind ≠ .endOfFile := by
  cases spells with
  | plain _ _ notEnd => exact notEnd
  | _ => exact nofun

/-- Only string literals and faults have another text than their characters. -/
theorem Spells.text_eq {kind : Kind} {text : String} {lead tail : List Char} {c : Char}
    (spells : Spells kind text lead c tail) :
    kind = .string ∨ kind = .malformed ∨ text = String.ofList (lead ++ c :: tail) := by
  cases spells with
  | plain => exact .inr (.inr rfl)
  | string => exact .inl rfl
  | _ => exact .inr (.inl rfl)

/-- A lexeme takes up the first of some characters, as its kind is spelled, and the character that it
reports is not blank. -/
def Takes (lexeme : Lexeme) (characters : List Char) : Prop :=
  ∃ lead c tail, lexeme.spelling = lead ++ c :: tail ∧ lexeme.lead = lead ∧
    lexeme.spelling <+: characters ∧ Text.isBlank c = false ∧
    Spells lexeme.kind lexeme.text lead c tail

theorem takes_plain {kind : Kind} {c : Char} {tail characters : List Char}
    (isPrefix : c :: tail <+: characters) (solid : Text.isBlank c = false)
    (plain : kind ≠ .string ∧ kind ≠ .malformed ∧ kind ≠ .endOfFile) :
    Takes ⟨kind, String.ofList (c :: tail), c :: tail, []⟩ characters :=
  ⟨[], c, tail, rfl, rfl, isPrefix, solid, .plain plain.1 plain.2.1 plain.2.2⟩

/-- A fraction is part of the text. -/
theorem fraction_isPrefix (characters : List Char) : fraction characters <+: characters := by
  unfold fraction
  split
  · next c rest =>
      split
      · exact (prefix_cons_inj '.').mpr <| takeWhile_prefix _
      · exact nil_prefix
  · exact nil_prefix

/-- An exponent is part of the text: a mark, a sign and digits. -/
theorem exists_of_exponent? {characters mark digits : List Char}
    (found : exponent? characters = some (mark, digits)) :
    ∃ c sign, mark = c :: sign ∧ (c = 'e' ∨ c = 'E') ∧
      (sign = [] ∨ sign = ['+'] ∨ sign = ['-']) ∧ mark ++ digits <+: characters := by
  cases characters with
  | nil => cases found
  | cons c rest =>
    rw [exponent?] at found
    by_cases marked : c = 'e' ∨ c = 'E'
    · rw [if_pos marked] at found
      cases found
      refine ⟨c, exponentSign rest, rfl, marked, exponentSign_cases rest, ?_⟩
      have signed : exponentSign rest <+: rest := by
        cases rest with
        | nil => exact nil_prefix
        | cons d rest =>
          rw [exponentSign]
          split
          · exact ⟨rest, rfl⟩
          · exact nil_prefix
      obtain ⟨behind, split⟩ := signed
      rw [cons_append, prefix_cons_inj]
      generalize exponentSign rest = sign at split ⊢
      subst split
      rw [drop_left, prefix_append_right_inj]
      exact takeWhile_prefix _
    · rw [if_neg marked] at found
      cases found

theorem body_isPrefix (characters : List Char) : (body characters).spelling <+: characters := by
  fun_induction body characters with
  | case6 c rest tail other ih => exact (prefix_append_right_inj ['\\', c]).mpr ih
  | case7 c rest _ _ _ _ _ tail ih => exact (prefix_cons_inj c).mpr ih
  | _ => simp

/-- A number takes up its digits, its fraction and what follows of it. -/
theorem takes_numberOf {whole point : List Char} (isWhole : IsDigits whole)
    (isFraction : IsFraction point) (rest : List Char) :
    Takes (numberOf whole point rest) (whole ++ point ++ rest) := by
  obtain ⟨digit, digits, rfl⟩ := exists_cons_of_ne_nil isWhole.1
  have solid : Text.isBlank digit = false := (of_isDigit (isWhole.2 digit mem_cons_self)).2.1
  unfold numberOf
  dsimp only
  by_cases twice : point ≠ [] ∧ fraction rest ≠ []
  · -- the fault lies at the second point, behind the whole mantissa
    rw [if_pos twice]
    obtain ⟨fractional, rfl, isPoint⟩ := isFraction.resolve_left twice.1
    obtain ⟨second, found, isSecond⟩ := (isFraction_fraction rest).resolve_left twice.2
    refine ⟨_, '.', second, ?_, rfl, ?_, by decide, .secondPoint isWhole isPoint isSecond⟩
    · rw [badNumber, found]
    · exact (prefix_append_right_inj _).mpr (fraction_isPrefix rest)
  rw [if_neg twice]
  cases found : exponent? rest with
  | none =>
    refine takes_plain (prefix_append _ _) solid ?_
    split <;> simp
  | some parts =>
    obtain ⟨mark, exponent⟩ := parts
    obtain ⟨c, sign, rfl, marked, signed, isPrefix⟩ := exists_of_exponent? found
    dsimp only
    by_cases none : exponent = []
    · -- the fault lies at the mark of the exponent
      rw [if_pos none]
      subst none
      rw [append_nil] at isPrefix ⊢
      refine ⟨_, c, sign, rfl, rfl, ?_, ?_, .noExponent isWhole isFraction marked signed⟩
      · exact (prefix_append_right_inj _).mpr isPrefix
      · rcases marked with rfl | rfl <;> decide
    · rw [if_neg none]
      refine takes_plain ?_ solid (by simp)
      have whole := (prefix_append_right_inj (digit :: digits ++ point)).mpr isPrefix
      rw [← append_assoc] at whole
      exact whole

/-- The lexeme that a text starts with, if it is not blank. -/
theorem takes_first {c : Char} (solid : Text.isBlank c = false) (rest : List Char) :
    Takes (first (c :: rest)) (c :: rest) := by
  rw [first]
  by_cases start : isWordStart c = true
  · rw [if_pos start, word, takeWhile_cons, if_pos (isWordPart_of_isWordStart start)]
    have isPrefix : c :: rest.takeWhile isWordPart <+: c :: rest :=
      (prefix_cons_inj c).mpr <| takeWhile_prefix _
    have kinds (word : String) : wordKind word ≠ .string ∧ wordKind word ≠ .malformed ∧
        wordKind word ≠ .endOfFile := by
      unfold wordKind
      split
      · simp
      · split <;> simp
    exact takes_plain isPrefix solid (kinds _)
  rw [if_neg start]
  by_cases digit : c.isDigit = true
  · rw [if_pos digit, number]
    have nonempty : (c :: rest).takeWhile Char.isDigit ≠ [] := by simp [digit]
    generalize split : (c :: rest).dropWhile Char.isDigit = behind
    have takes := takes_numberOf (isDigits_takeWhile nonempty) (isFraction_fraction behind)
      (behind.drop (fraction behind).length)
    have whole : (c :: rest).takeWhile Char.isDigit ++ fraction behind ++
        behind.drop (fraction behind).length = c :: rest := by
      rw [append_assoc, prefix_iff_eq_append.mp (fraction_isPrefix behind), ← split,
        takeWhile_append_dropWhile]
    rwa [whole] at takes
  rw [if_neg digit]
  by_cases quote : c = '"'
  · rw [if_pos quote, string]
    subst quote
    have isPrefix := (List.prefix_cons_inj '"').mpr (body_isPrefix rest)
    split
    · exact ⟨[], '"', _, rfl, rfl, isPrefix, solid, .string⟩
    · exact ⟨[], '"', _, rfl, rfl, isPrefix, solid, .unclosed⟩
  rw [if_neg quote]
  have single : Takes (single c) (c :: rest) := by
    unfold Lexeme.single
    split
    · exact takes_plain ⟨rest, rfl⟩ solid (by simp)
    · exact ⟨[], c, [], rfl, rfl, ⟨rest, rfl⟩, solid, .unexpected⟩
  unfold symbolAt
  split
  · next next behind =>
      split
      · exact takes_plain ⟨behind, rfl⟩ solid (by simp)
      · exact single
  · exact single

end Lexeme

/-! ## Pieces of a text -/

/-- A piece of a text with one token in it. -/
structure Piece where
  /-- Blanks and comments in front of the token. -/
  trivia : List Char
  /-- The characters of the token before the one that it reports. -/
  lead : List Char
  /-- The character whose position the token has. -/
  mark : Char
  /-- The characters of the token behind it. -/
  tail : List Char
  token : Token

namespace Piece

/-- The characters that the token takes up. -/
def span (piece : Piece) : List Char := piece.lead ++ piece.mark :: piece.tail

/-- All characters of a piece. -/
def characters (piece : Piece) : List Char := piece.trivia ++ piece.span

/-- The characters up to the one that the token reports. -/
def upToMark (piece : Piece) : List Char := piece.trivia ++ piece.lead

/-- The parts of a piece are what they should be. -/
structure Proper (piece : Piece) : Prop where
  /-- Blanks and comments come first, and no comment is left open. -/
  trivia : Trivia false piece.trivia
  /-- The token is spelled by its characters. -/
  spells : Lexeme.Spells piece.token.kind piece.token.text piece.lead piece.mark piece.tail
  /-- The token does not report a blank. -/
  solid : Text.isBlank piece.mark = false

/-- The tokens of pieces have the positions of the characters that they report, behind some other
characters and the pieces in front of them. -/
def Placed (before : List Char) : List Piece → Prop
  | [] => True
  | piece :: rest =>
    piece.token.position = Position.behind (before ++ piece.upToMark) ∧
      Placed (before ++ piece.characters) rest

/-- The position of the token of one piece among others. -/
theorem Placed.position_eq {first rest : List Piece} {piece : Piece}
    (placed : Placed before (first ++ piece :: rest)) :
    piece.token.position =
      behind (before ++ first.flatMap characters ++ piece.upToMark) := by
  induction first generalizing before with
  | nil => simpa using placed.1
  | cons other first ih => simpa using ih placed.2

/-- No token comes before the characters in front of all pieces. -/
theorem Placed.exists_behind {pieces : List Piece} (placed : Placed before pieces) :
    ∀ piece ∈ pieces, ∃ more, piece.token.position = behind (before ++ more) := by
  intro piece mem
  obtain ⟨first, rest, rfl⟩ := append_of_mem mem
  exact ⟨_, by rw [placed.position_eq, append_assoc]⟩

/-- The positions of tokens grow, up to the end. -/
theorem Placed.pairwise {pieces : List Piece} (placed : Placed before pieces) (last : List Char) :
    (pieces.map (fun piece => piece.token.position) ++
      [behind (before ++ pieces.flatMap characters ++ last)]).Pairwise
        Position.Precedes := by
  induction pieces generalizing before with
  | nil => exact pairwise_singleton _ _
  | cons piece rest ih =>
    obtain ⟨here, later⟩ := placed
    -- what follows lies behind all characters of the token, the reported one among them
    have precedes (more : List Char) : piece.token.position.Precedes
        (behind (before ++ piece.characters ++ more)) := by
      have ahead := precedes_behind (before ++ piece.upToMark)
        (cons_ne_nil piece.mark (piece.tail ++ more))
      simpa [here, upToMark, characters, span] using ahead
    rw [map_cons, cons_append, pairwise_cons, flatMap_cons, ← append_assoc before]
    refine ⟨?_, ih later⟩
    rw [forall_mem_append, forall_mem_map, forall_mem_singleton,
      append_assoc (before ++ piece.characters)]
    refine ⟨fun other mem => ?_, precedes _⟩
    obtain ⟨more, position⟩ := later.exists_behind other mem
    rw [position]
    exact precedes more

/-- The line shown for a token has the character that it reports at its column. -/
theorem Proper.line_eq {piece : Piece} (proper : piece.Proper) {text : String}
    {first rest : List Piece} {last : List Char}
    (cut : text.toList = (first ++ piece :: rest).flatMap characters ++ last) :
    let position := behind (first.flatMap characters ++ piece.upToMark)
    (Text.line text position.line).toList[position.column - 1]? = some piece.mark := by
  have split : text.toList = (first.flatMap characters ++ piece.upToMark) ++
      piece.mark :: (piece.tail ++ (rest.flatMap characters ++ last)) := by
    simp [cut, characters, span, upToMark]
  -- a blank ends a line, and the token does not report one
  have other {c : Char} (blank : Text.isBlank c = true) : piece.mark ≠ c := by
    rintro rfl
    rw [proper.solid] at blank
    cases blank
  exact Text.line_behind _ (other (by decide)) (other (by decide)) _ text split

end Piece

/-- One step of the scanner comes to the end, with blanks and comments before it, or takes up a piece of
the text. -/
theorem Scanner.next_cases (scanner : Scanner) (position : scanner.position = behind before) :
    (scanner.next.1 = ⟨.endOfFile, "", behind (before ++ scanner.rest)⟩ ∧
        Trivia true scanner.rest) ∨
      ∃ (piece : Piece) (rest : List Char), scanner.rest = piece.characters ++ rest ∧ piece.Proper ∧
        piece.token = scanner.next.1 ∧
        piece.token.position = behind (before ++ piece.upToMark) ∧
        scanner.next.2 = ⟨rest, behind (before ++ piece.characters)⟩ := by
  obtain ⟨rest, split, isTrivia, solid⟩ := Lexeme.exists_rest_of_trivia scanner.rest
  have passed (characters more : List Char) :
      (behind characters).after more = behind (characters ++ more) := by
    rw [← after_start, ← after_append, after_start]
  have begun : scanner.skipTrivia =
      ⟨rest, behind (before ++ Lexeme.trivia false scanner.rest)⟩ := by
    rw [skipTrivia, skip, position, passed]
    generalize Lexeme.trivia false scanner.rest = trivia at split ⊢
    rw [split, drop_left]
  -- from here on only the split of the text matters, not how it was found
  generalize Lexeme.trivia false scanner.rest = trivia at split isTrivia begun
  unfold next
  rw [begun]
  dsimp only
  cases rest with
  | nil =>
    rw [append_nil] at split
    rw [split]
    exact .inl ⟨rfl, isTrivia⟩
  | cons c rest =>
    obtain ⟨lead, mark, tail, spelling, leads, ⟨behind, taken⟩, notBlank, spells⟩ :=
      Lexeme.takes_first (solid c rfl) rest
    generalize Lexeme.first (c :: rest) = lexeme at spelling leads taken spells ⊢
    refine .inr ⟨⟨trivia, lead, mark, tail, _⟩, behind, ?_, ⟨isTrivia, spells, notBlank⟩, rfl, ?_, ?_⟩
    · simp [split, ← taken, spelling, Piece.characters, Piece.span]
    · simp [leads, passed, Piece.upToMark]
    · simp [skip, passed, ← taken, spelling, Piece.characters, Piece.span]

/-- A text is cut into pieces, one for each token but the last, with blanks and comments behind
them. -/
theorem Scanner.exists_pieces (scanner : Scanner) (position : scanner.position = behind before) :
    ∃ (pieces : List Piece) (last : List Char),
      scanner.rest = pieces.flatMap Piece.characters ++ last ∧
        scanner.tokens = pieces.map Piece.token ++
          [⟨.endOfFile, "", behind (before ++ scanner.rest)⟩] ∧
        (∀ piece ∈ pieces, piece.Proper) ∧ Trivia true last ∧ Piece.Placed before pieces := by
  induction scanner using Scanner.tokens.induct generalizing before with
  | case1 scanner step =>
    rename_i ended
    obtain ⟨final, isTrivia⟩ | ⟨piece, rest, -, proper, same, -, -⟩ := scanner.next_cases position
    · refine ⟨[], scanner.rest, rfl, ?_, forall_mem_nil _, isTrivia, trivial⟩
      rw [tokens]
      rw [if_pos ended, final]
      rfl
    · -- a token with characters is not the end
      rw [← same] at ended
      exact absurd ended proper.spells.notEnd
  | case2 scanner step more =>
    rename_i ih
    obtain ⟨final, -⟩ | ⟨piece, rest, split, proper, same, placed, next⟩ :=
      scanner.next_cases position
    · exact absurd (congrArg Token.kind final) more
    · obtain ⟨pieces, last, cut, found, allProper, isTrivia, allPlaced⟩ :=
        ih (congrArg Scanner.position next)
      have behind : step.2.rest = rest := congrArg Scanner.rest next
      rw [behind] at cut found
      refine ⟨piece :: pieces, last, ?_, ?_, forall_mem_cons.mpr ⟨proper, allProper⟩, isTrivia,
        placed, allPlaced⟩
      · rw [split, cut, flatMap_cons, append_assoc]
      · rw [tokens]
        rw [if_neg more, found, split, map_cons, same, append_assoc]
        rfl

/-- Scanning tiles the text: it is cut into pieces, one for each token before the end of the text, of
blanks and comments and the characters of the token, with blanks and comments behind them. A token has
the position of its first character, or of the fault in a number, and the line shown for it has that
character at its column. Positions grow from token to token. -/
theorem Token.scan_tiles (text : String) :
    ∃ (pieces : List Piece) (last : List Char),
      text.toList = pieces.flatMap Piece.characters ++ last ∧
        Token.scan text =
          pieces.map Piece.token ++ [⟨.endOfFile, "", Position.behind text.toList⟩] ∧
        (∀ piece ∈ pieces, piece.Proper ∧ (piece.token.kind = .string ∨
          piece.token.kind = .malformed ∨ piece.token.text = String.ofList piece.span)) ∧
        Trivia true last ∧
        (∀ index : Fin pieces.length,
          let piece := pieces.get index
          let position := piece.token.position
          position =
              Position.behind ((pieces.take index).flatMap Piece.characters ++ piece.upToMark) ∧
            (Text.line text position.line).toList[position.column - 1]? = some piece.mark) ∧
        ((Token.scan text).map Token.position).Pairwise Position.Precedes := by
  have start : (Scanner.ofText text).position = Position.behind [] := rfl
  obtain ⟨pieces, last, cut, found, proper, isTrivia, placed⟩ := Scanner.exists_pieces _ start
  change text.toList = _ at cut
  change Token.scan text = pieces.map Piece.token ++ [⟨_, _, Position.behind text.toList⟩] at found
  refine ⟨pieces, last, cut, found, fun piece mem => ⟨proper piece mem, (proper piece mem).spells.text_eq⟩,
    isTrivia, fun index => ?_, ?_⟩
  · have split : pieces = pieces.take index ++ pieces.get index :: pieces.drop (index + 1) := by
      simp
    have properPiece := proper _ (pieces.get_mem index)
    generalize pieces.get index = piece, pieces.take index = first,
      pieces.drop (index + 1) = rest at split properPiece ⊢
    subst split
    have position := placed.position_eq
    rw [nil_append] at position
    refine ⟨position, ?_⟩
    rw [position]
    exact properPiece.line_eq cut
  · have ordered := placed.pairwise last
    rw [nil_append, ← cut] at ordered
    rw [found, map_append, map_map]
    exact ordered

/-! ## Tokens on demand -/

namespace Lexer

/-- Once the end-of-file token has come in turn, nothing comes any more. -/
theorem next?_iterate_of_finished (scanner : Scanner) (count : Nat) :
    ((Prod.snd ∘ next?)^[count] ⟨scanner, true⟩).next?.1 = none := by
  rw [Function.iterate_fixed rfl]
  rfl

/-- A lexer gives out in turn the tokens that its scanner has left, and nothing behind them. -/
theorem next?_iterate (scanner : Scanner) (count : Nat) :
    ((Prod.snd ∘ next?)^[count] ⟨scanner, false⟩).next?.1 = scanner.tokens[count]? := by
  induction count generalizing scanner with
  | zero =>
    rw [Scanner.tokens]
    split <;> rfl
  | succ count ih =>
    have step : (Prod.snd ∘ next?) ⟨scanner, false⟩ =
        ⟨scanner.next.2, decide (scanner.next.1.kind = .endOfFile)⟩ := rfl
    rw [Function.iterate_succ_apply, step, Scanner.tokens]
    by_cases ended : scanner.next.1.kind = .endOfFile
    · rw [decide_eq_true ended, next?_iterate_of_finished, if_pos ended]
      rfl
    · rw [decide_eq_false ended, ih, if_neg ended]
      rfl

end Lexer

end ClassLang
