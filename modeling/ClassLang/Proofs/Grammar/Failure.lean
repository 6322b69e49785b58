import ClassLang.Proofs.Grammar.Consumption
import ClassLang.Syntax.Equality

/-! # Where reading fails

Reading stops at the first token with which no program can go on. What is said there is decided by the
tokens read and that token, so it is the same whatever stands further behind, and it names the place: a
malformed token, an operator without its operand, or the token itself. -/

namespace ClassLang

open Reading List

namespace Grammar

/-- After the classes of a program comes the end of the text, so only the reading of classes fails. -/
theorem classes_of_program_error {reader after : Reader} {fault : Fault}
    (failed : (outermost.program : Reading _) reader = .error fault after) :
    (manyUntil (· = .endOfFile) outermost.classDecl : Reading _) reader = .error fault after := by
  have advances := advances_classDecl (takesUp_ofLevels (maxDepth + 1))
  cases run : (manyUntil (· = .endOfFile) outermost.classDecl : Reading _) reader with
  | error fault' after' =>
    rw [program, bind_of_error run] at failed
    cases failed
    rfl
  | ok classes between =>
    obtain ⟨token, next, isEnd⟩ := (Option.any_eq_true _ _).mp (ends_of_manyUntil advances run)
    obtain ⟨rest, tokens_eq⟩ := head?_eq_some_iff.mp next
    obtain ⟨tokens, last, depth⟩ := between
    obtain rfl : tokens = token :: rest := tokens_eq
    have isEnd : token.kind = .endOfFile := of_decide_eq_true isEnd
    have well : token.kind ≠ .malformed := by simp [isEnd]
    have ended := expect_cons well rest last depth
    rw [isEnd] at ended
    rw [program, bind_of_ok run, bind_of_ok ended] at failed
    cases failed

end Grammar

namespace Program

variable {tokens : List Token} {fault : Fault}

/-- How many tokens are read before reading ends. -/
def consumed (tokens : List Token) : Nat :=
  tokens.length - (Reading.after Grammar.outermost.program (Reader.ofTokens tokens)).tokens.length

/-- A list of tokens is refused if the reading of its classes fails. -/
theorem ofTokens_eq_error : ofTokens tokens = .error fault ↔
    ∃ after, (manyUntil (· = .endOfFile) Grammar.outermost.classDecl : Reading _)
      (Reader.ofTokens tokens) = .error fault after := by
  constructor
  · intro refused
    unfold ofTokens at refused
    split at refused
    · cases refused
    · next failed =>
        cases refused
        exact ⟨_, Grammar.classes_of_program_error failed⟩
  · rintro ⟨after, failed⟩
    have failed : (Grammar.outermost.program : Reading _) (Reader.ofTokens tokens) =
      .error fault after := bind_of_error failed
    rw [ofTokens, failed]

section Ended

variable (ends : ∃ token ∈ tokens, token.kind = .endOfFile)
  (refused : ofTokens tokens = .error fault)

include ends refused

/-- Where tokens with an end of the text are refused, some are read and a next one is looked at. -/
theorem exists_takes_of_ofTokens :
    ∃ taken token rest after, tokens = taken ++ token :: rest ∧ consumed tokens = taken.length ∧
      (manyUntil (· = .endOfFile) Grammar.outermost.classDecl : Reading _) (Reader.ofTokens tokens) =
        .error fault after ∧ after.tokens = token :: rest ∧
      Takes (manyUntil (· = .endOfFile) Grammar.outermost.classDecl) none (Reader.ofTokens tokens)
        taken := by
  obtain ⟨after, failed⟩ := ofTokens_eq_error.mp refused
  have advances := Grammar.advances_classDecl (Grammar.takesUp_ofLevels (maxDepth + 1))
  obtain ⟨taken, takes⟩ := advances.manyUntil (· = .endOfFile) none (Reader.ofTokens tokens)
  have tokens_eq : tokens = taken ++ after.tokens := by
    rw [← after_of_error failed]
    exact takes.tokens_eq
  have consumed_eq : consumed tokens = taken.length := by
    have whole : (Grammar.outermost.program : Reading _) (Reader.ofTokens tokens) =
      .error fault after := bind_of_error failed
    have length_eq := congrArg length tokens_eq
    rw [length_append] at length_eq
    rw [consumed, after_of_error whole]
    omega
  cases left : after.tokens with
  | nil =>
    -- the end of the text is not read, so it is left
    obtain ⟨ending, mem, isEnd⟩ := ends
    rw [tokens_eq, left, append_nil] at mem
    have used := takes.used ending mem
    rw [isEnd] at used
    cases used
  | cons token rest =>
    exact ⟨taken, token, rest, after, by rw [← left, ← tokens_eq], consumed_eq, failed, left, takes⟩

/-- Tokens that begin as others do, up to the token at which those are refused, are refused for the
same reason. -/
theorem ofTokens_eq_error_of_take_eq {others : List Token}
    (same : others.take (consumed tokens + 1) = tokens.take (consumed tokens + 1)) :
    ofTokens others = .error fault := by
  obtain ⟨taken, token, rest, after, tokens_eq, consumed_eq, failed, left, takes⟩ :=
    exists_takes_of_ofTokens ends refused
  have begun : others = taken ++ token :: others.drop (taken.length + 1) := by
    have first : tokens.take (taken.length + 1) = taken ++ [token] := by
      rw [tokens_eq, take_length_add_append, take_succ_cons, take_zero]
    rw [consumed_eq, first] at same
    rw [← singleton_append, ← append_assoc, ← same, take_append_drop]
  have looked := takes.looks (token :: others.drop (taken.length + 1))
    (by rw [after_of_error failed, left]; rfl)
  rw [← begun, failed] at looked
  exact ofTokens_eq_error.mpr ⟨_, looked⟩

/-- What is said of tokens that are refused is about the next token or the one before it. -/
theorem blames_of_ofTokens :
    ∃ token, tokens[consumed tokens]? = some token ∧
      fault.Blames (tokens.take (consumed tokens)).getLast? (some token) ∧
      ∀ earlier ∈ tokens.take (consumed tokens), earlier.kind.isUsed = true := by
  obtain ⟨taken, token, rest, after, tokens_eq, consumed_eq, failed, left, takes⟩ :=
    exists_takes_of_ofTokens ends refused
  have read_eq : tokens.take (consumed tokens) = taken := by
    rw [consumed_eq, tokens_eq, take_left]
  have blames := takes.blames failed
  rw [Option.or_none, left] at blames
  rw [read_eq]
  refine ⟨token, ?_, blames, takes.used⟩
  rw [consumed_eq, tokens_eq, getElem?_append_right (Nat.le_refl _), Nat.sub_self]
  rfl

end Ended

/-- The last token read is the one before the next. -/
theorem getElem?_of_getLast?_take {count : Nat} {last next : Token}
    (found : tokens[count]? = some next) (ended : (tokens.take count).getLast? = some last) :
    0 < count ∧ tokens[count - 1]? = some last := by
  obtain ⟨inside, -⟩ := List.getElem?_eq_some_iff.mp found
  cases count with
  | zero => cases ended
  | succ count =>
    refine ⟨Nat.succ_pos count, ?_⟩
    rw [getLast?_eq_getElem?, length_take_of_le (Nat.le_of_lt inside),
      Nat.add_sub_cancel, getElem?_take_of_lt (Nat.lt_succ_self count)] at ended
    exact ended

/-- Reading fails fast. What is said of tokens that are refused is decided by those read and the next
one. It names that token if it is malformed, and then none before it is; or the operator before it,
which then has no operand on its line; or else the next token. Tokens that are read are all part of
programs up to the end of the text. -/
theorem ofTokens_fails_fast (tokens : List Token) :
    (∀ fault, (∃ token ∈ tokens, token.kind = .endOfFile) → ofTokens tokens = .error fault →
      (∀ others : List Token,
        others.take (consumed tokens + 1) = tokens.take (consumed tokens + 1) →
        ofTokens others = .error fault) ∧
      ∃ token, tokens[consumed tokens]? = some token ∧
        match fault.cause with
        | .lexical complaint =>
          token.kind = .malformed ∧ token.text = complaint ∧ token.position = fault.position ∧
            ∀ earlier ∈ tokens.take (consumed tokens), earlier.kind ≠ .malformed
        | .incompleteBinary text =>
          ∃ operator, (0 < consumed tokens ∧ tokens[consumed tokens - 1]? = some operator) ∧
            (BinaryOp.ofKind? operator.kind).isSome = true ∧ operator.text = text ∧
            operator.position = fault.position ∧
            ¬(Grammar.startsOperand token.kind = true ∧
              token.position.line = operator.position.line)
        | _ => fault.position = token.position) ∧
    ∀ program, ofTokens tokens = .ok program →
      ∃ read ending rest, tokens = read ++ ending :: rest ∧ ending.kind = .endOfFile ∧
        ∀ token ∈ read, token.kind ≠ .endOfFile ∧ token.kind ≠ .malformed ∧
          token.kind ≠ .string ∧ token.kind ≠ .symbol .arrow := by
  refine ⟨fun fault ends refused => ?_, fun program read => ?_⟩
  · obtain ⟨token, found, blames, used⟩ := blames_of_ofTokens ends refused
    refine ⟨fun others => ofTokens_eq_error_of_take_eq ends refused, token, found, ?_⟩
    obtain ⟨cause, position⟩ := fault
    cases cause with
    | lexical complaint =>
      obtain ⟨_, ⟨⟩, malformed, text_eq, position_eq⟩ := blames
      exact ⟨malformed, text_eq, position_eq, fun earlier mem =>
        Kind.ne_malformed_of_isUsed (used earlier mem)⟩
    | incompleteBinary text =>
      obtain ⟨operator, _, last, ⟨⟩, described⟩ := blames
      exact ⟨operator, getElem?_of_getLast?_take found last, described⟩
    | _ => exact blames token rfl
  · obtain ⟨read, ending, rest, tokens_eq, isEnd, used⟩ := exists_tokens_eq_of_ofTokens read
    refine ⟨read, ending, rest, tokens_eq, isEnd, fun token mem => ?_⟩
    have isUsed := used token mem
    refine ⟨?_, ?_, ?_, ?_⟩ <;>
    · intro kind_eq
      rw [kind_eq] at isUsed
      cases isUsed

/-- A field with an operator whose operand stands on the next line. -/
def operandOnNextLine : List Token :=
  [⟨.keyword .classWord, "class", ⟨1, 1⟩⟩, ⟨.identifier, "A", ⟨1, 7⟩⟩,
   ⟨.keyword .isWord, "is", ⟨1, 9⟩⟩, ⟨.keyword .varWord, "var", ⟨2, 3⟩⟩,
   ⟨.identifier, "x", ⟨2, 7⟩⟩, ⟨.symbol .colon, ":", ⟨2, 9⟩⟩, ⟨.integer, "1", ⟨2, 11⟩⟩,
   ⟨.symbol .plus, "+", ⟨2, 13⟩⟩, ⟨.integer, "2", ⟨3, 1⟩⟩, ⟨.keyword .endWord, "end", ⟨4, 1⟩⟩,
   ⟨.endOfFile, "", ⟨4, 4⟩⟩]

/-- An operator is refused if its operand stands on the next line, whatever comes behind that. -/
theorem ofTokens_fails_fast_operandOnNextLine :
    consumed operandOnNextLine = 8 ∧
      ofTokens operandOnNextLine = .error ⟨.incompleteBinary "+", ⟨2, 13⟩⟩ ∧
      (∀ others : List Token, others.take 9 = operandOnNextLine.take 9 →
        ofTokens others = .error ⟨.incompleteBinary "+", ⟨2, 13⟩⟩) ∧
      ∃ operator operand, operandOnNextLine[7]? = some operator ∧
        operandOnNextLine[8]? = some operand ∧ operator.text = "+" ∧
        ¬(Grammar.startsOperand operand.kind = true ∧
          operand.position.line = operator.position.line) := by
  have count : consumed operandOnNextLine = 8 := by decide +kernel
  have refused : ofTokens operandOnNextLine = .error ⟨.incompleteBinary "+", ⟨2, 13⟩⟩ := by decide +kernel
  have fast := (ofTokens_fails_fast operandOnNextLine).1 _
    ⟨⟨.endOfFile, "", ⟨4, 4⟩⟩, by decide, rfl⟩ refused
  rw [count] at fast
  obtain ⟨others, operand, next, operator, ⟨-, last⟩, -, text, -, apart⟩ := fast
  exact ⟨count, refused, others, operator, operand, last, next, text, apart⟩

end Program

end ClassLang
