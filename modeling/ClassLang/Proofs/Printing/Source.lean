import ClassLang.Proofs.Printing.Scanning

/-! # The words of source texts

Scanning the source text of a tree gives the words of the tree, if its names and literals are ones
that the scanner finds. -/

namespace ClassLang

open List Stmt Word ClassLang.Expr

variable {rest : List Char}

/-- Whether the scanner finds a word: its text is what its kind asks for. -/
def Word.Lexical (word : Word) : Prop :=
  match word.kind with
  | .identifier => Lexeme.IsWord word.text ∧ Lexeme.wordKind word.text = .identifier
  | .integer => Lexeme.IsNumber .integer word.text
  | .real => Lexeme.IsNumber .real word.text
  | _ => True

/-! ## Single words -/

/-- Texts with commas between them: the first, and each other behind a comma. -/
theorem toList_commaSeparated (first : String) (texts : List String) :
    (commaSeparated (first :: texts)).toList =
      first.toList ++ texts.flatMap fun text => ',' :: ' ' :: text.toList := by
  unfold commaSeparated
  induction texts generalizing first with
  | nil => simp
  | cons second texts ih =>
    rw [String.intercalate_cons_cons, String.toList_append, String.toList_append, ih,
      flatMap_cons, append_assoc]
    rfl

/-! ## Texts and their words -/

namespace Scanner

/-- Any text at all. -/
def Anything (_ : List Char) : Prop := True

/-- A text that ends a word or a number before it. -/
def EndsWord (rest : List Char) : Prop := Lexeme.endsBefore rest = true

/-- Whether a text is split into words and ends on a line, before the texts that have a property. The
words have to be ones that the scanner finds. -/
def Splits (before : List Char → Prop) (line : Nat) (text : String) (found : List Word)
    (final : Nat) : Prop :=
  (∀ word ∈ found, word.Lexical) → ∀ rest, before rest →
    words line (text.toList ++ rest) = found ++ words final rest

section Splits

variable {before after : List Char → Prop} {line middle final : Nat} {text text' : String}
  {found found' : List Word}

namespace Splits

/-- Texts in turn. -/
theorem append (first : Splits before line text found middle)
    (second : Splits after middle text' found' final)
    (joins : ∀ rest, after rest → before (text'.toList ++ rest)) :
    Splits after line (text ++ text') (found ++ found') final := by
  intro lexical rest behind
  rw [forall_mem_append] at lexical
  rw [String.toList_append, append_assoc, first lexical.1 _ (joins rest behind),
    second lexical.2 rest behind, append_assoc]

/-- A text that may stand before any other. -/
theorem andThen (first : Splits Anything line text found middle)
    (second : Splits after middle text' found' final) :
    Splits after line (text ++ text') (found ++ found') final :=
  first.append second fun _ _ => trivial

theorem weaken (splits : Splits Anything line text found final) :
    Splits before line text found final := fun lexical rest _ => splits lexical rest trivial

theorem of_toList (splits : Splits before line text found final)
    (spelled : text'.toList = text.toList) : Splits before line text' found final := by
  intro lexical rest behind
  rw [spelled, splits lexical rest behind]

theorem of_eq {final' : Nat} (splits : Splits before line text found final)
    (same : found = found') (lines : final = final') : Splits before line text found' final' := by
  rwa [same, lines] at splits

/-- The blanks before a line do not matter, and a newline ends it. -/
theorem indented (splits : Splits EndsWord line text found final) (depth : Nat) :
    Splits Anything line (indented depth text) found (final + 1) := by
  intro lexical rest _
  have blanks (count : Nat) (rest : List Char) :
      words line (replicate count ' ' ++ rest) = words line rest := by
    induction count with
    | zero => rfl
    | succ count ih => rw [replicate_succ, cons_append, words_space, ih]
  have split : (ClassLang.indented depth text).toList ++ rest =
      replicate (4 * depth) ' ' ++ (text.toList ++ '\n' :: rest) := by
    simp [ClassLang.indented, indentation]
  rw [split, blanks, splits lexical ('\n' :: rest) rfl, words_newline]

end Splits

theorem splits_nil : Splits before line "" [] line := fun _ _ _ => rfl

section Words

variable (line : Nat)

theorem splits_blank : Splits Anything line " " [] line :=
  fun _ rest _ => words_space line rest

/-- A symbol before a blank. -/
theorem splits_symbol (sign : Symbol) :
    Splits Anything line (sign.spelling ++ " ") [symbol line sign] line := by
  intro _ rest _
  have blank : ∀ c ∈ (' ' :: rest).head?, Text.isBlank c = true := by
    rintro _ ⟨⟩
    decide
  rw [String.toList_append, append_assoc]
  refine (words_lexeme (Lexeme.found_symbol sign blank) nofun line).trans ?_
  rw [words_space]
  rfl

/-- A symbol between blanks. -/
theorem splits_spaced (sign : Symbol) (text : String)
    (spelled : text.toList = ' ' :: (sign.spelling.toList ++ [' '])) :
    Splits Anything line text [symbol line sign] line :=
  ((splits_blank line).andThen (splits_symbol line sign)).of_toList (by simpa using spelled)

theorem splits_mark (sign : Symbol)
    (mark : sign ∈ [.leftParen, .rightParen, .leftBracket, .rightBracket, .comma, .period]) :
    Splits Anything line sign.spelling [symbol line sign] line :=
  fun _ rest _ => words_lexeme (Lexeme.found_mark mark rest) nofun line

theorem splits_keyword (keyword : Keyword) :
    Splits EndsWord line keyword.spelling [Word.keyword line keyword] line := by
  intro _ rest ends
  have kind : Lexeme.wordKind keyword.spelling = .keyword keyword := by
    cases keyword <;> decide
  have found := (Lexeme.isWord_spelling keyword).found ends
  rw [kind] at found
  exact words_lexeme found nofun line

/-- A reserved word before a blank. -/
theorem splits_opening (keyword : Keyword) (text : String)
    (spelled : text.toList = keyword.spelling.toList ++ [' ']) :
    Splits Anything line text [Word.keyword line keyword] line :=
  ((splits_keyword line keyword).append (splits_blank line) fun _ _ => rfl).of_toList
    (by simpa using spelled)

/-- A reserved word behind a blank. -/
theorem splits_closing (keyword : Keyword) (text : String)
    (spelled : text.toList = ' ' :: keyword.spelling.toList) :
    Splits EndsWord line text [Word.keyword line keyword] line :=
  ((splits_blank line).andThen (splits_keyword line keyword)).of_toList (by simpa using spelled)

theorem splits_name (name : String) : Splits EndsWord line name [Word.name line name] line := by
  intro lexical rest ends
  obtain ⟨isWord, kind⟩ := lexical _ (mem_singleton_self _)
  have found := Lexeme.IsWord.found isWord ends
  rw [kind] at found
  exact words_lexeme found nofun line

end Words

/-- A number is a word. -/
theorem words_number {kind : Kind} (isNumber : Lexeme.IsNumber kind text)
    (ends : Lexeme.endsBefore rest = true) :
    words line (text.toList ++ rest) = ⟨kind, text, line⟩ :: words line rest := by
  refine words_lexeme (isNumber.found ends) ?_ line
  obtain ⟨whole, point, exponent, -, -, -, -, rfl⟩ := isNumber
  split <;> nofun

theorem splits_bool (line : Nat) (value : Bool) :
    Splits EndsWord line (boolSource value) [⟨.boolean, boolSource value, line⟩] line := by
  intro _ rest ends
  have isWord : Lexeme.IsWord (boolSource value) := by
    cases value <;> exact ⟨_, _, rfl, by decide, all_eq_true.mp (by decide)⟩
  have kind : Lexeme.wordKind (boolSource value) = .boolean := by
    cases value <;> decide
  have found := isWord.found ends
  rw [kind] at found
  exact words_lexeme found nofun line

/-- Texts with commas between them. -/
theorem splits_commaSeparated {α : Type} {source : α → String} {spelled : α → List Word} {first : α}
    {others : List α}
    (each : ∀ item ∈ first :: others, Splits EndsWord line (source item) (spelled item) line) :
    Splits EndsWord line (commaSeparated ((first :: others).map source))
      (spelled first ++ others.flatMap fun item => symbol line .comma :: spelled item) line := by
  obtain ⟨here, later⟩ := forall_mem_cons.mp each
  induction others generalizing first with
  | nil => exact here.of_eq (append_nil _).symm rfl
  | cons second others ih =>
    have comma : Splits Anything line ", " [symbol line .comma] line :=
      ((splits_mark line .comma (by decide)).andThen (splits_blank line)).of_toList rfl
    obtain ⟨next, further⟩ := forall_mem_cons.mp later
    have text : commaSeparated ((first :: second :: others).map source) =
        source first ++ ", " ++ commaSeparated ((second :: others).map source) :=
      String.intercalate_cons_cons
    rw [text]
    exact ((here.append comma fun _ _ => rfl).andThen (ih later next further)).of_eq (by simp) rfl

end Splits

end Scanner

open Scanner

/-! ## Types -/

namespace TypeRef

/-- The source text of a type is its name and the types it is applied to. -/
theorem source_eq (name : String) (arguments : List TypeRef) (position : Position) :
    source ⟨name, arguments, position⟩ = name ++ argumentsSource arguments := by
  cases arguments with
  | nil =>
    rw [source, argumentsSource, isEmpty_nil, if_pos rfl, String.append_empty]
  | cons first rest =>
    rw [source, argumentsSource, sources, isEmpty_cons, if_neg Bool.false_ne_true]
    simp only [String.append_assoc]

/-- A name ends before the types it is applied to, or where these are missing. -/
theorem endsWord_argumentsSource (ends : EndsWord rest) (arguments : List TypeRef) :
    EndsWord ((argumentsSource arguments).toList ++ rest) := by
  cases arguments with
  | nil => exact ends
  | cons first others =>
    rw [argumentsSource, isEmpty_cons, if_neg Bool.false_ne_true,
      String.append_assoc, String.toList_append, append_assoc]
    rfl

theorem sources_eq (types : List TypeRef) : sources types = types.map source := by
  induction types with
  | nil => rfl
  | cons type rest ih => rw [sources, ih, map_cons]

/-- The source text of the types that a name is applied to gives their words, if that of each does. -/
theorem splits_argumentsSource {line : Nat} {arguments : List TypeRef}
    (each : ∀ type ∈ arguments, Splits EndsWord line type.source (type.words line) line) :
    Splits Anything line (argumentsSource arguments) (argumentsWords line arguments) line := by
  cases arguments with
  | nil => exact splits_nil
  | cons first others =>
    rw [argumentsSource, isEmpty_cons, if_neg Bool.false_ne_true, sources_eq,
      argumentsWords, furtherWords_eq]
    exact ((splits_mark line .leftBracket (by decide)).andThen (splits_commaSeparated each)).append
      (splits_mark line .rightBracket (by decide)) fun _ _ => rfl

mutual

/-- The source text of a type gives its words. -/
theorem splits_source (line : Nat) :
    (type : TypeRef) → Splits EndsWord line type.source (type.words line) line
  | ⟨name, arguments, position⟩ => by
    rw [source_eq, words]
    exact (splits_name line name).append
      (splits_argumentsSource (splits_sources line arguments)).weaken
      fun _ ends => endsWord_argumentsSource ends arguments

theorem splits_sources (line : Nat) : (types : List TypeRef) →
    ∀ type ∈ types, Splits EndsWord line type.source (type.words line) line
  | [] => forall_mem_nil _
  | type :: rest =>
    forall_mem_cons.mpr ⟨type.splits_source line, splits_sources line rest⟩

end

end TypeRef

/-! ## Expressions -/

theorem Expr.sources_eq (exprs : List Expr) : sources exprs = exprs.map source := by
  induction exprs with
  | nil => rfl
  | cons expr rest ih => rw [sources, ih, map_cons]

/-- A point before a name ends what is before it. -/
theorem endsWord_period {line : Nat} {name : String} (lexical : (Word.name line name).Lexical) :
    EndsWord ((Symbol.period.spelling ++ name).toList ++ rest) := by
  obtain ⟨⟨c, parts, spelling, start, -⟩, -⟩ := lexical
  have spelled : name.toList = c :: parts := spelling
  rw [String.toList_append, spelled]
  exact start

mutual

/-- The source text of an expression gives its words. -/
theorem Expr.splits_source (line : Nat) :
    (expr : Expr) → Splits EndsWord line expr.source (expr.words line) line
  | .ident name arguments _ =>
    (splits_name line name).append
      (TypeRef.splits_argumentsSource (TypeRef.splits_sources line arguments)).weaken
      fun _ ends => TypeRef.endsWord_argumentsSource ends arguments
  | .self _ => splits_keyword line .thisWord
  | .int text _ | .real text _ => fun lexical _ ends =>
    words_number (lexical _ (mem_singleton_self _)) ends
  | .bool value _ => splits_bool line value
  | .binary op left right _ => by
    have opened := (splits_mark line .leftParen (by decide)).andThen (left.splits_source line)
    have splits := ((opened.append (splits_blank line) fun _ _ => rfl).andThen
      (splits_symbol line op.symbol)).andThen (right.splits_source line)
    have all := splits.append (splits_mark line .rightParen (by decide)) fun _ _ => rfl
    refine (all.weaken.of_toList ?_).of_eq ?_ rfl
    · simp only [source, String.toList_append, append_assoc]
      rfl
    · simp [words]
  | .member target name _ => by
    intro lexical
    have lexicalName : (Word.name line name).Lexical := lexical _ (by simp [words])
    have last := (splits_mark line .period (by decide)).andThen (splits_name line name)
    have splits := (target.splits_source line).append last fun _ _ =>
      endsWord_period lexicalName
    refine splits.of_toList ?_ lexical
    simp only [source, String.toList_append, append_assoc]
    rfl
  | .call callee arguments _ => by
    have close := splits_mark line .rightParen (by decide)
    have splits := (callee.splits_source line).append (splits_mark line .leftParen (by decide))
      fun _ _ => rfl
    cases arguments with
    | nil =>
      refine ((splits.andThen splits_nil).andThen close).weaken.of_eq ?_ rfl
      simp [words, argumentsWords]
    | cons first others =>
      have each := splits_sources line (first :: others)
      have all := (splits.andThen (splits_commaSeparated each)).append close fun _ _ => rfl
      rw [source, words, argumentsWords, sources_eq, furtherWords_eq]
      exact all.weaken.of_eq (by simp) rfl

theorem Expr.splits_sources (line : Nat) : (exprs : List Expr) →
    ∀ expr ∈ exprs, Splits EndsWord line expr.source (expr.words line) line
  | [] => forall_mem_nil _
  | expr :: rest =>
    forall_mem_cons.mpr ⟨expr.splits_source line, splits_sources line rest⟩

end

/-! ## Statements -/

section Statements

variable {line : Nat}

/-- An expression between two reserved words. -/
theorem splits_head (line : Nat) (opening closing : Keyword) (first last : String) (expr : Expr)
    (opens : first.toList = opening.spelling.toList ++ [' '])
    (closes : last.toList = ' ' :: closing.spelling.toList) :
    Splits EndsWord line (first ++ expr.source ++ last)
      (keyword line opening :: (expr.words line ++ [keyword line closing])) line := by
  refine ((splits_opening line opening first opens).andThen (expr.splits_source line)).append
    (splits_closing line closing last closes) fun rest _ => ?_
  rw [closes]
  rfl

/-- A name with an initial value. -/
theorem splits_binding (name : String) (init : Expr) :
    Splits EndsWord line ("var " ++ name ++ " : " ++ init.source)
      (Word.keyword line .varWord :: Word.name line name :: Word.symbol line .colon ::
        init.words line) line :=
  (((splits_opening line .varWord "var " rfl).andThen (splits_name line name)).append
    (splits_spaced line .colon " : " rfl) fun _ _ => rfl).andThen (init.splits_source line)

theorem splits_endLine (depth : Nat) :
    Splits Anything line (indented depth "end") [keyword line .endWord] (line + 1) :=
  Splits.indented (splits_keyword line .endWord) depth

end Statements

mutual

/-- The source text of a statement gives its words. -/
theorem Stmt.splits_source (line depth : Nat) :
    (stmt : Stmt) → Splits Anything line (stmt.source depth) (stmt.words line) (line + stmt.height)
  | .declare name init _ => (splits_binding name init).indented depth
  | .assign target value _ =>
    ((((target.splits_source line).append (splits_spaced line .assign " := " rfl)
      fun _ _ => rfl).andThen (value.splits_source line)).indented depth).of_eq
        (by simp [words]) rfl
  | .branch test body none _ => by
    have head := (splits_head line .ifWord .thenWord "if " " then" test rfl rfl).indented depth
    have splits := (head.andThen (splits_blockSource (line + 1) (depth + 1) body)).andThen
      (splits_endLine depth)
    refine splits.of_eq ?_ ?_
    · simp [words]
    · rw [height]
      omega
  | .branch test body (some alternative) _ => by
    have head := (splits_head line .ifWord .thenWord "if " " then" test rfl rfl).indented depth
    have taken := head.andThen (splits_blockSource (line + 1) (depth + 1) body)
    have middle := taken.andThen ((splits_keyword _ .elseWord).indented depth)
    have splits := (middle.andThen (splits_blockSource _ (depth + 1) alternative)).andThen
      (splits_endLine depth)
    refine splits.of_eq ?_ ?_
    · simp [words]
    · rw [height]
      omega
  | .loop test body _ => by
    have head := (splits_head line .whileWord .loopWord "while " " loop" test rfl rfl).indented depth
    have splits := (head.andThen (splits_blockSource (line + 1) (depth + 1) body)).andThen
      (splits_endLine depth)
    refine splits.of_eq ?_ ?_
    · simp [words]
    · rw [height]
      omega
  | .ret value _ =>
    ((splits_opening line .returnWord "return " rfl).andThen
      (value.splits_source line)).indented depth
  | .leave _ => (splits_keyword line .breakWord).indented depth
  | .eval value _ => (value.splits_source line).indented depth

theorem Stmt.splits_blockSource (line depth : Nat) : (block : List Stmt) →
    Splits Anything line (blockSource depth block) (blockWords line block)
      (line + blockHeight block)
  | [] => splits_nil
  | stmt :: rest => by
    have splits := (stmt.splits_source line depth).andThen
      (splits_blockSource (line + stmt.height) depth rest)
    exact splits.of_eq rfl (by rw [blockHeight, Nat.add_assoc])

end

/-! ## Declarations -/

section Declarations

variable {line : Nat}

/-- The source text of a parameter gives its words. -/
theorem Param.splits_source (param : Param) :
    Splits EndsWord line param.source (param.words line) line :=
  ((splits_name line param.name).append (splits_spaced line .colon " : " rfl) fun _ _ => rfl).andThen
    (param.type.splits_source line)

/-- The parameters of a method in parentheses, if there are any. -/
def Param.listSource (params : List Param) : String :=
  if params.isEmpty then "" else "(" ++ commaSeparated (params.map source) ++ ")"

/-- The source text of the parameters of a method gives their words. -/
theorem Param.splits_listSource (params : List Param) :
    Splits Anything line (listSource params) (listWords line params) line := by
  cases params with
  | nil => exact splits_nil
  | cons first others =>
    rw [listSource, isEmpty_cons, if_neg Bool.false_ne_true, listWords]
    exact ((splits_mark line .leftParen (by decide)).andThen
      (splits_commaSeparated fun (param : Param) _ => param.splits_source)).append
      (splits_mark line .rightParen (by decide)) fun _ _ => rfl

/-- The result type of a method behind a colon, if there is one. -/
def TypeRef.resultSource : Option TypeRef → String
  | some type => " : " ++ type.source
  | none => ""

/-- The source text of the result type of a method gives its words. -/
theorem TypeRef.splits_resultSource (result : Option TypeRef) :
    Splits EndsWord line (TypeRef.resultSource result) (TypeRef.resultWords line result) line := by
  cases result with
  | none => exact splits_nil
  | some type => exact (splits_spaced line .colon " : " rfl).andThen (type.splits_source line)

/-- The source text of a block and the word `end` behind it gives their words. -/
theorem Stmt.splits_closedSource (depth : Nat) (block : List Stmt) :
    Splits Anything line (blockSource (depth + 1) block ++ indented depth "end")
      (closedWords line block) (line + (blockHeight block + 1)) :=
  (splits_blockSource line (depth + 1) block).andThen (splits_endLine depth)

/-- The source text of a method gives its words. -/
theorem Method.splits_source (method : Method) :
    Splits Anything line method.source (method.words line)
      (line + (blockHeight method.body + 2)) := by
  have endsResult {rest : List Char} (ends : EndsWord rest) :
      EndsWord ((TypeRef.resultSource method.result).toList ++ rest) := by
    cases method.result with
    | none => exact ends
    | some type =>
      rw [TypeRef.resultSource, String.toList_append]
      rfl
  have endsName {rest : List Char} (ends : EndsWord rest) :
      EndsWord ((Param.listSource method.params).toList ++ rest) := by
    cases method.params with
    | nil => exact ends
    | cons first others =>
      rw [Param.listSource, isEmpty_cons, if_neg Bool.false_ne_true, String.append_assoc,
        String.toList_append]
      rfl
  have name := (splits_opening line .methodWord "method " rfl).andThen
    (splits_name line method.name)
  have params := name.append (Param.splits_listSource method.params).weaken fun _ => endsName
  have result := params.append (TypeRef.splits_resultSource method.result) fun _ => endsResult
  have header := result.append (splits_closing line .isWord " is" rfl) fun _ _ => rfl
  have splits := (header.indented 1).andThen (splits_closedSource 1 method.body)
  rw [← String.append_assoc] at splits
  exact splits.of_eq (by simp [Method.words]) (by omega)

/-- The source text of a member gives its words. -/
theorem Member.splits_source (member : Member) :
    Splits Anything line member.source (member.words line) (line + member.height) := by
  cases member with
  | field decl => exact (splits_binding decl.name decl.init).indented 1
  | method decl => exact decl.splits_source

/-- The source text of members gives their words. -/
theorem Member.splits_listSource (members : List Member) :
    Splits Anything line (String.join (members.map Member.source)) (Member.listWords line members)
      (line + Member.listHeight members) := by
  induction members generalizing line with
  | nil => exact splits_nil
  | cons member others ih =>
    rw [map_cons, String.join_cons]
    refine (member.splits_source.andThen ih).of_eq rfl ?_
    simp [Member.listHeight, Nat.add_assoc]

namespace ClassDecl

/-- The base of a class, if it has one. -/
def baseSource : Option String → String
  | some base => " extends " ++ base
  | none => ""

/-- The source text of the base of a class gives its words. -/
theorem splits_baseSource (base : Option String) :
    Splits EndsWord line (baseSource base) (baseWords line base) line := by
  cases base with
  | none => exact splits_nil
  | some base =>
    have word : Splits Anything line " extends " [keyword line .extendsWord] line :=
      ((splits_blank line).andThen (splits_opening line .extendsWord "extends " rfl)).of_toList rfl
    exact word.andThen (splits_name line base)

/-- The statements run when an object is made, if there are any. -/
def initSource (init : List Stmt) : String :=
  if init.isEmpty then ""
  else indented 1 "this is" ++ blockSource 2 init ++ indented 1 "end"

/-- The source text of the statements run when an object is made gives their words. -/
theorem splits_initSource (init : List Stmt) :
    Splits Anything line (initSource init) (initWords line init) (line + initHeight init) := by
  cases init with
  | nil => exact splits_nil
  | cons stmt others =>
    have head : Splits EndsWord line "this is"
        [keyword line .thisWord, keyword line .isWord] line :=
      ((splits_keyword line .thisWord).append (splits_closing line .isWord " is" rfl)
        fun _ _ => rfl).of_toList rfl
    have splits := (head.indented 1).andThen (splits_closedSource 1 (stmt :: others))
    rw [← String.append_assoc] at splits
    refine splits.of_eq rfl ?_
    rw [initHeight, isEmpty_cons, if_neg Bool.false_ne_true]
    omega

/-- The source text of a class gives its words. -/
theorem splits_source (decl : ClassDecl) :
    Splits Anything line decl.source (decl.words line) (line + decl.height) := by
  have endsName {rest : List Char} (ends : EndsWord rest) :
      EndsWord ((baseSource decl.base).toList ++ rest) := by
    cases decl.base with
    | none => exact ends
    | some base =>
      rw [baseSource, String.toList_append]
      rfl
  have name := (splits_opening line .classWord "class " rfl).andThen (splits_name line decl.name)
  have header := (name.append (splits_baseSource decl.base) fun _ => endsName).append
    (splits_closing line .isWord " is" rfl) fun _ _ => rfl
  have splits := (((header.indented 0).andThen (splits_initSource decl.init)).andThen
    (Member.splits_listSource decl.members)).andThen (splits_endLine 0)
  refine splits.of_eq ?_ ?_
  · simp [words]
  · rw [height]
    omega

end ClassDecl

end Declarations

/-- The source text of classes with empty lines between them gives their words and the end of the
text. -/
theorem ClassDecl.words_listSource (line : Nat) (classes : List ClassDecl)
    (lexical : ∀ word ∈ listWords line classes, word.Lexical) :
    ∃ last, Scanner.words line ("\n".intercalate (classes.map source)).toList =
      listWords line classes ++ [⟨.endOfFile, "", last⟩] := by
  induction classes generalizing line with
  | nil => exact ⟨line, words_nil line⟩
  | cons decl others ih =>
    rw [listWords, forall_mem_append] at lexical
    cases others with
    | nil =>
      refine ⟨line + decl.height, ?_⟩
      have scanned := decl.splits_source lexical.1 [] trivial
      rw [append_nil, words_nil] at scanned
      rw [map_singleton, String.intercalate_singleton, scanned, listWords,
        listWords, append_nil]
    | cons second others =>
      obtain ⟨last, scanned⟩ := ih (line + decl.height + 1) lexical.2
      refine ⟨last, ?_⟩
      have text : ("\n".intercalate ((decl :: second :: others).map source)).toList =
          decl.source.toList ++ '\n' ::
            ("\n".intercalate ((second :: others).map source)).toList := by
        rw [map_cons, map_cons, String.intercalate_cons_cons, String.toList_append,
          String.toList_append, append_assoc]
        rfl
      rw [text, decl.splits_source lexical.1 _ trivial, words_newline, scanned,
        ← append_assoc]
      rfl

/-- The tokens of the source text of a program are its words and the end of the text. -/
theorem Program.map_word_scan_source {program : Program}
    (lexical : ∀ word ∈ ClassDecl.listWords 1 program.classes, word.Lexical) :
    ∃ last, (Token.scan program.source).map Token.word =
      ClassDecl.listWords 1 program.classes ++ [⟨.endOfFile, "", last⟩] := by
  obtain ⟨last, scanned⟩ := ClassDecl.words_listSource 1 program.classes lexical
  exact ⟨last, scanned⟩

end ClassLang
