import ClassLang.Proofs.Printing.Block
import ClassLang.Proofs.Printing.Spelling
import ClassLang.Syntax.Equality

/-! # Reading programs back

The levels that the source text of a program enters are counted on the program. Where there is room
for them, the words of parameters, methods, fields, classes and programs are read as what they are the
words of, up to positions. Since the source text of a program that was read has just these words,
reading it gives the program again, or finds it nested too deeply: the parentheses around every
operator nest more deeply than the text that was read may have done. -/

namespace ClassLang

open Reading Grammar Word TypeRef Reads

/-! ## Counting levels -/

/-- How many levels the words of a method enter. -/
def Method.nesting (method : Method) : Nat :=
  max (listNesting (method.params.map Param.type))
    (max (listNesting method.result.toList) (Stmt.blockNesting method.body))

/-- How many levels the words of a member enter. -/
def Member.nesting : Member → Nat
  | .field decl => decl.init.nesting
  | .method decl => decl.nesting

/-- How many levels the words of members enter at most. -/
def Member.listNesting (members : List Member) : Nat := (members.map Member.nesting).foldr max 0

/-- How many levels the words of a class enter. -/
def ClassDecl.nesting (decl : ClassDecl) : Nat :=
  max (Stmt.blockNesting decl.init) (Member.listNesting decl.members)

/-- How many levels the words of classes enter at most. -/
def ClassDecl.listNesting (classes : List ClassDecl) : Nat :=
  (classes.map ClassDecl.nesting).foldr max 0

/-- How many levels the source text of a program enters. -/
def Program.nesting (program : Program) : Nat := ClassDecl.listNesting program.classes

section Declarations

variable (levels line : Nat) {rest : List Word}

/-! ## Methods -/

namespace Param

/-- A parameter is read. -/
theorem reads_words (param : Param) (stop : Starts (·.kind ≠ .symbol .leftBracket) rest) :
    Reads (ofLevels levels).param (param.words line) rest levels param.type.nesting
      (·.erase = param.erase) := by
  refine bind_word (reads_name line param.name) ?_
  rintro ⟨found, position⟩ sameName
  refine bind_word (reads_symbol line .colon) fun _ _ => ?_
  refine (param.type.reads_words line levels stop).bind_pure fun type sameType => ?_
  rw [erase, erase, sameType]
  exact congrArg (mk · _ _) sameName

/-- The parameters of a method are read, if there are any. -/
theorem reads_listWords (params : List Param) (stop : Starts (·.kind ≠ .symbol .leftParen) rest) :
    Reads (optional (.symbol .leftParen) (ofLevels levels).params) (listWords line params) rest
      levels (listNesting (params.map type)) fun found =>
        (found.getD []).map erase = params.map erase := by
  cases params with
  | nil =>
    obtain ⟨word, tail, rfl, other⟩ := stop
    refine (reads_optional_other other).mono ?_
    rintro _ rfl
    rfl
  | cons first others =>
    have inside : Reads (ofLevels levels).params _ rest levels _ _ :=
      reads_listed line .rightParen (by simp) (by rintro ⟨⟩) (by rintro ⟨⟩)
        (fun (param : Param) (_ : param ∈ first :: others) _ stop =>
          param.reads_words levels line stop) (starts_cons (by rintro ⟨⟩))
    rw [listWords, listNesting_eq, List.map_map]
    refine mono (reads_optional rfl (by rintro ⟨⟩) inside) ?_
    rintro _ ⟨found, rfl, sames⟩
    exact sames

end Param

/-- The result type of a method is read, if there is one. -/
theorem TypeRef.reads_resultWords (result : Option TypeRef)
    (stop : Starts (fun word => word.kind ≠ .symbol .colon ∧ word.kind ≠ .symbol .leftBracket)
      rest) :
    Reads (optional (.symbol .colon) (ofLevels levels).type) (resultWords line result) rest
      levels (listNesting result.toList) (·.map erase = result.map erase) := by
  cases result with
  | none =>
    obtain ⟨word, tail, rfl, other, -⟩ := stop
    refine (reads_optional_other other).mono ?_
    rintro _ rfl
    rfl
  | some type =>
    have ends := stop.mono fun _ ends => ends.2
    rw [Option.toList_some, listNesting, listNesting, Nat.max_zero]
    refine mono (reads_optional rfl nofun (type.reads_words line levels ends)) ?_
    rintro _ ⟨found, rfl, same⟩
    exact congrArg some same

/-- Behind the parameters of a method stands its result type or its body. -/
theorem Method.starts_behindParams (method : Method) :
    Starts (·.kind ≠ .symbol .leftParen)
      (resultWords line method.result ++
        keyword line .isWord :: Stmt.closedWords (line + 1) method.body ++ rest) := by
  cases method.result with
  | none => exact starts_cons nofun
  | some type => exact starts_cons nofun

/-- A method is read. -/
theorem Method.reads_words (method : Method) :
    Reads (ofLevels levels).method (method.words line) rest levels method.nesting
      (·.erase = method.erase) := by
  have starts : Starts
      (fun word => word.kind ≠ .symbol .colon ∧ word.kind ≠ .symbol .leftBracket)
      (keyword line .isWord :: Stmt.closedWords (line + 1) method.body ++ rest) :=
    starts_cons ⟨nofun, nofun⟩
  refine bind_word (reads_keyword line .methodWord) fun token _ => ?_
  refine bind_word (reads_name line method.name) ?_
  rintro ⟨found, _⟩ sameName
  refine bind (Param.reads_listWords levels line method.params
    (method.starts_behindParams line)) fun params same => ?_
  refine bind (reads_resultWords levels line method.result starts) fun result same' => ?_
  refine bind_word (reads_keyword line .isWord) fun _ _ => ?_
  refine (Stmt.reads_blockWords (line + 1) method.body).statements.bind_free fun body sames => ?_
  refine (reads_keyword _ .endWord).bind_pure fun _ _ => ?_
  rw [Method.erase, Method.erase, same, same', sames]
  exact congrArg (Method.mk · _ _ _ _) sameName

/-! ## Members -/

/-- A member starts a line, with a word other than `end` and `this`. -/
theorem Member.starts_words (member : Member) :
    Starts (fun word => word.kind = .keyword .varWord ∨ word.kind = .keyword .methodWord)
      (member.words line) := by
  cases member with
  | field decl => exact starts_cons (.inl rfl)
  | method decl => exact starts_cons (.inr rfl)

/-- A member is read. -/
theorem Member.reads_words (member : Member) (stop : Starts (StartsLine (line + 1)) rest) :
    Reads (ofLevels levels).member (member.words line) rest levels member.nesting
      (·.erase = member.erase) := by
  have semicolon : Starts (·.kind ≠ .symbol .semicolon) rest :=
    stop.mono fun _ starts => starts.kind_ne rfl
  cases member with
  | field decl =>
    refine bind_nothing (reads_peek (by rintro ⟨⟩)) fun token found => ?_
    have kind : token.kind = .keyword .varWord := congrArg kind found
    rw [kind]
    have ends := stop.mono fun _ starts => starts.endsExpr
    refine ((reads_binding decl.name decl.init ends).map fun field same => ?_).bind_last
      fun field same => reads_skipIf semicolon same
    change Member.field field.erase = Member.field decl.erase
    rw [Field.erase, Field.erase, same.1, same.2]
  | method decl =>
    refine bind_nothing (reads_peek (by rintro ⟨⟩)) fun token found => ?_
    have kind : token.kind = .keyword .methodWord := congrArg kind found
    rw [kind]
    refine ((decl.reads_words levels line).map fun method same => ?_).bind_last
      fun method same => reads_skipIf semicolon same
    exact congrArg Member.method same

/-- A member does not start with the word that ends the class. -/
theorem Member.starts_inside (member : Member) :
    Starts (fun word => decide (word.kind = .keyword .endWord) = false)
      (member.words line) := by
  refine (member.starts_words line).mono fun word starts => decide_eq_false fun closing => ?_
  rw [closing] at starts
  rcases starts with other | other <;> cases other

/-- Whether a member or the end of the class comes first, it is a reserved word other than `this`. -/
theorem Member.starts_listWords (members : List Member)
    (stop : Starts (·.kind = .keyword .endWord) rest) :
    Starts (fun word => ∃ keyword, keyword ≠ .thisWord ∧ word.kind = .keyword keyword)
      (Member.listWords line members ++ rest) := by
  cases members with
  | nil => exact stop.mono fun _ reserved => ⟨.endWord, nofun, reserved⟩
  | cons member others =>
    refine (((member.starts_words _).mono fun word starts => ?_).append _).append _
    rcases starts with reserved | reserved
    · exact ⟨.varWord, nofun, reserved⟩
    · exact ⟨.methodWord, nofun, reserved⟩

/-- The members of a class are read. -/
theorem Member.reads_listWords (members : List Member)
    (stop : Starts (·.kind = .keyword .endWord) rest) :
    ReadsWithin (· = .keyword .endWord) (ofLevels levels).member (Member.listWords line members) rest
      levels (Member.listNesting members) (·.map Member.erase = members.map Member.erase) := by
  induction members generalizing line with
  | nil =>
    obtain ⟨word, tail, rfl, closing⟩ := stop
    exact readsWithin_nil (decide_eq_true closing) rfl
  | cons member others ih =>
    have next : Starts (StartsLine (line + 1))
        (Member.listWords (line + member.height) others ++ rest) :=
      (Member.starts_listWords _ others stop).mono fun _ ⟨_, _, reserved⟩ => .of_keyword reserved
    rw [Member.listWords]
    refine ReadsWithin.cons (member.starts_inside line) (member.reads_words levels line next)
      (ih (line + member.height)) fun value values same sames => ?_
    rw [List.map_cons, List.map_cons, same, sames]

/-! ## Classes -/

namespace ClassDecl

/-- The base of a class is read, if there is one. -/
theorem reads_baseWords (base : Option String) (stop : Starts (·.kind ≠ .keyword .extendsWord) rest) :
    Reads (Reading.optional (.keyword .extendsWord) (return (← Grammar.name).1))
      (baseWords line base) rest levels 0 (· = base) := by
  cases base with
  | none =>
    obtain ⟨word, tail, rfl, other⟩ := stop
    exact reads_optional_other other
  | some base =>
    have following : Reads (do return (← Grammar.name).1) [Word.name line base] rest levels 0
        (· = base) :=
      (reads_name line base).bind_pure fun _ same => same
    refine mono (reads_optional rfl nofun following) ?_
    rintro _ ⟨found, rfl, rfl⟩
    rfl

/-- The statements run when an object is made are read, if there are any. -/
theorem reads_initWords (init : List Stmt) (stop : Starts
      (fun word => word.kind ≠ .keyword .thisWord ∧ word.kind ≠ .symbol .semicolon) rest) :
    Reads (optional (.keyword .thisWord) (ofLevels levels).initBlock) (initWords line init)
      rest levels (Stmt.blockNesting init) fun found =>
        Stmt.eraseBlock (found.getD []) = Stmt.eraseBlock init := by
  cases init with
  | nil =>
    obtain ⟨word, tail, rfl, other, -⟩ := stop
    refine (reads_optional_other other).mono ?_
    rintro _ rfl
    rfl
  | cons stmt others =>
    have following : Reads (ofLevels levels).initBlock
        (keyword line .isWord :: Stmt.closedWords (line + 1) (stmt :: others)) rest levels
        (Stmt.blockNesting (stmt :: others)) (Stmt.eraseBlock · = Stmt.eraseBlock (stmt :: others)) := by
      refine bind_word (reads_keyword line .isWord) fun _ _ => ?_
      refine (Stmt.reads_blockWords (line + 1) (stmt :: others)).statements.bind_free
        fun body sames => ?_
      exact (reads_keyword _ .endWord).bind_last fun _ _ =>
        reads_skipIf (stop.mono fun _ ends => ends.2) sames
    refine mono (reads_optional rfl nofun following) ?_
    rintro _ ⟨found, rfl, sames⟩
    exact sames

/-- Behind the statements run when an object is made stands a member or the word `end`. -/
theorem starts_behindInit (members : List Member) (last : Nat) :
    Starts (fun word => word.kind ≠ .keyword .thisWord ∧ word.kind ≠ .symbol .semicolon)
      (Member.listWords line members ++ [keyword last .endWord] ++ rest) := by
  rw [List.append_assoc]
  refine (Member.starts_listWords line members (starts_cons rfl)).mono ?_
  rintro word ⟨keyword, other, reserved⟩
  rw [reserved]
  exact ⟨fun same => other (Kind.keyword.inj same), nofun⟩

/-- A class is read. -/
theorem reads_words (decl : ClassDecl) (stop : Starts (·.kind ≠ .symbol .semicolon) rest) :
    Reads (ofLevels levels).classDecl (decl.words line) rest levels decl.nesting
      (·.erase = decl.erase) := by
  rw [words]
  refine bind_word (reads_keyword line .classWord) fun token _ => ?_
  refine bind_word (reads_name line decl.name) ?_
  rintro ⟨found, _⟩ sameName
  refine bind_words (reads_baseWords levels line decl.base (starts_cons (by rintro ⟨⟩))) ?_
  rintro _ rfl
  refine bind_word (reads_keyword line .isWord) fun _ _ => ?_
  refine bind (reads_initWords levels (line + 1) decl.init
    (starts_behindInit _ decl.members _)) fun init sameInit => ?_
  refine (Member.reads_listWords levels _ decl.members (starts_cons rfl)).manyUntil.bind_free
    fun members sameMembers => ?_
  refine (reads_keyword _ .endWord).bind_last fun _ _ => reads_skipIf stop ?_
  rw [erase, erase, sameInit, sameMembers]
  exact congrArg (mk · _ _ _ _) sameName

/-- No semicolon follows a class. -/
theorem starts_listWords (classes : List ClassDecl) (stop : Starts (·.kind = .endOfFile) rest) :
    Starts (·.kind ≠ .symbol .semicolon) (listWords line classes ++ rest) := by
  cases classes with
  | nil => exact stop.mono fun word closing => by rw [closing]; nofun
  | cons decl others => exact starts_cons nofun

/-- The classes of a program are read. -/
theorem reads_listWords (classes : List ClassDecl) (stop : Starts (·.kind = .endOfFile) rest) :
    ReadsWithin (· = .endOfFile) (ofLevels levels).classDecl (listWords line classes) rest
      levels (listNesting classes) (·.map erase = classes.map erase) := by
  induction classes generalizing line with
  | nil =>
    obtain ⟨word, tail, rfl, closing⟩ := stop
    exact readsWithin_nil (decide_eq_true closing) rfl
  | cons decl others ih =>
    have next := starts_listWords (line + decl.height + 1) others stop
    refine ReadsWithin.cons (starts_cons rfl) (decl.reads_words levels line next)
      (ih (line + decl.height + 1)) fun value values same sames => ?_
    rw [List.map_cons, List.map_cons, same, sames]

end ClassDecl

/-- A program is read. -/
theorem Program.reads_words (program : Program) (last : Nat) :
    Reads (ofLevels levels).program
      (ClassDecl.listWords line program.classes ++ [⟨.endOfFile, "", last⟩]) [] levels
      program.nesting (·.erase = program.erase) := by
  refine bind_free
    (ClassDecl.reads_listWords levels line program.classes (starts_cons rfl)).manyUntil
    fun classes sames => ?_
  refine (reads_literal last .endOfFile "" nofun).bind_pure fun _ _ => ?_
  rw [Program.erase, Program.erase, sames]

end Declarations

/-! ## Programs -/

namespace Program

/-- Tokens that differ from the words of a program in their columns only spell the program if there is
room for its levels, and are nested too deeply if there is not. -/
theorem ofTokens_of_words {tokens : List Token} {program : Program} {last : Nat}
    (words : tokens.map Token.word =
      ClassDecl.listWords 1 program.classes ++ [⟨.endOfFile, "", last⟩]) :
    (program.nesting ≤ maxDepth ∧
        ∃ again, ofTokens tokens = .ok again ∧ again.erase = program.erase) ∨
      maxDepth < program.nesting ∧ ∃ position, ofTokens tokens = .error ⟨.tooDeep, position⟩ := by
  have covers : Covers (maxDepth + 1) 0 := ⟨Nat.zero_le _, by omega⟩
  have reads := program.reads_words (maxDepth + 1) 1 last (Reader.ofTokens tokens)
    (words.trans (List.append_nil _).symm) covers
  have depth : (Reader.ofTokens tokens).depth = 0 := rfl
  unfold Gives at reads
  rw [depth, Nat.zero_add] at reads
  unfold ofTokens outermost
  cases run : ((ofLevels (maxDepth + 1)).program : Reading _) (Reader.ofTokens tokens) with
  | ok again after =>
    rw [run] at reads
    exact .inl ⟨reads.1, again, rfl, reads.2.1⟩
  | error fault after =>
    obtain ⟨cause, position⟩ := fault
    rw [run] at reads
    obtain ⟨rfl, beyond⟩ := reads
    exact .inr ⟨beyond, position, rfl⟩

/-- The source text of a program made of proper words is read as the program if there is room for its
levels, and is nested too deeply if there is not. -/
theorem ofText_source_of_lexical {program : Program}
    (lexical : ∀ word ∈ ClassDecl.listWords 1 program.classes, word.Lexical) :
    (program.nesting ≤ maxDepth ∧
        ∃ again, ofText program.source = .ok again ∧ again.erase = program.erase) ∨
      maxDepth < program.nesting ∧
        ∃ position, ofText program.source = .error ⟨.tooDeep, position⟩ := by
  obtain ⟨last, words⟩ := map_word_scan_source lexical
  exact ofTokens_of_words words

/-- The source text of a program that was read is read as the same program up to positions, whose
source text is the same again, unless it is nested too deeply. -/
theorem ofText_source {text : String} {program : Program}
    (read : ofText text = .ok program) :
    (∃ again, ofText program.source = .ok again ∧ again.erase = program.erase ∧
        again.source = program.source) ∨
      ∃ position, ofText program.source = .error ⟨.tooDeep, position⟩ := by
  rcases ofText_source_of_lexical (lexical_of_ofText read) with
    ⟨-, again, run, same⟩ | ⟨-, deep⟩
  · exact .inl ⟨again, run, same, source_eq_of_erase same⟩
  · exact .inr deep

/-- A class with a field whose initial value is a sum, given where the field and the numbers stand. -/
def sumField (field first second : Position) : Program :=
  ⟨[⟨"A", none, [], [.field ⟨"x", .binary .add (.int "1" first) (.int "2" second) first, field⟩],
    ⟨1, 1⟩⟩]⟩

end Program

set_option maxRecDepth 1000 in
/-- The sum is printed in parentheses on a line of its own, and is read again. -/
theorem Program.ofText_source_sumField :
    Program.ofText "class A is var x : 1 + 2 end" = .ok (sumField ⟨1, 12⟩ ⟨1, 20⟩ ⟨1, 24⟩) ∧
      ∃ again, Program.ofText (sumField ⟨1, 12⟩ ⟨1, 20⟩ ⟨1, 24⟩).source = .ok again ∧
        again.erase = (sumField ⟨1, 12⟩ ⟨1, 20⟩ ⟨1, 24⟩).erase ∧
        again.source = "class A is\n    var x : (1 + 2)\nend\n" := by
  have printed : (sumField ⟨1, 12⟩ ⟨1, 20⟩ ⟨1, 24⟩).source =
      "class A is\n    var x : (1 + 2)\nend\n" := rfl
  have read : Program.ofText "class A is var x : 1 + 2 end" =
      .ok (sumField ⟨1, 12⟩ ⟨1, 20⟩ ⟨1, 24⟩) := by decide +kernel
  have shallow : Program.ofText "class A is\n    var x : (1 + 2)\nend\n" =
      .ok (sumField ⟨2, 5⟩ ⟨2, 14⟩ ⟨2, 18⟩) := by decide +kernel
  refine ⟨read, ?_⟩
  rcases Program.ofText_source read with again | ⟨position, deep⟩
  · rwa [printed] at again ⊢
  · rw [printed, shallow] at deep
    cases deep

end ClassLang
