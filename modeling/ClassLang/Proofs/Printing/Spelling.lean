import ClassLang.Proofs.Grammar.Consumption
import ClassLang.Proofs.Printing.Lexical

/-! # Names and numbers of programs that were read

The grammar takes names and numbers from tokens alone (`Derives.offers`). So whatever is read from a
text has only names and numbers that the scanner finds. -/

namespace ClassLang

open Stmt List

/-! ## Names and numbers

The words of a tree whose texts are not fixed by their kinds, in the order in which they are printed. -/

/-- The kind and the text of a word that is a name or a number. -/
def Word.spelling? (word : Word) : Option (Kind × String) :=
  match word.kind with
  | .identifier | .integer | .real => some (word.kind, word.text)
  | _ => none

/-- The names and numbers among words. -/
def Word.spellings (words : List Word) : List (Kind × String) := words.filterMap Word.spelling?

section Spellings

variable (line : Nat) (words : List Word)

@[simp] theorem Word.spellings_nil : Word.spellings [] = [] := rfl

@[simp] theorem Word.spellings_append (words' : List Word) :
    Word.spellings (words ++ words') = Word.spellings words ++ Word.spellings words' :=
  filterMap_append

@[simp] theorem Word.spellings_symbol (sign : Symbol) :
    Word.spellings (Word.symbol line sign :: words) = Word.spellings words := rfl

@[simp] theorem Word.spellings_keyword (keyword : Keyword) :
    Word.spellings (Word.keyword line keyword :: words) = Word.spellings words := rfl

@[simp] theorem Word.spellings_name (text : String) :
    Word.spellings (Word.name line text :: words) = (.identifier, text) :: Word.spellings words := rfl

end Spellings

mutual

/-- The names in a type. -/
def TypeRef.spellings : TypeRef → List (Kind × String)
  | ⟨name, arguments, _⟩ => (.identifier, name) :: listSpellings arguments

/-- The names in types. -/
def TypeRef.listSpellings : List TypeRef → List (Kind × String)
  | [] => []
  | type :: rest => type.spellings ++ listSpellings rest

end

mutual

/-- The names and numbers in an expression. -/
def Expr.spellings : Expr → List (Kind × String)
  | .ident name arguments _ => (.identifier, name) :: TypeRef.listSpellings arguments
  | .int text _ => [(.integer, text)]
  | .real text _ => [(.real, text)]
  | .self _ | .bool _ _ => []
  | .binary _ left right _ => left.spellings ++ right.spellings
  | .member target name _ => target.spellings ++ [(.identifier, name)]
  | .call callee arguments _ => callee.spellings ++ listSpellings arguments

/-- The names and numbers in expressions. -/
def Expr.listSpellings : List Expr → List (Kind × String)
  | [] => []
  | expr :: rest => expr.spellings ++ listSpellings rest

end

namespace Stmt

mutual

/-- The names and numbers in a statement. -/
def spellings : Stmt → List (Kind × String)
  | .declare name init _ => (.identifier, name) :: init.spellings
  | .assign target value _ => target.spellings ++ value.spellings
  | .branch test body none _ => test.spellings ++ blockSpellings body
  | .branch test body (some alternative) _ =>
    test.spellings ++ (blockSpellings body ++ blockSpellings alternative)
  | .loop test body _ => test.spellings ++ blockSpellings body
  | .ret value _ | .eval value _ => value.spellings
  | .leave _ => []

/-- The names and numbers in statements. -/
def blockSpellings : List Stmt → List (Kind × String)
  | [] => []
  | stmt :: rest => stmt.spellings ++ blockSpellings rest

end

/-- The names and numbers in a branch, with or without an alternative. -/
theorem spellings_branch (test : Expr) (body : List Stmt) (alternative : Option (List Stmt))
    (position : Position) : (branch test body alternative position).spellings =
      test.spellings ++ (blockSpellings body ++ alternative.toList.flatMap blockSpellings) := by
  cases alternative <;> simp [spellings]

end Stmt

/-- The names in a parameter. -/
def Param.spellings (param : Param) : List (Kind × String) :=
  (.identifier, param.name) :: param.type.spellings

/-- The names and numbers in a method. -/
def Method.spellings (method : Method) : List (Kind × String) :=
  (.identifier, method.name) :: (method.params.flatMap Param.spellings ++
    (method.result.toList.flatMap TypeRef.spellings ++ blockSpellings method.body))

/-- The names and numbers in a member. -/
def Member.spellings : Member → List (Kind × String)
  | .field decl => (.identifier, decl.name) :: decl.init.spellings
  | .method decl => decl.spellings

/-- The names and numbers in a class. -/
def ClassDecl.spellings (decl : ClassDecl) : List (Kind × String) :=
  (.identifier, decl.name) :: (decl.base.toList.map (Prod.mk Kind.identifier) ++
    (blockSpellings decl.init ++ decl.members.flatMap Member.spellings))

/-- The names and numbers in a member are among those of its class. -/
theorem ClassDecl.spellings_member_subset {decl : ClassDecl} {member : Member}
    (owned : member ∈ decl.members) : member.spellings ⊆ decl.spellings := by
  intro spelling inside
  refine mem_cons_of_mem _ (mem_append_right _ (mem_append_right _ ?_))
  exact mem_flatMap.mpr ⟨member, owned, inside⟩

/-- The names and numbers in a program. -/
def Program.spellings (program : Program) : List (Kind × String) :=
  program.classes.flatMap ClassDecl.spellings

/-! ## Names and numbers among the words -/

section Words

variable (line : Nat)

mutual

theorem TypeRef.spellings_words (type : TypeRef) :
    Word.spellings (type.words line) = type.spellings := by
  obtain ⟨name, arguments, position⟩ := type
  simp [words, spellings, spellings_argumentsWords arguments]

theorem TypeRef.spellings_argumentsWords (arguments : List TypeRef) :
    Word.spellings (argumentsWords line arguments) = listSpellings arguments := by
  cases arguments with
  | nil => rfl
  | cons first others =>
    simp [argumentsWords, listSpellings, first.spellings_words,
      spellings_furtherWords others]

theorem TypeRef.spellings_furtherWords (types : List TypeRef) :
    Word.spellings (furtherWords line types) = listSpellings types := by
  cases types with
  | nil => rfl
  | cons type others =>
    simp [furtherWords, listSpellings, type.spellings_words,
      spellings_furtherWords others]

end

mutual

/-- The names and numbers in an expression are among its words. -/
theorem Expr.spellings_words (expr : Expr) :
    Word.spellings (expr.words line) = expr.spellings := by
  cases expr with
  | ident name arguments =>
    simp [words, spellings, TypeRef.spellings_argumentsWords]
  | binary op left right =>
    simp [words, spellings, left.spellings_words, right.spellings_words]
  | member target name => simp [words, spellings, target.spellings_words]
  | call callee arguments =>
    simp [words, spellings, callee.spellings_words,
      spellings_argumentsWords arguments]
  | _ => rfl

theorem Expr.spellings_argumentsWords (arguments : List Expr) :
    Word.spellings (argumentsWords line arguments) = listSpellings arguments := by
  cases arguments with
  | nil => rfl
  | cons first others =>
    simp [argumentsWords, listSpellings, first.spellings_words,
      spellings_furtherWords others]

theorem Expr.spellings_furtherWords (exprs : List Expr) :
    Word.spellings (furtherWords line exprs) = listSpellings exprs := by
  cases exprs with
  | nil => rfl
  | cons expr others =>
    simp [furtherWords, listSpellings, expr.spellings_words,
      spellings_furtherWords others]

end

mutual

/-- The names and numbers in a statement are among its words. -/
theorem Stmt.spellings_words (line : Nat) (stmt : Stmt) :
    Word.spellings (stmt.words line) = stmt.spellings := by
  cases stmt with
  | branch test body alternative =>
    cases alternative with
    | none =>
      simp [words, spellings, test.spellings_words, spellings_blockWords (line + 1) body]
    | some alternative =>
      simp [words, spellings, test.spellings_words,
        spellings_blockWords (line + 1) body,
        spellings_blockWords (line + 1 + blockHeight body + 1) alternative]
  | loop test body =>
    simp [words, spellings, test.spellings_words, spellings_blockWords (line + 1) body]
  | _ => simp [words, spellings, Expr.spellings_words]

theorem Stmt.spellings_blockWords (line : Nat) (block : List Stmt) :
    Word.spellings (blockWords line block) = blockSpellings block := by
  cases block with
  | nil => rfl
  | cons stmt others =>
    simp [blockWords, blockSpellings, stmt.spellings_words line,
      spellings_blockWords (line + stmt.height) others]

end

namespace Param

theorem spellings_words (param : Param) :
    Word.spellings (param.words line) = param.spellings := by
  simp [words, spellings, TypeRef.spellings_words]

/-- The names in parameters are among their words. -/
theorem spellings_listWords (params : List Param) :
    Word.spellings (listWords line params) = params.flatMap spellings := by
  have further (params : List Param) :
      Word.spellings (params.flatMap fun param => Word.symbol line .comma :: param.words line) =
        params.flatMap spellings := by
    induction params with
    | nil => rfl
    | cons param others ih => simp [spellings_words, ih]
  cases params with
  | nil => rfl
  | cons first others =>
    simp [listWords, spellings_words, further]

end Param

/-- The names and numbers in a method are among its words. -/
theorem Method.spellings_words (method : Method) :
    Word.spellings (method.words line) = method.spellings := by
  have result : Word.spellings (TypeRef.resultWords line method.result) =
      method.result.toList.flatMap TypeRef.spellings := by
    cases method.result with
    | none => rfl
    | some type => simp [TypeRef.resultWords, TypeRef.spellings_words]
  simp [Method.words, Method.spellings, Param.spellings_listWords, result, closedWords,
    spellings_blockWords]

/-- The names and numbers in a member are among its words. -/
theorem Member.spellings_words (member : Member) :
    Word.spellings (member.words line) = member.spellings := by
  cases member with
  | field decl =>
    simp [Member.words, Field.words, Member.spellings, Expr.spellings_words]
  | method decl => exact decl.spellings_words line

theorem Member.spellings_listWords (members : List Member) :
    Word.spellings (Member.listWords line members) = members.flatMap Member.spellings := by
  induction members generalizing line with
  | nil => rfl
  | cons member others ih => simp [Member.listWords, Member.spellings_words, ih]

namespace ClassDecl

/-- The names and numbers in a class are among its words. -/
theorem spellings_words (decl : ClassDecl) :
    Word.spellings (decl.words line) = decl.spellings := by
  have base : Word.spellings (baseWords line decl.base) =
      decl.base.toList.map (Prod.mk Kind.identifier) := by
    cases decl.base <;> rfl
  have init : Word.spellings (initWords (line + 1) decl.init) =
      blockSpellings decl.init := by
    cases decl.init with
    | nil => rfl
    | cons stmt others => simp [initWords, closedWords, spellings_blockWords]
  simp [words, spellings, base, init, Member.spellings_listWords]

theorem spellings_listWords (classes : List ClassDecl) :
    Word.spellings (listWords line classes) = classes.flatMap spellings := by
  induction classes generalizing line with
  | nil => rfl
  | cons decl others ih => simp [listWords, spellings_words, ih]

end ClassDecl

end Words

/-! ## Names and numbers that the scanner finds -/

/-- Whether a name or a number is one that the scanner finds. -/
def Word.IsFound : Kind × String → Prop
  | (.identifier, text) => Lexeme.IsWord text ∧ Lexeme.wordKind text = .identifier
  | (.integer, text) => Lexeme.IsNumber .integer text
  | (.real, text) => Lexeme.IsNumber .real text
  | _ => False

/-- The scanner finds words if it finds the names and numbers among them. -/
theorem Word.lexical_iff_isFound (words : List Word) :
    (∀ word ∈ words, word.Lexical) ↔ ∀ spelling ∈ Word.spellings words, Word.IsFound spelling := by
  have single (word : Word) : word.Lexical ↔ ∀ spelling ∈ word.spelling?, Word.IsFound spelling := by
    obtain ⟨kind, text, line⟩ := word
    cases kind <;> simp [Word.spelling?, Word.IsFound, Word.Lexical]
  unfold Word.spellings
  simp only [mem_filterMap, forall_exists_index, and_imp]
  exact ⟨fun each spelling word found named => (single word).mp (each word found) spelling named,
    fun each word found => (single word).mpr fun spelling named => each spelling word found named⟩

/-- The scanner finds the words of a program if it finds its names and numbers. -/
theorem Program.lexical_iff_isFound (program : Program) :
    (∀ word ∈ ClassDecl.listWords 1 program.classes, word.Lexical) ↔
      ∀ spelling ∈ program.spellings, Word.IsFound spelling := by
  rw [Word.lexical_iff_isFound, ClassDecl.spellings_listWords]
  rfl

/-- A name or a number in a token that the scanner finds is found. -/
theorem Word.isFound_of_lexical {word : Word} (lexical : word.Lexical) {spelling : Kind × String}
    (named : spelling ∈ word.spelling?) : Word.IsFound spelling := by
  refine (Word.lexical_iff_isFound [word]).mp (forall_mem_singleton.mpr lexical) spelling ?_
  exact mem_filterMap.mpr ⟨word, mem_singleton_self _, named⟩

/-! ## Names and numbers of phrases -/

/-- The names and numbers in a phrase. -/
def Phrase.spellings : Phrase → List (Kind × String)
  | .type ref => ref.spellings
  | .typeArguments refs | .furtherTypes refs => TypeRef.listSpellings refs
  | .operand _ expr | .binary _ expr | .chain _ _ expr | .postfixed expr | .suffixes _ expr
  | .primary expr => expr.spellings
  | .callArguments exprs | .furtherExprs exprs => Expr.listSpellings exprs
  | .binding decl => (Member.field decl).spellings
  | .statement stmt | .statementBody stmt => stmt.spellings
  | .statements stmts | .initBlock stmts => blockSpellings stmts
  | .alternative stmts => stmts.toList.flatMap blockSpellings
  | .semicolon => []
  | .param decl => decl.spellings
  | .furtherParams decls | .params decls => decls.flatMap Param.spellings
  | .result ref => ref.toList.flatMap TypeRef.spellings
  | .method decl => decl.spellings
  | .member decl => decl.spellings
  | .members decls => decls.flatMap Member.spellings
  | .base name => name.toList.map (Prod.mk Kind.identifier)
  | .classDecl decl => decl.spellings
  | .classes decls => decls.flatMap ClassDecl.spellings

/-- The names and numbers of the expression that a phrase continues. -/
def Phrase.givenSpellings : Phrase → List (Kind × String)
  | .chain _ left _ => left.spellings
  | .suffixes subject _ => subject.spellings
  | _ => []

namespace Cursor

variable {kind : Kind} {token : Token} {spelling : Kind × String} {c₀ c₁ : Cursor}

/-- A name or a number is a token behind a place. -/
def Offers (cursor : Cursor) (spelling : Kind × String) : Prop :=
  ∃ token ∈ cursor.tokens, spelling ∈ token.word.spelling?

/-- The token behind a place is offered if it is a name or a number. -/
theorem Step.offers (step : Step kind token c₀ c₁)
    (named : kind = .identifier ∨ kind = .integer ∨ kind = .real) :
    c₀.Offers (kind, token.text) := by
  obtain ⟨same⟩ := step
  refine ⟨token, mem_cons_self, ?_⟩
  rcases named with rfl | rfl | rfl <;> simp [Token.word, Word.spelling?, same]

theorem Step.offers_of_offers (step : Step kind token c₀ c₁) (offers : c₁.Offers spelling) :
    c₀.Offers spelling := by
  obtain ⟨-⟩ := step
  obtain ⟨token, mem, same⟩ := offers
  exact ⟨token, mem_cons_of_mem _ mem, same⟩

/-- What is offered at a place is offered at the places before it. -/
theorem Passes.offers (passes : Passes c₀ c₁) (offers : c₁.Offers spelling) :
    c₀.Offers spelling := by
  induction passes with
  | refl => exact offers
  | step first _ _ ih => exact first.offers_of_offers (ih offers)

end Cursor

open Cursor

/-- The names and numbers in a phrase are texts of its tokens, or belong to what it continues. -/
theorem Derives.offers {levels : Nat} {phrase : Phrase} {c₀ c₁ : Cursor} {spelling : Kind × String}
    (derived : Derives levels phrase c₀ c₁) (found : spelling ∈ phrase.spellings) :
    spelling ∈ phrase.givenSpellings ∨ c₀.Offers spelling := by
  -- a production takes its names and numbers from its own tokens and from the phrases in it
  induction derived <;> simp only [Phrase.spellings] at * <;>
    grind [Phrase.givenSpellings, TypeRef.spellings, TypeRef.listSpellings, Expr.spellings,
      Expr.listSpellings, spellings, spellings_branch, blockSpellings, Param.spellings,
      Method.spellings, Member.spellings, ClassDecl.spellings, → Step.offers,
      → Step.offers_of_offers, → Derives.passes, → Passes.offers]

namespace Program

variable {text : String} {program : Program}

/-- The names and numbers in a program that was read are found by the scanner. -/
theorem isFound_of_ofText (read : ofText text = .ok program) :
    ∀ spelling ∈ program.spellings, Word.IsFound spelling := by
  intro spelling inside
  obtain ⟨place, derived⟩ := derives_of_ofText read
  obtain given | ⟨token, mem, named⟩ := derived.offers inside
  · cases given
  · exact Word.isFound_of_lexical (Scanner.lexical_of_mem_tokens mem) named

/-- The words of a program that was read from a text are ones that the scanner finds. -/
theorem lexical_of_ofText (read : ofText text = .ok program) :
    ∀ word ∈ ClassDecl.listWords 1 program.classes, word.Lexical :=
  program.lexical_iff_isFound.mpr (isFound_of_ofText read)

end Program

end ClassLang
