import Mathlib.Algebra.GroupWithZero.Nat
import ClassLang.Syntax.Source

/-! # The words of a source text

The source text of a tree is a sequence of words on numbered lines. Neither the words nor the text
depend on the positions in the tree. -/

namespace ClassLang

open Stmt TypeRef List

/-! ## Trees without positions -/

mutual

/-- A type without its positions. -/
def TypeRef.erase : TypeRef → TypeRef
  | ⟨name, arguments, _⟩ => ⟨name, eraseList arguments, .start⟩

/-- Types without their positions. -/
def TypeRef.eraseList : List TypeRef → List TypeRef
  | [] => []
  | type :: rest => type.erase :: eraseList rest

end

mutual

/-- An expression without its positions. -/
def Expr.erase : Expr → Expr
  | .ident name arguments _ => .ident name (TypeRef.eraseList arguments) .start
  | .self _ => .self .start
  | .int text _ => .int text .start
  | .real text _ => .real text .start
  | .bool value _ => .bool value .start
  | .binary op left right _ => .binary op left.erase right.erase .start
  | .member target name _ => .member target.erase name .start
  | .call callee arguments _ => .call callee.erase (eraseList arguments) .start

/-- Expressions without their positions. -/
def Expr.eraseList : List Expr → List Expr
  | [] => []
  | expr :: rest => expr.erase :: eraseList rest

end

mutual

/-- A statement without its positions. -/
def Stmt.erase : Stmt → Stmt
  | .declare name init _ => .declare name init.erase .start
  | .assign target value _ => .assign target.erase value.erase .start
  | .branch test body none _ => .branch test.erase (eraseBlock body) none .start
  | .branch test body (some alternative) _ =>
    .branch test.erase (eraseBlock body) (some (eraseBlock alternative)) .start
  | .loop test body _ => .loop test.erase (eraseBlock body) .start
  | .ret value _ => .ret value.erase .start
  | .leave _ => .leave .start
  | .eval value _ => .eval value.erase .start

/-- Statements without their positions. -/
def Stmt.eraseBlock : List Stmt → List Stmt
  | [] => []
  | stmt :: rest => stmt.erase :: eraseBlock rest

end

/-- A field without its positions. -/
def Field.erase (field : Field) : Field := ⟨field.name, field.init.erase, .start⟩

/-- A parameter without its positions. -/
def Param.erase (param : Param) : Param := ⟨param.name, param.type.erase, .start⟩

/-- A method without its positions. -/
def Method.erase (method : Method) : Method :=
  ⟨method.name, method.params.map Param.erase, method.result.map TypeRef.erase,
    eraseBlock method.body, .start⟩

/-- A member without its positions. -/
def Member.erase : Member → Member
  | .field decl => .field decl.erase
  | .method decl => .method decl.erase

/-- A class without its positions. -/
def ClassDecl.erase (decl : ClassDecl) : ClassDecl :=
  ⟨decl.name, decl.base, eraseBlock decl.init, decl.members.map Member.erase, .start⟩

/-- A program without its positions. -/
def Program.erase (program : Program) : Program := ⟨program.classes.map ClassDecl.erase⟩

theorem TypeRef.eraseList_eq_map (types : List TypeRef) : eraseList types = types.map erase := by
  induction types with
  | nil => rfl
  | cons type rest ih => rw [eraseList, ih, map_cons]

theorem Expr.eraseList_eq_map (exprs : List Expr) :
    eraseList exprs = exprs.map erase := by
  induction exprs with
  | nil => rfl
  | cons expr rest ih => rw [eraseList, ih, map_cons]

theorem Stmt.eraseBlock_eq_map (block : List Stmt) : eraseBlock block = block.map erase := by
  induction block with
  | nil => rfl
  | cons stmt rest ih => rw [eraseBlock, ih, map_cons]

/-! ## Source texts do not depend on positions -/

namespace TypeRef

mutual

/-- The source text of a type does not depend on positions. -/
@[simp] theorem source_erase (type : TypeRef) : type.erase.source = type.source := by
  obtain ⟨name, arguments, position⟩ := type
  cases arguments with
  | nil => rfl
  | cons first rest =>
    rw [erase, eraseList, source, source, first.source_erase, sources_eraseList rest]

@[simp] theorem sources_eraseList (types : List TypeRef) :
    sources (eraseList types) = sources types := by
  cases types with
  | nil => rfl
  | cons type rest =>
    rw [eraseList, sources, sources, type.source_erase, sources_eraseList rest]

end

/-- The source text of type arguments does not depend on positions. -/
@[simp] theorem argumentsSource_eraseList (types : List TypeRef) :
    argumentsSource (eraseList types) = argumentsSource types := by
  cases types with
  | nil => rfl
  | cons type rest =>
    unfold argumentsSource
    rw [sources_eraseList]
    rfl

end TypeRef

mutual

/-- The source text of an expression does not depend on positions. -/
@[simp] theorem Expr.source_erase (expr : Expr) : expr.erase.source = expr.source := by
  cases expr with
  | ident name arguments =>
    rw [erase, source, source, argumentsSource_eraseList]
  | binary op left right =>
    rw [erase, source, source, left.source_erase, right.source_erase]
  | member target name =>
    rw [erase, source, source, target.source_erase]
  | call callee arguments =>
    rw [erase, source, source, callee.source_erase, sources_eraseList arguments]
  | _ => rfl

@[simp] theorem Expr.sources_eraseList (exprs : List Expr) :
    sources (eraseList exprs) = sources exprs := by
  cases exprs with
  | nil => rfl
  | cons expr rest =>
    rw [eraseList, sources, sources, expr.source_erase, sources_eraseList rest]

end

mutual

/-- The source text of a statement does not depend on positions. -/
@[simp] theorem Stmt.source_erase (depth : Nat) (stmt : Stmt) :
    stmt.erase.source depth = stmt.source depth := by
  cases stmt with
  | branch test body alternative =>
    cases alternative with
    | none =>
      rw [erase, source, source, test.source_erase, blockSource_eraseBlock (depth + 1) body]
    | some alternative =>
      rw [erase, source, source, test.source_erase,
        blockSource_eraseBlock (depth + 1) body,
        blockSource_eraseBlock (depth + 1) alternative]
  | loop test body =>
    rw [erase, source, source, test.source_erase, blockSource_eraseBlock (depth + 1) body]
  | declare | assign | ret | eval => simp only [erase, source, Expr.source_erase]
  | leave => rfl

@[simp] theorem Stmt.blockSource_eraseBlock (depth : Nat) (block : List Stmt) :
    blockSource depth (eraseBlock block) = blockSource depth block := by
  cases block with
  | nil => rfl
  | cons stmt rest =>
    rw [eraseBlock, blockSource, blockSource, stmt.source_erase depth,
      blockSource_eraseBlock depth rest]

end

@[simp] theorem Param.source_erase (param : Param) : param.erase.source = param.source := by
  rw [Param.source, Param.erase, TypeRef.source_erase, Param.source]

/-- The source text of a method does not depend on positions. -/
@[simp] theorem Method.source_erase (method : Method) : method.erase.source = method.source := by
  have params : (method.params.map Param.erase).map Param.source =
      method.params.map Param.source := by
    rw [map_map]
    exact map_congr_left fun param _ => param.source_erase
  have header : method.erase.header = method.header := by
    unfold Method.header Method.erase
    dsimp only
    rw [params]
    cases method.result <;> simp
  rw [Method.source, header, Method.source]
  exact congrArg (indented 1 method.header ++ · ++ indented 1 "end")
    (blockSource_eraseBlock 2 method.body)

/-- The source text of a member does not depend on positions. -/
@[simp] theorem Member.source_erase (member : Member) : member.erase.source = member.source := by
  cases member with
  | field decl =>
    change Field.source decl.erase = Field.source decl
    rw [Field.source, Field.erase, Expr.source_erase, Field.source]
  | method decl => exact decl.source_erase

/-- The source text of a class does not depend on positions. -/
@[simp] theorem ClassDecl.source_erase (decl : ClassDecl) : decl.erase.source = decl.source := by
  have members : (decl.members.map Member.erase).map Member.source =
      decl.members.map Member.source := by
    rw [map_map]
    exact map_congr_left fun member _ => member.source_erase
  have empty : (eraseBlock decl.init).isEmpty = decl.init.isEmpty := by
    cases decl.init <;> rfl
  unfold ClassDecl.source ClassDecl.erase
  dsimp only
  rw [members, empty, blockSource_eraseBlock]

/-- The source text of a program does not depend on positions. -/
@[simp] theorem Program.source_erase (program : Program) :
    program.erase.source = program.source := by
  have classes : (program.classes.map ClassDecl.erase).map ClassDecl.source =
      program.classes.map ClassDecl.source := by
    rw [map_map]
    exact map_congr_left fun decl _ => decl.source_erase
  unfold Program.source Program.erase
  rw [classes]

/-- Programs that differ in positions only have the same source text. -/
theorem Program.source_eq_of_erase {first second : Program} (same : first.erase = second.erase) :
    first.source = second.source := by
  rw [← first.source_erase, same, second.source_erase]

/-! ## Words -/

/-- A token without its column. -/
structure Word where
  kind : Kind
  text : String
  /-- The line on which it starts. -/
  line : Nat
  deriving DecidableEq, Repr

namespace Word

variable (line : Nat)

/-- A symbol on a line. -/
def symbol (sign : Symbol) : Word := ⟨.symbol sign, sign.spelling, line⟩

/-- A reserved word on a line. -/
def keyword (word : Keyword) : Word := ⟨.keyword word, word.spelling, line⟩

/-- A name on a line. -/
def name (text : String) : Word := ⟨.identifier, text, line⟩

end Word

/-- A token without its column. -/
def Token.word (token : Token) : Word := ⟨token.kind, token.text, token.position.line⟩

open Word (symbol keyword)

section Words

variable (line : Nat)

mutual

/-- The words of a type on a line. -/
def TypeRef.words : TypeRef → List Word
  | ⟨name, arguments, _⟩ => Word.name line name :: argumentsWords arguments

/-- The words of the types that a name is applied to. -/
def TypeRef.argumentsWords : List TypeRef → List Word
  | [] => []
  | first :: rest =>
    symbol line .leftBracket ::
      (first.words ++ furtherWords rest ++ [symbol line .rightBracket])

/-- The words of types after the first, each behind a comma. -/
def TypeRef.furtherWords : List TypeRef → List Word
  | [] => []
  | type :: rest => symbol line .comma :: (type.words ++ furtherWords rest)

end

mutual

/-- The words of an expression on a line. -/
def Expr.words : Expr → List Word
  | .ident name arguments _ => Word.name line name :: TypeRef.argumentsWords line arguments
  | .self _ => [keyword line .thisWord]
  | .int text _ => [⟨.integer, text, line⟩]
  | .real text _ => [⟨.real, text, line⟩]
  | .bool value _ => [⟨.boolean, boolSource value, line⟩]
  | .binary op left right _ =>
    symbol line .leftParen ::
      (left.words ++ symbol line op.symbol :: (right.words ++ [symbol line .rightParen]))
  | .member target name _ => target.words ++ [symbol line .period, Word.name line name]
  | .call callee arguments _ => callee.words ++ argumentsWords arguments

/-- The words of the arguments of a call, in parentheses. -/
def Expr.argumentsWords : List Expr → List Word
  | [] => [symbol line .leftParen, symbol line .rightParen]
  | first :: rest =>
    symbol line .leftParen ::
      (first.words ++ furtherWords rest ++ [symbol line .rightParen])

/-- The words of expressions after the first, each behind a comma. -/
def Expr.furtherWords : List Expr → List Word
  | [] => []
  | expr :: rest => symbol line .comma :: (expr.words ++ furtherWords rest)

end

theorem TypeRef.furtherWords_eq (types : List TypeRef) :
    furtherWords line types =
      types.flatMap fun type => symbol line .comma :: type.words line := by
  induction types with
  | nil => rfl
  | cons type rest ih => rw [furtherWords, ih, flatMap_cons, cons_append]

theorem Expr.furtherWords_eq (exprs : List Expr) :
    furtherWords line exprs =
      exprs.flatMap fun expr => symbol line .comma :: expr.words line := by
  induction exprs with
  | nil => rfl
  | cons expr rest ih => rw [furtherWords, ih, flatMap_cons, cons_append]

end Words

namespace Stmt

mutual

/-- The number of lines of a statement. -/
def height : Stmt → Nat
  | .branch _ body none _ => blockHeight body + 2
  | .branch _ body (some alternative) _ => blockHeight body + blockHeight alternative + 3
  | .loop _ body _ => blockHeight body + 2
  | _ => 1

/-- The number of lines of statements. -/
def blockHeight : List Stmt → Nat
  | [] => 0
  | stmt :: rest => stmt.height + blockHeight rest

end

mutual

/-- The words of a statement that starts on a line. -/
def words (line : Nat) : Stmt → List Word
  | .declare name init _ =>
    keyword line .varWord :: Word.name line name :: symbol line .colon :: init.words line
  | .assign target value _ => target.words line ++ symbol line .assign :: value.words line
  | .branch test body none _ =>
    keyword line .ifWord :: (test.words line ++ keyword line .thenWord ::
      (blockWords (line + 1) body ++ [keyword (line + 1 + blockHeight body) .endWord]))
  | .branch test body (some alternative) _ =>
    keyword line .ifWord :: (test.words line ++ keyword line .thenWord ::
      (blockWords (line + 1) body ++
        keyword (line + 1 + blockHeight body) .elseWord ::
          (blockWords (line + 1 + blockHeight body + 1) alternative ++
            [keyword (line + 1 + blockHeight body + 1 + blockHeight alternative) .endWord])))
  | .loop test body _ =>
    keyword line .whileWord :: (test.words line ++ keyword line .loopWord ::
      (blockWords (line + 1) body ++ [keyword (line + 1 + blockHeight body) .endWord]))
  | .ret value _ => keyword line .returnWord :: value.words line
  | .leave _ => [keyword line .breakWord]
  | .eval value _ => value.words line

/-- The words of statements that start on a line. -/
def blockWords (line : Nat) : List Stmt → List Word
  | [] => []
  | stmt :: rest => stmt.words line ++ blockWords (line + stmt.height) rest

end

end Stmt

/-! ## Words of declarations -/

variable (line : Nat)

/-- The words of a parameter on a line. -/
def Param.words (param : Param) : List Word :=
  Word.name line param.name :: symbol line .colon :: param.type.words line

/-- The words of the parameters of a method, in parentheses if there are any. -/
def Param.listWords : List Param → List Word
  | [] => []
  | first :: rest =>
    symbol line .leftParen ::
      (first.words line ++ rest.flatMap (fun param => symbol line .comma :: param.words line) ++
        [symbol line .rightParen])

/-- The words of the result type of a method. -/
def TypeRef.resultWords : Option TypeRef → List Word
  | none => []
  | some type => symbol line .colon :: type.words line

/-- The words of a field on a line. -/
def Field.words (field : Field) : List Word :=
  keyword line .varWord :: Word.name line field.name :: symbol line .colon ::
    field.init.words line

/-- The words of a block between its first line and the word `end` behind it. -/
def Stmt.closedWords (block : List Stmt) : List Word :=
  blockWords line block ++ [keyword (line + blockHeight block) .endWord]

/-- The words of a method that starts on a line. -/
def Method.words (method : Method) : List Word :=
  keyword line .methodWord :: Word.name line method.name ::
    (Param.listWords line method.params ++ (resultWords line method.result ++
      keyword line .isWord :: closedWords (line + 1) method.body))

/-- The words of a member that starts on a line. -/
def Member.words : Member → List Word
  | .field decl => decl.words line
  | .method decl => decl.words line

/-- The number of lines of a member. -/
def Member.height : Member → Nat
  | .field _ => 1
  | .method decl => blockHeight decl.body + 2

/-- The words of members that start on a line. -/
def Member.listWords (line : Nat) : List Member → List Word
  | [] => []
  | member :: rest => member.words line ++ Member.listWords (line + member.height) rest

/-- The number of lines of members. -/
def Member.listHeight (members : List Member) : Nat := (members.map Member.height).sum

namespace ClassDecl

/-- The words of the base of a class. -/
def baseWords : Option String → List Word
  | none => []
  | some base => [keyword line .extendsWord, Word.name line base]

/-- The words of the statements run when an object is made, if there are any. -/
def initWords (init : List Stmt) : List Word :=
  if init.isEmpty then []
  else keyword line .thisWord :: keyword line .isWord :: closedWords (line + 1) init

/-- The number of lines of the statements run when an object is made. -/
def initHeight (init : List Stmt) : Nat :=
  if init.isEmpty then 0 else blockHeight init + 2

/-- The words of a class that starts on a line. -/
def words (decl : ClassDecl) : List Word :=
  let membersLine := line + 1 + initHeight decl.init
  keyword line .classWord :: Word.name line decl.name ::
    (baseWords line decl.base ++ keyword line .isWord ::
      (initWords (line + 1) decl.init ++ (Member.listWords membersLine decl.members ++
        [keyword (membersLine + Member.listHeight decl.members) .endWord])))

/-- The number of lines of a class. -/
def height (decl : ClassDecl) : Nat :=
  initHeight decl.init + Member.listHeight decl.members + 2

/-- The words of classes that start on a line, with an empty line between them. -/
def listWords (line : Nat) : List ClassDecl → List Word
  | [] => []
  | decl :: rest => decl.words line ++ listWords (line + decl.height + 1) rest

end ClassDecl

end ClassLang
