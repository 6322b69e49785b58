import ClassLang.Grammar

/-! # Derivations

The grammar of programs as productions. `Derives levels phrase before after` says that the tokens
between two places spell a phrase, with at most `levels` levels of nesting: every type, statement,
expression and right operand takes one level, and so does every operator of a chain for all that
follows it in the chain.

What may continue a phrase always does. So brackets behind a name, a point, a parenthesis on the line
of the token before it, an operator that binds tightly enough, the sign of an assignment and one
semicolon are left over only where they do not come next. -/

namespace ClassLang

/-! ## Places between tokens -/

/-- A place between tokens: the tokens behind it, and the position of the one before it. -/
structure Cursor where
  /-- The tokens behind the place. -/
  tokens : List Token
  /-- The position of the token before the place. -/
  last : Position
  deriving DecidableEq, Repr

namespace Cursor

/-- The token that comes next. -/
def next? (cursor : Cursor) : Option Token := cursor.tokens.head?

/-- A token of a kind stands between two places. -/
inductive Step (kind : Kind) (token : Token) : Cursor → Cursor → Prop
  | next {rest last} (same : token.kind = kind) :
      Step kind token ⟨token :: rest, last⟩ ⟨rest, token.position⟩

/-- No token with a property comes next. -/
def Lacks (property : Token → Prop) (cursor : Cursor) : Prop :=
  ∀ token ∈ cursor.next?, ¬property token

/-- The token that comes next stands on a line. -/
def NextOn (line : Nat) (cursor : Cursor) : Prop :=
  ∃ token ∈ cursor.next?, token.position.line = line

/-- One place comes after another, with no end of the text between them. -/
inductive Passes : Cursor → Cursor → Prop
  | refl {cursor} : Passes cursor cursor
  | step {kind token c₀ c₁ c₂} (first : Step kind token c₀ c₁)
      (goes : kind ≠ .endOfFile) (further : Passes c₁ c₂) : Passes c₀ c₂

/-- Between two places stands a token of a good kind first. -/
def Starts (good : Kind → Prop) (c₀ c₂ : Cursor) : Prop :=
  ∃ kind token c₁, Step kind token c₀ c₁ ∧ good kind ∧ kind ≠ .endOfFile ∧ Passes c₁ c₂

variable {kind : Kind} {token : Token} {good good' : Kind → Prop} {c₀ c₁ c₂ : Cursor}

section Step

variable (step : Step kind token c₀ c₁)

include step

theorem Step.next?_eq : c₀.next? = some token := by
  obtain ⟨-⟩ := step
  rfl

theorem Step.kind_eq : token.kind = kind := by
  obtain ⟨same⟩ := step
  exact same

/-- What the token behind a place is not does not come next there. -/
theorem Step.lacks {property : Token → Prop} (other : ¬property token) : c₀.Lacks property := by
  intro next found
  rw [step.next?_eq, Option.mem_some_iff] at found
  rwa [← found]

/-- Where a token of one kind stands, none of another kind comes next. -/
theorem Step.lacks_kind {kind' : Kind} (other : kind ≠ kind') :
    c₀.Lacks fun token => token.kind = kind' :=
  step.lacks (step.kind_eq ▸ other)

theorem Step.passes (goes : kind ≠ .endOfFile) : Passes c₀ c₁ :=
  .step step goes .refl

end Step

theorem Passes.trans (first : Passes c₀ c₁) (second : Passes c₁ c₂) : Passes c₀ c₂ := by
  induction first with
  | refl => exact second
  | step step goes _ ih => exact .step step goes (ih second)

theorem Starts.trans (starts : Starts good c₀ c₁) (further : Passes c₁ c₂) : Starts good c₀ c₂ := by
  obtain ⟨kind, token, c, step, holds, goes, passes⟩ := starts
  exact ⟨kind, token, c, step, holds, goes, passes.trans further⟩

theorem Starts.mono (starts : Starts good c₀ c₁) (weaker : ∀ kind, good kind → good' kind) :
    Starts good' c₀ c₁ := by
  obtain ⟨kind, token, c, step, holds, goes, passes⟩ := starts
  exact ⟨kind, token, c, step, weaker kind holds, goes, passes⟩

theorem Starts.passes (starts : Starts good c₀ c₁) : Passes c₀ c₁ := by
  obtain ⟨kind, token, c, step, -, goes, passes⟩ := starts
  exact .step step goes passes

theorem Step.starts (step : Step kind token c₀ c₁) (holds : good kind) (goes : kind ≠ .endOfFile)
    (further : Passes c₁ c₂) : Starts good c₀ c₂ :=
  ⟨kind, token, c₁, step, holds, goes, further⟩

end Cursor

/-- A token is a parenthesis that opens on a line. -/
def Token.OpensOn (line : Nat) (token : Token) : Prop :=
  token.kind = .symbol .leftParen ∧ token.position.line = line

/-- A token is an operator that binds at least as tightly as given. -/
def Token.Binds (least : Nat) (token : Token) : Prop :=
  ∃ op, BinaryOp.ofKind? token.kind = some op ∧ least ≤ op.precedence

/-! ## Phrases -/

/-- The phrases of the grammar, each with what it spells. -/
inductive Phrase where
  | type (type : TypeRef)
  /-- Types in brackets, if there are any. -/
  | typeArguments (types : List TypeRef)
  /-- Types, each behind a comma. -/
  | furtherTypes (types : List TypeRef)
  /-- An operand with operators that bind at least as tightly as given; an expression is the operand
  with all operators. -/
  | operand (least : Nat) (expr : Expr)
  /-- The parts of an operand. -/
  | binary (least : Nat) (expr : Expr)
  /-- The operators and right operands that continue a left operand. -/
  | chain (least : Nat) (left expr : Expr)
  /-- An expression without operators. -/
  | postfixed (expr : Expr)
  /-- The members and calls that continue an expression. -/
  | suffixes (subject expr : Expr)
  /-- An expression without operators, members and calls. -/
  | primary (expr : Expr)
  /-- The arguments of a call in parentheses. -/
  | callArguments (arguments : List Expr)
  /-- Expressions, each behind a comma. -/
  | furtherExprs (exprs : List Expr)
  /-- A name with an initial value, behind the word `var`. -/
  | binding (field : Field)
  /-- A statement, with the semicolon that may follow it. -/
  | statement (stmt : Stmt)
  /-- A statement without the semicolon. -/
  | statementBody (stmt : Stmt)
  /-- Statements in a row. -/
  | statements (stmts : List Stmt)
  /-- The alternative of a branch, if there is one. -/
  | alternative (stmts : Option (List Stmt))
  /-- A semicolon, if there is one. -/
  | semicolon
  | param (param : Param)
  /-- Parameters, each behind a comma. -/
  | furtherParams (params : List Param)
  /-- The parameters of a method in parentheses, if there are any. -/
  | params (params : List Param)
  /-- The result type of a method, if there is one. -/
  | result (type : Option TypeRef)
  | method (method : Method)
  /-- A field or a method, with the semicolon that may follow it. -/
  | member (member : Member)
  /-- Fields and methods in a row. -/
  | members (members : List Member)
  /-- The class that a class extends, if there is one. -/
  | base (name : Option String)
  /-- The statements run for a new object, if there are any. -/
  | initBlock (stmts : List Stmt)
  /-- A class, with the semicolon that may follow it. -/
  | classDecl (decl : ClassDecl)
  /-- Classes in a row. -/
  | classes (decls : List ClassDecl)

open Cursor

/-- The productions of the grammar. -/
inductive Derives : Nat → Phrase → Cursor → Cursor → Prop
  -- types
  | type {levels name arguments c₀ c₁ c₂} (named : Step .identifier name c₀ c₁)
      (applied : Derives levels (.typeArguments arguments) c₁ c₂) :
      Derives (levels + 1) (.type ⟨name.text, arguments, name.position⟩) c₀ c₂
  | noTypeArguments {levels c} (stops : c.Lacks fun token => token.kind = .symbol .leftBracket) :
      Derives levels (.typeArguments []) c c
  | typeArguments {levels opening closing type types c₀ c₁ c₂ c₃ c₄}
      (opens : Step (.symbol .leftBracket) opening c₀ c₁)
      (first : Derives levels (.type type) c₁ c₂)
      (further : Derives levels (.furtherTypes types) c₂ c₃)
      (closes : Step (.symbol .rightBracket) closing c₃ c₄) :
      Derives levels (.typeArguments (type :: types)) c₀ c₄
  | noFurtherTypes {levels c} : Derives levels (.furtherTypes []) c c
  | furtherTypes {levels comma type types c₀ c₁ c₂ c₃} (separates : Step (.symbol .comma) comma c₀ c₁)
      (first : Derives levels (.type type) c₁ c₂)
      (further : Derives levels (.furtherTypes types) c₂ c₃) :
      Derives levels (.furtherTypes (type :: types)) c₀ c₃
  -- operands and operators
  | operand {levels least expr c₀ c₁} (parts : Derives levels (.binary least expr) c₀ c₁) :
      Derives (levels + 1) (.operand least expr) c₀ c₁
  | binary {levels least left expr c₀ c₁ c₂} (first : Derives levels (.postfixed left) c₀ c₁)
      (continues : Derives levels (.chain least left expr) c₁ c₂) :
      Derives levels (.binary least expr) c₀ c₂
  | chainEnd {levels least left c} (stops : c.Lacks (Token.Binds least)) :
      Derives levels (.chain least left left) c c
  | chain {levels least op sign left right expr c₀ c₁ c₂ c₃}
      (signed : Step (.symbol op.symbol) sign c₀ c₁)
      (binds : least ≤ op.precedence) (sameLine : c₁.NextOn sign.position.line)
      (second : Derives levels (.operand (op.precedence + 1) right) c₁ c₂)
      (continues : Derives levels (.chain least (.binary op left right left.position) expr) c₂ c₃) :
      Derives (levels + 1) (.chain least left expr) c₀ c₃
  -- members and calls
  | postfixed {levels subject expr c₀ c₁ c₂} (first : Derives levels (.primary subject) c₀ c₁)
      (continues : Derives levels (.suffixes subject expr) c₁ c₂) :
      Derives levels (.postfixed expr) c₀ c₂
  | suffixesEnd {levels subject c} (noMember : c.Lacks fun token => token.kind = .symbol .period)
      (noCall : c.Lacks (Token.OpensOn c.last.line)) :
      Derives levels (.suffixes subject subject) c c
  | member {levels point name subject expr c₀ c₁ c₂ c₃}
      (pointed : Step (.symbol .period) point c₀ c₁) (named : Step .identifier name c₁ c₂)
      (continues :
        Derives levels (.suffixes (.member subject name.text subject.position) expr) c₂ c₃) :
      Derives levels (.suffixes subject expr) c₀ c₃
  | call {levels subject expr arguments c₀ c₁ c₂}
      (sameLine : c₀.NextOn c₀.last.line) (applied : Derives levels (.callArguments arguments) c₀ c₁)
      (continues :
        Derives levels (.suffixes (.call subject arguments subject.position) expr) c₁ c₂) :
      Derives levels (.suffixes subject expr) c₀ c₂
  | noCallArguments {levels opening closing c₀ c₁ c₂} (opens : Step (.symbol .leftParen) opening c₀ c₁)
      (closes : Step (.symbol .rightParen) closing c₁ c₂) :
      Derives levels (.callArguments []) c₀ c₂
  | callArguments {levels opening closing expr exprs c₀ c₁ c₂ c₃ c₄}
      (opens : Step (.symbol .leftParen) opening c₀ c₁)
      (first : Derives levels (.operand 1 expr) c₁ c₂)
      (further : Derives levels (.furtherExprs exprs) c₂ c₃)
      (closes : Step (.symbol .rightParen) closing c₃ c₄) :
      Derives levels (.callArguments (expr :: exprs)) c₀ c₄
  | noFurtherExprs {levels c} : Derives levels (.furtherExprs []) c c
  | furtherExprs {levels comma expr exprs c₀ c₁ c₂ c₃} (separates : Step (.symbol .comma) comma c₀ c₁)
      (first : Derives levels (.operand 1 expr) c₁ c₂)
      (further : Derives levels (.furtherExprs exprs) c₂ c₃) :
      Derives levels (.furtherExprs (expr :: exprs)) c₀ c₃
  -- names, literals and parentheses
  | ident {levels name arguments c₀ c₁ c₂} (named : Step .identifier name c₀ c₁)
      (applied : Derives levels (.typeArguments arguments) c₁ c₂) :
      Derives levels (.primary (.ident name.text arguments name.position)) c₀ c₂
  | self {levels word c₀ c₁} (worded : Step (.keyword .thisWord) word c₀ c₁) :
      Derives levels (.primary (.self word.position)) c₀ c₁
  | int {levels literal c₀ c₁} (written : Step .integer literal c₀ c₁) :
      Derives levels (.primary (.int literal.text literal.position)) c₀ c₁
  | real {levels literal c₀ c₁} (written : Step .real literal c₀ c₁) :
      Derives levels (.primary (.real literal.text literal.position)) c₀ c₁
  | bool {levels literal c₀ c₁} (written : Step .boolean literal c₀ c₁) :
      Derives levels (.primary (.bool (literal.text = "true") literal.position)) c₀ c₁
  | parens {levels opening closing expr c₀ c₁ c₂ c₃} (opens : Step (.symbol .leftParen) opening c₀ c₁)
      (inner : Derives levels (.operand 1 expr) c₁ c₂)
      (closes : Step (.symbol .rightParen) closing c₂ c₃) :
      Derives levels (.primary expr) c₀ c₃
  -- statements
  | binding {levels word name colon init c₀ c₁ c₂ c₃ c₄}
      (worded : Step (.keyword .varWord) word c₀ c₁) (named : Step .identifier name c₁ c₂)
      (marked : Step (.symbol .colon) colon c₂ c₃)
      (value : Derives levels (.operand 1 init) c₃ c₄) :
      Derives levels (.binding ⟨name.text, init, word.position⟩) c₀ c₄
  | statement {levels stmt c₀ c₁ c₂}
      (body : Derives levels (.statementBody stmt) c₀ c₁) (ends : Derives levels .semicolon c₁ c₂) :
      Derives (levels + 1) (.statement stmt) c₀ c₂
  | declare {levels field c₀ c₁} (bound : Derives levels (.binding field) c₀ c₁) :
      Derives levels (.statementBody (.declare field.name field.init field.position)) c₀ c₁
  | branch {levels word thenWord endWord test body alternative c₀ c₁ c₂ c₃ c₄ c₅ c₆}
      (worded : Step (.keyword .ifWord) word c₀ c₁) (tested : Derives levels (.operand 1 test) c₁ c₂)
      (marked : Step (.keyword .thenWord) thenWord c₂ c₃)
      (taken : Derives levels (.statements body) c₃ c₄)
      (otherwise : Derives levels (.alternative alternative) c₄ c₅)
      (closes : Step (.keyword .endWord) endWord c₅ c₆) :
      Derives levels (.statementBody (.branch test body alternative word.position)) c₀ c₆
  | noAlternative {levels c} : Derives levels (.alternative none) c c
  | alternative {levels word stmts c₀ c₁ c₂} (worded : Step (.keyword .elseWord) word c₀ c₁)
      (body : Derives levels (.statements stmts) c₁ c₂) :
      Derives levels (.alternative (some stmts)) c₀ c₂
  | loop {levels word loopWord endWord test body c₀ c₁ c₂ c₃ c₄ c₅}
      (worded : Step (.keyword .whileWord) word c₀ c₁)
      (tested : Derives levels (.operand 1 test) c₁ c₂)
      (marked : Step (.keyword .loopWord) loopWord c₂ c₃)
      (repeated : Derives levels (.statements body) c₃ c₄)
      (closes : Step (.keyword .endWord) endWord c₄ c₅) :
      Derives levels (.statementBody (.loop test body word.position)) c₀ c₅
  | ret {levels word value c₀ c₁ c₂} (worded : Step (.keyword .returnWord) word c₀ c₁)
      (returned : Derives levels (.operand 1 value) c₁ c₂) :
      Derives levels (.statementBody (.ret value word.position)) c₀ c₂
  | leave {levels word c₀ c₁} (worded : Step (.keyword .breakWord) word c₀ c₁) :
      Derives levels (.statementBody (.leave word.position)) c₀ c₁
  | assign {levels first sign target value c₀ c₁ c₂ c₃}
      (starts : c₀.next? = some first) (aimed : Derives levels (.operand 1 target) c₀ c₁)
      (signed : Step (.symbol .assign) sign c₁ c₂)
      (given : Derives levels (.operand 1 value) c₂ c₃) :
      Derives levels (.statementBody (.assign target value first.position)) c₀ c₃
  | eval {levels first value c₀ c₁}
      (starts : c₀.next? = some first) (evaluated : Derives levels (.operand 1 value) c₀ c₁)
      (stops : c₁.Lacks fun token => token.kind = .symbol .assign) :
      Derives levels (.statementBody (.eval value first.position)) c₀ c₁
  | noStatements {levels c} : Derives levels (.statements []) c c
  | statements {levels stmt stmts c₀ c₁ c₂} (first : Derives levels (.statement stmt) c₀ c₁)
      (further : Derives levels (.statements stmts) c₁ c₂) :
      Derives levels (.statements (stmt :: stmts)) c₀ c₂
  | noSemicolon {levels c}
      (stops : c.Lacks fun token => token.kind = .symbol .semicolon) : Derives levels .semicolon c c
  | semicolon {levels sign c₀ c₁}
      (signed : Step (.symbol .semicolon) sign c₀ c₁) : Derives levels .semicolon c₀ c₁
  -- methods
  | param {levels name colon type c₀ c₁ c₂ c₃}
      (named : Step .identifier name c₀ c₁) (marked : Step (.symbol .colon) colon c₁ c₂)
      (typed : Derives levels (.type type) c₂ c₃) :
      Derives levels (.param ⟨name.text, type, name.position⟩) c₀ c₃
  | noFurtherParams {levels c} : Derives levels (.furtherParams []) c c
  | furtherParams {levels comma param params c₀ c₁ c₂ c₃}
      (separates : Step (.symbol .comma) comma c₀ c₁)
      (first : Derives levels (.param param) c₁ c₂)
      (further : Derives levels (.furtherParams params) c₂ c₃) :
      Derives levels (.furtherParams (param :: params)) c₀ c₃
  | noParams {levels c} : Derives levels (.params []) c c
  | emptyParams {levels opening closing c₀ c₁ c₂} (opens : Step (.symbol .leftParen) opening c₀ c₁)
      (closes : Step (.symbol .rightParen) closing c₁ c₂) : Derives levels (.params []) c₀ c₂
  | params {levels opening closing param params c₀ c₁ c₂ c₃ c₄}
      (opens : Step (.symbol .leftParen) opening c₀ c₁)
      (first : Derives levels (.param param) c₁ c₂)
      (further : Derives levels (.furtherParams params) c₂ c₃)
      (closes : Step (.symbol .rightParen) closing c₃ c₄) :
      Derives levels (.params (param :: params)) c₀ c₄
  | noResult {levels c} : Derives levels (.result none) c c
  | result {levels colon type c₀ c₁ c₂}
      (marked : Step (.symbol .colon) colon c₀ c₁) (typed : Derives levels (.type type) c₁ c₂) :
      Derives levels (.result (some type)) c₀ c₂
  | method {levels word name isWord endWord params result body c₀ c₁ c₂ c₃ c₄ c₅ c₆ c₇}
      (worded : Step (.keyword .methodWord) word c₀ c₁) (named : Step .identifier name c₁ c₂)
      (taking : Derives levels (.params params) c₂ c₃)
      (returning : Derives levels (.result result) c₃ c₄)
      (marked : Step (.keyword .isWord) isWord c₄ c₅)
      (run : Derives levels (.statements body) c₅ c₆)
      (closes : Step (.keyword .endWord) endWord c₆ c₇) :
      Derives levels (.method ⟨name.text, params, result, body, word.position⟩) c₀ c₇
  -- classes
  | field {levels field c₀ c₁ c₂}
      (bound : Derives levels (.binding field) c₀ c₁) (ends : Derives levels .semicolon c₁ c₂) :
      Derives levels (.member (.field field)) c₀ c₂
  | memberMethod {levels method c₀ c₁ c₂}
      (declared : Derives levels (.method method) c₀ c₁) (ends : Derives levels .semicolon c₁ c₂) :
      Derives levels (.member (.method method)) c₀ c₂
  | noMembers {levels c} : Derives levels (.members []) c c
  | members {levels member members c₀ c₁ c₂} (first : Derives levels (.member member) c₀ c₁)
      (further : Derives levels (.members members) c₁ c₂) :
      Derives levels (.members (member :: members)) c₀ c₂
  | noBase {levels c} : Derives levels (.base none) c c
  | base {levels word name c₀ c₁ c₂}
      (worded : Step (.keyword .extendsWord) word c₀ c₁) (named : Step .identifier name c₁ c₂) :
      Derives levels (.base (some name.text)) c₀ c₂
  | noInitBlock {levels c} : Derives levels (.initBlock []) c c
  | initBlock {levels word isWord endWord stmts c₀ c₁ c₂ c₃ c₄ c₅}
      (worded : Step (.keyword .thisWord) word c₀ c₁)
      (marked : Step (.keyword .isWord) isWord c₁ c₂)
      (run : Derives levels (.statements stmts) c₂ c₃)
      (closes : Step (.keyword .endWord) endWord c₃ c₄) (ends : Derives levels .semicolon c₄ c₅) :
      Derives levels (.initBlock stmts) c₀ c₅
  | classDecl {levels word name isWord endWord base init members c₀ c₁ c₂ c₃ c₄ c₅ c₆ c₇ c₈}
      (worded : Step (.keyword .classWord) word c₀ c₁) (named : Step .identifier name c₁ c₂)
      (extending : Derives levels (.base base) c₂ c₃)
      (marked : Step (.keyword .isWord) isWord c₃ c₄)
      (setUp : Derives levels (.initBlock init) c₄ c₅)
      (declared : Derives levels (.members members) c₅ c₆)
      (closes : Step (.keyword .endWord) endWord c₆ c₇) (ends : Derives levels .semicolon c₇ c₈) :
      Derives levels (.classDecl ⟨name.text, base, init, members, word.position⟩) c₀ c₈
  | noClasses {levels c} : Derives levels (.classes []) c c
  | classes {levels decl decls c₀ c₁ c₂} (first : Derives levels (.classDecl decl) c₀ c₁)
      (further : Derives levels (.classes decls) c₁ c₂) :
      Derives levels (.classes (decl :: decls)) c₀ c₂

/-- All of some tokens spell a program with at most a number of levels of nesting: its classes, and
then the end of the text. -/
def Program.Spells (levels : Nat) (tokens : List Token) (program : Program) : Prop :=
  ∃ last ending cursor, Derives levels (.classes program.classes) ⟨tokens, Position.start⟩ cursor ∧
    Step .endOfFile ending cursor ⟨[], last⟩

/-! ## What phrases start with -/

/-- Whether a statement can start with a kind of token. -/
def Stmt.StartsWith : Stmt → Kind → Prop
  | .declare .., kind => kind = .keyword .varWord
  | .branch .., kind => kind = .keyword .ifWord
  | .loop .., kind => kind = .keyword .whileWord
  | .ret .., kind => kind = .keyword .returnWord
  | .leave .., kind => kind = .keyword .breakWord
  | .assign .., kind | .eval .., kind => Grammar.startsOperand kind = true

namespace Derives

variable {levels least : Nat} {phrase : Phrase} {expr : Expr} {stmt : Stmt} {c₀ c₁ : Cursor}

theorem passes (derived : Derives levels phrase c₀ c₁) : c₀.Passes c₁ := by
  -- every production is made of tokens and phrases in a row, none of them the end of the text
  induction derived <;> grind [→ Step.passes, → Passes.trans, Passes.refl]

theorem semicolon_levels {levels' : Nat} (derived : Derives levels .semicolon c₀ c₁) :
    Derives levels' .semicolon c₀ c₁ := by
  cases derived with
  | noSemicolon stops => exact .noSemicolon stops
  | semicolon signed => exact .semicolon signed

/-- What a primary expression can start with can start an operand. -/
theorem starts_primary (derived : Derives levels (.primary expr) c₀ c₁) :
    c₀.Starts (Grammar.startsOperand ·) c₁ := by
  cases derived with
  | ident named applied => exact named.starts rfl nofun applied.passes
  | self worded => exact worded.starts rfl nofun .refl
  | int written => exact written.starts rfl nofun .refl
  | real written => exact written.starts rfl nofun .refl
  | bool written => exact written.starts rfl nofun .refl
  | parens opens inner closes =>
    exact opens.starts rfl nofun (inner.passes.trans (closes.passes nofun))

/-- An operand starts with a token that can start one. -/
theorem starts_operand (derived : Derives levels (.operand least expr) c₀ c₁) :
    c₀.Starts (Grammar.startsOperand ·) c₁ := by
  cases derived with | operand parts
  cases parts with | binary first continues
  cases first with | postfixed subject suffixed
  exact subject.starts_primary.trans (suffixed.passes.trans continues.passes)

/-- The arguments of a call start with the parenthesis that opens them. -/
theorem starts_callArguments {arguments : List Expr}
    (derived : Derives levels (.callArguments arguments) c₀ c₁) :
    c₀.Starts (· = .symbol .leftParen) c₁ := by
  cases derived with
  | noCallArguments opens closes => exact opens.starts rfl nofun (closes.passes nofun)
  | callArguments opens first further closes =>
    exact opens.starts rfl nofun (first.passes.trans (further.passes.trans (closes.passes nofun)))

theorem starts_binding {field : Field} (derived : Derives levels (.binding field) c₀ c₁) :
    c₀.Starts (· = .keyword .varWord) c₁ := by
  cases derived with | binding worded named marked value
  exact worded.starts rfl nofun (.step named nofun (.step marked nofun value.passes))

/-- A statement starts with its word, or with an operand if it has none. -/
theorem starts_statementBody (derived : Derives levels (.statementBody stmt) c₀ c₁) :
    c₀.Starts stmt.StartsWith c₁ := by
  cases derived with
  | declare bound => exact bound.starts_binding
  | branch worded tested marked taken otherwise closes =>
    exact worded.starts rfl nofun (tested.passes.trans (.step marked nofun
      (taken.passes.trans (otherwise.passes.trans (closes.passes nofun)))))
  | loop worded tested marked repeated closes =>
    exact worded.starts rfl nofun (tested.passes.trans (.step marked nofun
      (repeated.passes.trans (closes.passes nofun))))
  | ret worded returned => exact worded.starts rfl nofun returned.passes
  | leave worded => exact worded.starts rfl nofun .refl
  | assign _ aimed signed given =>
    exact aimed.starts_operand.trans (.step signed nofun given.passes)
  | eval _ evaluated => exact evaluated.starts_operand

theorem starts_statement (derived : Derives levels (.statement stmt) c₀ c₁) :
    c₀.Starts (fun kind => kind ≠ .keyword .elseWord ∧ kind ≠ .keyword .endWord) c₁ := by
  cases derived with | statement body ends
  refine (body.starts_statementBody.mono fun kind starts => ?_).trans ends.passes
  constructor <;> rintro rfl <;> cases stmt <;> cases starts

theorem starts_param {param : Param} (derived : Derives levels (.param param) c₀ c₁) :
    c₀.Starts (· = .identifier) c₁ := by
  cases derived with | param named marked typed
  exact named.starts rfl nofun (.step marked nofun typed.passes)

theorem starts_method {method : Method} (derived : Derives levels (.method method) c₀ c₁) :
    c₀.Starts (· = .keyword .methodWord) c₁ := by
  cases derived with | method worded named taking returning marked run closes
  exact worded.starts rfl nofun (.step named nofun (taking.passes.trans (returning.passes.trans
    (.step marked nofun (run.passes.trans (closes.passes nofun))))))

/-- A member starts with the word `var` or the word `method`. -/
theorem starts_member {member : Member} (derived : Derives levels (.member member) c₀ c₁) :
    c₀.Starts (fun kind => kind = .keyword .varWord ∨ kind = .keyword .methodWord) c₁ := by
  cases derived with
  | field bound ends => exact (bound.starts_binding.mono fun _ => .inl).trans ends.passes
  | memberMethod declared ends =>
    exact (declared.starts_method.mono fun _ => .inr).trans ends.passes

theorem starts_classDecl {decl : ClassDecl} (derived : Derives levels (.classDecl decl) c₀ c₁) :
    c₀.Starts (· = .keyword .classWord) c₁ := by
  cases derived with | classDecl worded named extending marked setUp declared closes ends
  exact worded.starts rfl nofun (.step named nofun (extending.passes.trans (.step marked nofun
    (setUp.passes.trans (declared.passes.trans (.step closes nofun ends.passes))))))

end Derives

end ClassLang
