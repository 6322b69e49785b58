import ClassLang.Reader
import ClassLang.Syntax
import ClassLang.Token.Scanner

/-! # The grammar

How programs are read from tokens. The constructs that can contain one another (types, expressions
and statements) are read level by level: a `Grammar` holds their readings at one depth of nesting,
and `Grammar.around` builds it from the grammar of the next depth. Since nesting is limited, finitely
many levels describe every program. -/

namespace ClassLang

open Reading

variable {m : Type → Type} [Monad m] [MonadStateOf Reader m] [MonadExceptOf Fault m] [MonadFinally m]

/-- The readings of the constructs that nest, as they run at one depth. -/
structure Grammar (m : Type → Type) where
  /-- A type. -/
  type : m TypeRef
  /-- An operand made of operators that bind at least as tightly as given, one level deeper. -/
  operand : Nat → m Expr
  /-- An expression made of operators that bind at least as tightly as given, at this level. -/
  binary : Nat → m Expr
  /-- The operators and operands that continue an expression. -/
  chain : Nat → Expr → m Expr
  /-- A statement. -/
  statement : m Stmt

namespace Grammar

/-- An expression. -/
def expr (grammar : Grammar m) : m Expr := grammar.operand 1

/-! ## Names and types -/

/-- A name and its position. -/
def name : m (String × Position) := do
  let token ← expect .identifier
  return (token.text, token.position)

/-- The types that a name is applied to, if any. -/
def typeArguments (type : m TypeRef) : m (List TypeRef) := do
  let arguments ←
    optional (.symbol .leftBracket) (closed (.symbol .comma) (.symbol .rightBracket) type)
  return arguments.getD []

/-- A type, given the reading of the types inside it. -/
def typeBody (type : m TypeRef) : m TypeRef := do
  let (name, position) ← name
  let arguments ← typeArguments type
  return ⟨name, arguments, position⟩

/-! ## Expressions -/

/-- An expression without operators, members and calls. -/
def primary (type : m TypeRef) (expr : m Expr) : m Expr := do
  let position ← here
  let token ← peek
  match token.kind with
  | .identifier =>
    let (name, _) ← name
    let arguments ← typeArguments type
    return .ident name arguments position
  | .keyword .thisWord =>
    let _ ← expect (.keyword .thisWord)
    return .self position
  | .integer =>
    let literal ← expect .integer
    return .int literal.text position
  | .real =>
    let literal ← expect .real
    return .real literal.text position
  | .boolean =>
    let literal ← expect .boolean
    return .bool (literal.text = "true") position
  | .symbol .leftParen =>
    let _ ← expect (.symbol .leftParen)
    let inner ← expr
    let _ ← expect (.symbol .rightParen)
    return inner
  | _ => failExpecting "expression"

variable (expr : m Expr)

/-- The arguments of a call, in parentheses. -/
def callArguments : m (List Expr) := do
  let _ ← expect (.symbol .leftParen)
  listed (.symbol .comma) (.symbol .rightParen) expr

/-- The member or the call that follows an expression, if one does. The parenthesis of a call stands on
the line of the token before it. -/
def suffix? (subject : Expr) : m (Option Expr) := do
  if ← checkKind (.symbol .period) then
    let _ ← expect (.symbol .period)
    let (name, _) ← name
    return some (.member subject name subject.position)
  else
    let line := (← get).last.line
    if ← check (fun token => token.kind = .symbol .leftParen && token.position.line = line) then
      let arguments ← callArguments expr
      return some (.call subject arguments subject.position)
    else return none

/-- The members and calls that follow an expression. Each of them reads at least one token, so `budget`
need only count the tokens. -/
def suffixesWithin (expr : m Expr) (budget : Nat) (subject : Expr) : m Expr := do
  match budget with
  | 0 => return subject
  | budget + 1 =>
    match ← suffix? expr subject with
    | some longer => suffixesWithin expr budget longer
    | none => return subject

/-- The members and calls that follow an expression. -/
def suffixes (subject : Expr) : m Expr := do
  suffixesWithin expr (← get).tokens.length subject

/-- An expression without operators. -/
def postfixed (type : m TypeRef) (expr : m Expr) : m Expr := do
  suffixes expr (← primary type expr)

/-- Whether a kind of token can start an operand. -/
def startsOperand : Kind → Bool
  | .identifier | .keyword .thisWord | .integer | .real | .boolean | .symbol .leftParen => true
  | _ => false

/-- The right operand of an operator starts on the operator's line. -/
def checkOperand (operator : Token) : m Unit := do
  let next ← peek
  if startsOperand next.kind && next.position.line = operator.position.line then return
  else throw ⟨.incompleteBinary operator.text, operator.position⟩

/-- The operator that comes next, if it binds at least as tightly as given. -/
def operator? (least : Nat) : m (Option (BinaryOp × Token)) := do
  let next ← peek
  match BinaryOp.ofKind? next.kind with
  | some op =>
    if least ≤ op.precedence then return some (op, ← take) else return none
  | none => return none

/-- The operators and operands that continue an expression. Every operand sits one level deeper than
the one before it, because the tree grows to the left. -/
def chainBody (inner : Grammar m) (least : Nat) (left : Expr) : m Expr := do
  match ← operator? least with
  | none => return left
  | some (op, token) =>
    checkOperand token
    deepen
    let right ← inner.operand (op.precedence + 1)
    inner.chain least (.binary op left right left.position)

/-! ## Statements -/

/-- A name with an initial value, after the word `var`, and its position. -/
def binding : m Field := do
  let token ← expect (.keyword .varWord)
  let (name, _) ← name
  let _ ← expect (.symbol .colon)
  let init ← expr
  return ⟨name, init, token.position⟩

/-- Statements up to the word `end`, which stays in place. -/
def statements (statement : m Stmt) : m (List Stmt) :=
  manyUntil (· = .keyword .endWord) statement

/-- A statement without the semicolon that may follow it. -/
def statementBody (statement : m Stmt) : m Stmt := do
  let position ← here
  let token ← peek
  match token.kind with
  | .keyword .varWord =>
    let field ← binding expr
    return .declare field.name field.init position
  | .keyword .ifWord =>
    let _ ← expect (.keyword .ifWord)
    let test ← expr
    let _ ← expect (.keyword .thenWord)
    let body ←
      manyUntil (fun kind => kind = .keyword .elseWord || kind = .keyword .endWord) statement
    let alternative ← optional (.keyword .elseWord) (statements statement)
    let _ ← expect (.keyword .endWord)
    return .branch test body alternative position
  | .keyword .whileWord =>
    let _ ← expect (.keyword .whileWord)
    let test ← expr
    let _ ← expect (.keyword .loopWord)
    let body ← statements statement
    let _ ← expect (.keyword .endWord)
    return .loop test body position
  | .keyword .returnWord =>
    let _ ← expect (.keyword .returnWord)
    return .ret (← expr) position
  | .keyword .breakWord =>
    let _ ← expect (.keyword .breakWord)
    return .leave position
  | _ =>
    let target ← expr
    match ← takeIf (fun token => token.kind = .symbol .assign) with
    | some _ => return .assign target (← expr) position
    | none => return .eval target position

/-! ## Levels -/

/-- The grammar beyond the deepest level: everything is nested too deeply. -/
def beyond : Grammar m where
  type := do throw ⟨.tooDeep, ← here⟩
  operand _ := do throw ⟨.tooDeep, ← here⟩
  binary _ := do throw ⟨.tooDeep, ← here⟩
  chain _ _ := do throw ⟨.tooDeep, ← here⟩
  statement := do throw ⟨.tooDeep, ← here⟩

/-- The grammar at one depth, given the grammar of the next depth. -/
def around (inner : Grammar m) : Grammar m :=
  let type := nested (typeBody inner.type)
  let operand := fun least => nested (inner.binary least)
  { type := type
    operand := operand
    chain := chainBody inner
    binary := fun least => restoringDepth do
      chainBody inner least (← postfixed type (operand 1))
    statement := do
      let statement ← nested (statementBody inner.expr inner.statement)
      skipIf (.symbol .semicolon)
      return statement }

/-- The grammar with a number of levels below which nothing can be read. -/
def ofLevels : Nat → Grammar m
  | 0 => beyond
  | levels + 1 => (ofLevels levels).around

/-- The grammar of the outermost depth. The limit on nesting is reached before its levels end. -/
def outermost : Grammar m := ofLevels (maxDepth + 1)

/-! ## Declarations -/

variable (grammar : Grammar m)

/-- A parameter of a method. -/
def param : m Param := do
  let (name, position) ← name
  let _ ← expect (.symbol .colon)
  let type ← grammar.type
  return ⟨name, type, position⟩

/-- The parameters of a method, after the opening parenthesis. -/
def params : m (List Param) :=
  listed (.symbol .comma) (.symbol .rightParen) grammar.param

/-- A method. -/
def method : m Method := do
  let token ← expect (.keyword .methodWord)
  let (name, _) ← name
  let params ← optional (.symbol .leftParen) grammar.params
  let result ← optional (.symbol .colon) grammar.type
  let _ ← expect (.keyword .isWord)
  let body ← statements grammar.statement
  let _ ← expect (.keyword .endWord)
  return ⟨name, params.getD [], result, body, token.position⟩

/-- A field or a method, with the semicolon that may follow it. -/
def member : m Member := do
  let token ← peek
  let member ←
    match token.kind with
    | .keyword .varWord => Member.field <$> binding grammar.expr
    | .keyword .methodWord => Member.method <$> grammar.method
    | _ => failExpecting "'var' or 'method'"
  skipIf (.symbol .semicolon)
  return member

/-- The statements run when an object is made, after the word `this`. -/
def initBlock : m (List Stmt) := do
  let _ ← expect (.keyword .isWord)
  let body ← statements grammar.statement
  let _ ← expect (.keyword .endWord)
  skipIf (.symbol .semicolon)
  return body

/-- A class, with the semicolon that may follow it. -/
def classDecl : m ClassDecl := do
  let token ← expect (.keyword .classWord)
  let (className, _) ← name
  let base ← optional (.keyword .extendsWord) (return (← name).1)
  let _ ← expect (.keyword .isWord)
  let init ← optional (.keyword .thisWord) grammar.initBlock
  let members ← manyUntil (· = .keyword .endWord) grammar.member
  let _ ← expect (.keyword .endWord)
  skipIf (.symbol .semicolon)
  return ⟨className, base, init.getD [], members, token.position⟩

/-- A program: classes up to the end of the text. -/
def program : m Program := do
  let classes ← manyUntil (· = .endOfFile) grammar.classDecl
  let _ ← expect .endOfFile
  return ⟨classes⟩

end Grammar

/-- The program that a list of tokens spells. -/
def Program.ofTokens (tokens : List Token) : Except Fault Program :=
  match (Grammar.outermost.program : Reading Program) (Reader.ofTokens tokens) with
  | .ok program _ => .ok program
  | .error fault _ => .error fault

/-- The program that a text spells. -/
def Program.ofText (text : String) : Except Fault Program := Program.ofTokens (Token.scan text)

end ClassLang
