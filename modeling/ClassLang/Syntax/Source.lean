import ClassLang.Syntax

/-! # Source text of a tree

Every tree has a source text. Blocks are indented by four blanks a level, one statement a line, and
each binary operation stands in parentheses. -/

namespace ClassLang

/-- Texts joined by a comma and a blank. -/
def commaSeparated (texts : List String) : String := ", ".intercalate texts

/-! ## Types and expressions -/

mutual

/-- The source text of a type. -/
def TypeRef.source : TypeRef → String
  | ⟨name, [], _⟩ => name
  | ⟨name, first :: rest, _⟩ =>
    name ++ "[" ++ commaSeparated (first.source :: TypeRef.sources rest) ++ "]"

/-- The source texts of types. -/
def TypeRef.sources : List TypeRef → List String
  | [] => []
  | type :: rest => type.source :: TypeRef.sources rest

end

/-- The source text of the types that a name is applied to. -/
def TypeRef.argumentsSource (arguments : List TypeRef) : String :=
  if arguments.isEmpty then "" else "[" ++ commaSeparated (TypeRef.sources arguments) ++ "]"

/-- The source text of a truth value. -/
def boolSource (value : Bool) : String := if value then "true" else "false"

mutual

/-- The source text of an expression. -/
def Expr.source : Expr → String
  | .ident name arguments _ => name ++ TypeRef.argumentsSource arguments
  | .self _ => "this"
  | .int text _ => text
  | .real text _ => text
  | .bool value _ => boolSource value
  | .binary op left right _ =>
    "(" ++ left.source ++ " " ++ op.symbol.spelling ++ " " ++ right.source ++ ")"
  | .member target name _ => target.source ++ "." ++ name
  | .call callee arguments _ =>
    callee.source ++ "(" ++ commaSeparated (Expr.sources arguments) ++ ")"

/-- The source texts of expressions. -/
def Expr.sources : List Expr → List String
  | [] => []
  | expr :: rest => expr.source :: Expr.sources rest

end

/-! ## Statements -/

/-- The blanks before a line at a depth. -/
def indentation (depth : Nat) : String := String.ofList (List.replicate (4 * depth) ' ')

/-- A line at a depth. -/
def indented (depth : Nat) (text : String) : String := indentation depth ++ text ++ "\n"

mutual

/-- The source text of a statement at a depth. -/
def Stmt.source (depth : Nat) : Stmt → String
  | .declare name init _ => indented depth ("var " ++ name ++ " : " ++ init.source)
  | .assign target value _ => indented depth (target.source ++ " := " ++ value.source)
  | .branch test body none _ =>
    indented depth ("if " ++ test.source ++ " then") ++ Stmt.blockSource (depth + 1) body ++
      indented depth "end"
  | .branch test body (some alternative) _ =>
    indented depth ("if " ++ test.source ++ " then") ++ Stmt.blockSource (depth + 1) body ++
      indented depth "else" ++ Stmt.blockSource (depth + 1) alternative ++ indented depth "end"
  | .loop test body _ =>
    indented depth ("while " ++ test.source ++ " loop") ++ Stmt.blockSource (depth + 1) body ++
      indented depth "end"
  | .ret value _ => indented depth ("return " ++ value.source)
  | .leave _ => indented depth "break"
  | .eval value _ => indented depth value.source

/-- The source text of statements at a depth. -/
def Stmt.blockSource (depth : Nat) : List Stmt → String
  | [] => ""
  | stmt :: rest => stmt.source depth ++ Stmt.blockSource depth rest

end

/-! ## Declarations -/

/-- The source text of a parameter. -/
def Param.source (param : Param) : String := param.name ++ " : " ++ param.type.source

/-- The source text of a field. -/
def Field.source (field : Field) : String :=
  indented 1 ("var " ++ field.name ++ " : " ++ field.init.source)

/-- The first line of a method. -/
def Method.header (method : Method) : String :=
  let params :=
    if method.params.isEmpty then ""
    else "(" ++ commaSeparated (method.params.map Param.source) ++ ")"
  let result :=
    match method.result with
    | some type => " : " ++ type.source
    | none => ""
  "method " ++ method.name ++ params ++ result ++ " is"

/-- The source text of a method. -/
def Method.source (method : Method) : String :=
  indented 1 method.header ++ Stmt.blockSource 2 method.body ++ indented 1 "end"

/-- The source text of a member. -/
def Member.source : Member → String
  | .field decl => decl.source
  | .method decl => decl.source

/-- The source text of a class. The statements run when an object is made are left out if there are
none. -/
def ClassDecl.source (decl : ClassDecl) : String :=
  let base :=
    match decl.base with
    | some base => " extends " ++ base
    | none => ""
  let init :=
    if decl.init.isEmpty then ""
    else indented 1 "this is" ++ Stmt.blockSource 2 decl.init ++ indented 1 "end"
  indented 0 ("class " ++ decl.name ++ base ++ " is") ++ init ++
    String.join (decl.members.map Member.source) ++ indented 0 "end"

/-- The source text of a program: its classes with an empty line between them. -/
def Program.source (program : Program) : String :=
  "\n".intercalate (program.classes.map ClassDecl.source)

end ClassLang
