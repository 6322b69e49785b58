import ClassLang.Token

/-! # Syntax trees

Programs as trees: classes with fields and methods, statements, expressions and types. Every node
carries the position of its first token. Literals keep the text they were written with. -/

namespace ClassLang

/-- A reference to a type: its name and the types it is applied to. -/
structure TypeRef where
  /-- The name of the type. -/
  name : String
  /-- The types it is applied to. -/
  arguments : List TypeRef
  /-- Where the reference starts. -/
  position : Position
  deriving Repr

/-- The binary operators. -/
inductive BinaryOp where
  | add
  | sub
  | mul
  | div
  | gt
  | lt
  | ge
  | le
  | eq
  | ne
  deriving DecidableEq, Repr

namespace BinaryOp

/-- The symbol of an operator. -/
def symbol : BinaryOp → Symbol
  | add => .plus
  | sub => .minus
  | mul => .star
  | div => .slash
  | gt => .greater
  | lt => .less
  | ge => .greaterEqual
  | le => .lessEqual
  | eq => .equal
  | ne => .notEqual

/-- The operator that a kind of token stands for. -/
def ofKind? : Kind → Option BinaryOp
  | .symbol .plus => some add
  | .symbol .minus => some sub
  | .symbol .star => some mul
  | .symbol .slash => some div
  | .symbol .greater => some gt
  | .symbol .less => some lt
  | .symbol .greaterEqual => some ge
  | .symbol .lessEqual => some le
  | .symbol .equal => some eq
  | .symbol .notEqual => some ne
  | _ => none

/-- Whether an operator computes a number. -/
def isArithmetic : BinaryOp → Bool
  | add | sub | mul | div => true
  | _ => false

/-- Whether an operator compares its operands. -/
def isComparison (op : BinaryOp) : Bool := !op.isArithmetic

/-- How tightly an operator binds: products before sums before comparisons. -/
def precedence : BinaryOp → Nat
  | mul | div => 3
  | add | sub => 2
  | _ => 1

/-- An operator is found by the kind of its symbol. -/
@[simp] theorem ofKind?_symbol (op : BinaryOp) : ofKind? (.symbol op.symbol) = some op := by
  cases op <;> rfl

/-- Only the symbol of an operator stands for it. -/
theorem eq_of_ofKind? {kind : Kind} {op : BinaryOp} (found : ofKind? kind = some op) :
    kind = .symbol op.symbol := by
  unfold ofKind? at found
  split at found <;> simp_all [symbol] <;> subst found <;> rfl

end BinaryOp

/-- Expressions. -/
inductive Expr where
  /-- A name, possibly applied to types. -/
  | ident (name : String) (arguments : List TypeRef) (position : Position)
  /-- The current object. -/
  | self (position : Position)
  /-- An integer literal. -/
  | int (text : String) (position : Position)
  /-- A real literal. -/
  | real (text : String) (position : Position)
  /-- A boolean literal. -/
  | bool (value : Bool) (position : Position)
  /-- A binary operation. -/
  | binary (op : BinaryOp) (left right : Expr) (position : Position)
  /-- A member of an object. -/
  | member (target : Expr) (name : String) (position : Position)
  /-- A call. -/
  | call (callee : Expr) (arguments : List Expr) (position : Position)
  deriving Repr

/-- Where an expression starts. -/
def Expr.position : Expr → Position
  | .ident _ _ position => position
  | .self position => position
  | .int _ position => position
  | .real _ position => position
  | .bool _ position => position
  | .binary _ _ _ position => position
  | .member _ _ position => position
  | .call _ _ position => position

/-- The value of a boolean literal. -/
def Expr.asBool? : Expr → Option Bool
  | .bool value _ => some value
  | _ => none

/-- Statements. -/
inductive Stmt where
  /-- A declaration of a local variable. -/
  | declare (name : String) (init : Expr) (position : Position)
  /-- An assignment. -/
  | assign (target value : Expr) (position : Position)
  /-- A conditional, with or without an alternative. -/
  | branch (test : Expr) (body : List Stmt) (alternative : Option (List Stmt)) (position : Position)
  /-- A loop. -/
  | loop (test : Expr) (body : List Stmt) (position : Position)
  /-- A return from a method. -/
  | ret (value : Expr) (position : Position)
  /-- An exit from the innermost loop. -/
  | leave (position : Position)
  /-- An expression evaluated for its effect. -/
  | eval (value : Expr) (position : Position)
  deriving Repr

/-- Where a statement starts. -/
def Stmt.position : Stmt → Position
  | .declare _ _ position => position
  | .assign _ _ position => position
  | .branch _ _ _ position => position
  | .loop _ _ position => position
  | .ret _ position => position
  | .leave position => position
  | .eval _ position => position

/-- A field with its initial value. -/
structure Field where
  /-- The name of the field. -/
  name : String
  /-- Its initial value. -/
  init : Expr
  /-- Where the declaration starts. -/
  position : Position
  deriving Repr

/-- A parameter of a method. -/
structure Param where
  /-- The name of the parameter. -/
  name : String
  /-- Its declared type. -/
  type : TypeRef
  /-- Where the parameter starts. -/
  position : Position
  deriving Repr

/-- A method. -/
structure Method where
  /-- The name of the method. -/
  name : String
  /-- Its parameters in order. -/
  params : List Param
  /-- The type of its result, if it has one. -/
  result : Option TypeRef
  /-- Its statements. -/
  body : List Stmt
  /-- Where the declaration starts. -/
  position : Position
  deriving Repr

/-- A member of a class. -/
inductive Member where
  | field (decl : Field)
  | method (decl : Method)
  deriving Repr

/-- A class. -/
structure ClassDecl where
  /-- The name of the class. -/
  name : String
  /-- The name of the class it extends. -/
  base : Option String
  /-- The statements run when an object is made. -/
  init : List Stmt
  /-- Fields and methods in the order of their declarations. -/
  members : List Member
  /-- Where the declaration starts. -/
  position : Position
  deriving Repr

namespace ClassDecl

/-- The fields of a class in order. -/
def fields (decl : ClassDecl) : List Field :=
  decl.members.filterMap fun
    | .field field => some field
    | .method _ => none

/-- The methods of a class in order. -/
def methods (decl : ClassDecl) : List Method :=
  decl.members.filterMap fun
    | .method method => some method
    | .field _ => none

/-- The fields of a class are the members that are fields. -/
theorem mem_fields {decl : ClassDecl} {field : Field} :
    field ∈ decl.fields ↔ .field field ∈ decl.members := by
  rw [fields, List.mem_filterMap]
  constructor
  · rintro ⟨⟨⟩, owned, ⟨⟩⟩
    exact owned
  · exact fun owned => ⟨_, owned, rfl⟩

/-- The methods of a class are the members that are methods. -/
theorem mem_methods {decl : ClassDecl} {method : Method} :
    method ∈ decl.methods ↔ .method method ∈ decl.members := by
  rw [methods, List.mem_filterMap]
  constructor
  · rintro ⟨⟨⟩, owned, ⟨⟩⟩
    exact owned
  · exact fun owned => ⟨_, owned, rfl⟩

/-- The first field of a given name. -/
def field? (decl : ClassDecl) (name : String) : Option Field :=
  decl.fields.find? (fun field => field.name = name)

/-- The first method of a given name. -/
def method? (decl : ClassDecl) (name : String) : Option Method :=
  decl.methods.find? (fun method => method.name = name)

end ClassDecl

/-- A program is a sequence of classes. -/
structure Program where
  /-- The classes in the order of their declarations. -/
  classes : List ClassDecl
  deriving Repr

/-- The first class of a given name. -/
def Program.class? (program : Program) (name : String) : Option ClassDecl :=
  program.classes.find? (fun decl => decl.name = name)

end ClassLang
