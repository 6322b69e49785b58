import ClassLang.Builtin
import ClassLang.Lowering.Locals
import ClassLang.Syntax

/-! # Frames

A frame is what an expression is lowered against: the program, the class around it and the variables
in scope. It tells where the value of a name is stored, and what kind of value an expression has as
far as that can be told. -/

namespace ClassLang

/-! ## Kinds of value -/

/-- The kinds of value that fit into one word. -/
inductive Scalar where
  | int
  | real
  | bool
  deriving DecidableEq, Repr

namespace Scalar

/-- The kind of value that a type holds. -/
def ofTypeName? (name : String) : Option Scalar :=
  match BuiltinType.ofName? name with
  | some .integer => some int
  | some .real => some real
  | some .boolean => some bool
  | _ => none

/-- The kind of value that a type holds; a type that is applied to others holds none. -/
def ofType? (type : TypeRef) : Option Scalar :=
  if type.arguments.isEmpty then ofTypeName? type.name else none

/-- The kind of a literal. -/
def ofLiteral? : Expr → Option Scalar
  | .int _ _ => some int
  | .real _ _ => some real
  | .bool _ _ => some bool
  | _ => none

/-- The kind of an arithmetic result: real if an operand is, integer if both are. -/
def promote : Option Scalar → Option Scalar → Option Scalar
  | some real, _ => some real
  | _, some real => some real
  | some int, some int => some int
  | _, _ => none

end Scalar

/-! ## Fields -/

/-- The first field of a name in a class or the classes that it extends, with its class; `budget`
bounds the number of classes, since bases may run in a circle. -/
def Program.findField (program : Program) (name : String) :
    (budget : Nat) → ClassDecl → Option (ClassDecl × Field)
  | 0, _ => none
  | budget + 1, decl =>
    match decl.field? name with
    | some field => some (decl, field)
    | none =>
      match decl.base.bind program.class? with
      | some base => program.findField name budget base
      | none => none

/-- The field that a name means in a class: its own, or that of the nearest class it extends. -/
def Program.fieldOf? (program : Program) (decl : ClassDecl) (name : String) :
    Option (ClassDecl × Field) :=
  program.findField name (program.classes.length + 1) decl

/-! ## Frames -/

/-- What an expression is lowered against. -/
structure Frame where
  /-- The whole program. -/
  program : Program
  /-- The class around the expression. -/
  decl : ClassDecl
  /-- The variables of the method, with the kinds known of them. -/
  locals : Locals (Option Scalar)

/-- Where the value of a name is stored. -/
inductive Storage where
  /-- In a slot of the method. -/
  | slot (slot : Nat)
  /-- In a field that a class declares. -/
  | field (owner : String)
  deriving DecidableEq, Repr

namespace Frame

/-- The name of the class whose field a name means. -/
def owner? (frame : Frame) (name : String) : Option String :=
  (frame.program.fieldOf? frame.decl name).map fun found => found.1.name

/-- Where the value of a name is stored: variables come before fields. -/
def storage? (frame : Frame) (name : String) : Option Storage :=
  match frame.locals.lookup name with
  | some found => some (.slot found.slot)
  | none => (frame.owner? name).map .field

/-- The kind of value that a name stands for. A field has the kind of its initial literal. -/
def kindOfName (frame : Frame) (name : String) : Option Scalar :=
  match frame.locals.lookup name with
  | some found => found.info
  | none =>
    match frame.program.fieldOf? frame.decl name with
    | some (_, field) => Scalar.ofLiteral? field.init
    | none => none

/-- The kind of an operation's result, given the kinds of its receiver and its first argument. -/
def kindOfOperation (operation : Operation) (receiver argument : Option Scalar) : Option Scalar :=
  if operation.isArithmetic then Scalar.promote receiver argument
  else match operation with
    | .and | .or | .xor => receiver
    | .toInteger => some .int
    | .toReal => some .real
    | _ => some .bool

/-- The kind of value of an expression, as far as it can be told. -/
def kindOf (frame : Frame) : Expr → Option Scalar
  | .int _ _ => some .int
  | .real _ _ => some .real
  | .bool _ _ => some .bool
  | .ident name _ _ => frame.kindOfName name
  | .binary op left right _ =>
    if op.isComparison then some .bool
    else Scalar.promote (frame.kindOf left) (frame.kindOf right)
  | .call (.ident name _ _) _ _ => Scalar.ofTypeName? name
  | .call (.member receiver name _) [] _ =>
    match Operation.ofName? name with
    | some operation => kindOfOperation operation (frame.kindOf receiver) none
    | none => none
  | .call (.member receiver name _) (argument :: _) _ =>
    match Operation.ofName? name with
    | some operation => kindOfOperation operation (frame.kindOf receiver) (frame.kindOf argument)
    | none => none
  | _ => none

end Frame

end ClassLang
