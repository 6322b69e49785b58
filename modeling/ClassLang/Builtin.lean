/-! # Built-in names

Types and operations that every program knows without a declaration. -/

namespace ClassLang

/-- The name of the routine that writes a value out. -/
def writeRoutine : String := "write"

/-- The built-in types. -/
inductive BuiltinType where
  | integer
  | real
  | boolean
  | array
  | list
  | anyValue
  | anyRef
  deriving DecidableEq, Repr

namespace BuiltinType

/-- The name of a built-in type. -/
def name : BuiltinType → String
  | integer => "Integer"
  | real => "Real"
  | boolean => "Boolean"
  | array => "Array"
  | list => "List"
  | anyValue => "AnyValue"
  | anyRef => "AnyRef"

/-- All built-in types. -/
def all : List BuiltinType := [integer, real, boolean, array, list, anyValue, anyRef]

/-- The built-in type of a given name. -/
def ofName? (name : String) : Option BuiltinType := all.find? (fun type => type.name = name)

/-- The number of types that a built-in type is applied to. -/
def arity : BuiltinType → Nat
  | array | list => 1
  | _ => 0

/-- Whether values of a built-in type fit into one word of the machine. -/
def isScalar : BuiltinType → Bool
  | integer | real | boolean => true
  | _ => false

/-- A built-in type is found by its name. -/
@[simp] theorem ofName?_name (type : BuiltinType) : ofName? type.name = some type := by
  cases type <;> decide

end BuiltinType

/-- The built-in operations, called as members of a value. -/
inductive Operation where
  | plus
  | minus
  | mult
  | div
  | rem
  | equal
  | greater
  | less
  | greaterEqual
  | lessEqual
  | and
  | or
  | xor
  | not
  | toInteger
  | toReal
  | toBoolean
  deriving DecidableEq, Repr

namespace Operation

/-- The name of an operation. -/
def name : Operation → String
  | plus => "Plus"
  | minus => "Minus"
  | mult => "Mult"
  | div => "Div"
  | rem => "Rem"
  | equal => "Equal"
  | greater => "Greater"
  | less => "Less"
  | greaterEqual => "GreaterEqual"
  | lessEqual => "LessEqual"
  | and => "And"
  | or => "Or"
  | xor => "Xor"
  | not => "Not"
  | toInteger => "toInteger"
  | toReal => "toReal"
  | toBoolean => "toBoolean"

/-- All operations. -/
def all : List Operation :=
  [plus, minus, mult, div, rem, equal, greater, less, greaterEqual, lessEqual, and, or, xor, not,
   toInteger, toReal, toBoolean]

/-- The operation of a given name. -/
def ofName? (name : String) : Option Operation := all.find? (fun operation => operation.name = name)

/-- The number of arguments besides the value itself. -/
def arity : Operation → Nat
  | not | toInteger | toReal | toBoolean => 0
  | _ => 1

/-- Whether an operation computes a number from two numbers. -/
def isArithmetic : Operation → Bool
  | plus | minus | mult | div | rem => true
  | _ => false

end Operation

end ClassLang
