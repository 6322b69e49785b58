import ClassLang.Position

/-! # Faults

What stops a program from being read or lowered: a cause and the place where it shows. -/

namespace ClassLang

/-- Why a program cannot be read or lowered. -/
inductive Cause where
  /-- A piece of text is no token. -/
  | lexical (complaint : String)
  /-- The text ends too early. -/
  | unexpectedEnd
  /-- A token stands where something else is needed. -/
  | unexpectedToken (found expected : String)
  /-- An operator has no right operand on its line. -/
  | incompleteBinary (operator : String)
  /-- Constructs are nested beyond the limit. -/
  | tooDeep
  /-- A call that has no lowering. -/
  | unsupportedCall (callee : String)
  /-- A literal that denotes no value. -/
  | invalidLiteral (text : String)
  /-- A member access that has no lowering. -/
  | unsupportedMember (access : String)
  /-- A name that is neither a local nor a field. -/
  | unknownIdentifier (name : String)
  /-- An assignment to something other than a name. -/
  | invalidAssignTarget
  /-- An exit that no loop encloses. -/
  | breakOutsideLoop
  deriving DecidableEq, Repr

/-- What is said of a cause. -/
def Cause.message : Cause → String
  | lexical complaint => complaint
  | unexpectedEnd => "Unexpected end of file"
  | unexpectedToken found expected => "Unexpected token " ++ found ++ ", expected " ++ expected
  | incompleteBinary operator =>
    "Incomplete binary expression: expected right operand after '" ++ operator ++ "'"
  | tooDeep => "Nesting is too deep"
  | unsupportedCall callee => "Unsupported call: " ++ callee
  | invalidLiteral text => "Invalid literal: " ++ text
  | unsupportedMember access => "Unsupported member access: " ++ access
  | unknownIdentifier name => "Unknown identifier: " ++ name
  | invalidAssignTarget => "Invalid assignment target"
  | breakOutsideLoop => "Break statement outside of loop"

/-- A cause and the place where it shows. -/
structure Fault where
  /-- Why the program is refused. -/
  cause : Cause
  /-- Where the cause shows. -/
  position : Position
  deriving DecidableEq, Repr

/-- A message with the place it is about. -/
def Position.locate (position : Position) (message : String) : String :=
  "[Line " ++ position.display ++ "] " ++ message

namespace Fault

/-- What is said of a fault. -/
def message (fault : Fault) : String := fault.cause.message

/-- What is said of a fault, with its place. -/
def located (fault : Fault) : String := fault.position.locate fault.message

end Fault

end ClassLang
