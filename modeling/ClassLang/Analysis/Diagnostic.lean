import ClassLang.Fault

/-! # Diagnostics

What the analysis has to say about a program: a finding and the place it is about. Findings are
errors or warnings; both keep a program from being lowered. -/

namespace ClassLang

/-- How grave a finding is. -/
inductive Severity where
  | error
  | warning
  deriving DecidableEq, Repr

/-- What is wrong or dubious about a program. -/
inductive Finding where
  | duplicateClass (name : String)
  | duplicateField (name : String)
  | duplicateMethod (name : String)
  | duplicateParameter (name : String)
  | duplicateVariable (name : String)
  | undeclared (name : String)
  | extendsItself (name : String)
  | baseNotFound (name : String)
  | cyclicInheritance (name : String)
  | unknownType (name : String)
  | missingTypeArgument (name : String)
  | extraTypeArguments (name : String)
  | differentSignature (method : String)
  | badAssignTarget
  | typeMismatch (name expected found : String)
  | returnOutsideMethod
  | breakOutsideLoop
  | alwaysTrue
  | alwaysFalse
  | emptyLoop
  | infiniteLoop
  | loopNeverRuns
  deriving DecidableEq, Repr

namespace Finding

/-- Dubious tests and loops are warnings, all else is an error. -/
def severity : Finding → Severity
  | alwaysTrue | alwaysFalse | emptyLoop | infiniteLoop | loopNeverRuns => .warning
  | _ => .error

/-- What is said of a finding. -/
def message : Finding → String
  | duplicateClass name => "Duplicate class declaration: " ++ name
  | duplicateField name => "Duplicate field declaration: " ++ name
  | duplicateMethod name => "Duplicate method declaration: " ++ name
  | duplicateParameter name => "Duplicate parameter declaration: " ++ name
  | duplicateVariable name => "Duplicate variable declaration: " ++ name
  | undeclared name => "Undeclared identifier: " ++ name
  | extendsItself name => "Class cannot extend itself: " ++ name
  | baseNotFound name => "Base class not found: " ++ name
  | cyclicInheritance name => "Cyclic inheritance detected involving class: " ++ name
  | unknownType name => "Unknown type: " ++ name
  | missingTypeArgument name => "Type " ++ name ++ " requires exactly one generic argument"
  | extraTypeArguments name => "Type " ++ name ++ " does not take generic arguments"
  | differentSignature method =>
    "Method " ++ method ++ " overrides base method with a different signature"
  | badAssignTarget => "Assignment target must be an identifier"
  | typeMismatch name expected found =>
    "Type mismatch in assignment to " ++ name ++ ": expected " ++ expected ++ ", found " ++ found
  | returnOutsideMethod => "Return statement outside of method"
  | breakOutsideLoop => "Break statement outside of loop"
  | alwaysTrue => "Condition is always true, simplify"
  | alwaysFalse => "Condition is always false, dead code"
  | emptyLoop => "While loop has an empty body"
  | infiniteLoop => "Infinite loop detected: while(true) without break"
  | loopNeverRuns => "While loop condition is always false, loop never executes"

end Finding

/-- A finding and the place it is about. -/
structure Diagnostic where
  /-- What was found. -/
  finding : Finding
  /-- Where it was found. -/
  position : Position
  deriving DecidableEq, Repr

namespace Diagnostic

/-- How grave a diagnostic is. -/
def severity (diagnostic : Diagnostic) : Severity := diagnostic.finding.severity

/-- What is said of a diagnostic. -/
def message (diagnostic : Diagnostic) : String := diagnostic.finding.message

/-- What is said of a diagnostic, with its place. -/
def located (diagnostic : Diagnostic) : String := diagnostic.position.locate diagnostic.message

end Diagnostic

end ClassLang
