import ClassLang.Position

/-! # Scopes

A stack of scopes, innermost first. Each scope maps names to declarations, and a parallel stack maps
names to the types found for them. Counters record how many scopes were opened and closed and how
many were open at once. -/

namespace ClassLang

/-- What a name is declared as. -/
inductive Role where
  | classRole
  | methodRole
  | parameterRole
  | variableRole
  deriving DecidableEq, Repr

/-- A declaration: what it declares and where. -/
structure Declaration where
  /-- What the name is declared as. -/
  role : Role
  /-- Where it is declared. -/
  position : Position
  deriving DecidableEq, Repr

/-- A stack of scopes with the types found in them. -/
structure Scopes where
  /-- The declarations of each open scope, innermost first. -/
  declarations : List (List (String × Declaration)) := []
  /-- The types found in each open scope, innermost first. -/
  types : List (List (String × String)) := []
  /-- How many scopes were opened. -/
  entered : Nat := 0
  /-- How many scopes were closed. -/
  exited : Nat := 0
  /-- How many scopes were open at once. -/
  maxDepth : Nat := 0
  deriving DecidableEq, Repr

namespace Scopes

variable (scopes : Scopes)

/-- Open a scope. -/
def enter : Scopes :=
  { declarations := [] :: scopes.declarations
    types := [] :: scopes.types
    entered := scopes.entered + 1
    exited := scopes.exited
    maxDepth := max scopes.maxDepth (scopes.declarations.length + 1) }

/-- Close the innermost scope, if one is open. -/
def exit : Scopes :=
  match scopes.declarations with
  | [] => scopes
  | _ :: outer =>
    { scopes with
      declarations := outer
      types := scopes.types.tail
      exited := scopes.exited + 1 }

/-- Declare a name in the innermost scope; there is no result if no scope is open or the name is
taken in it. -/
def declare? (name : String) (declaration : Declaration) : Option Scopes :=
  match scopes.declarations with
  | [] => none
  | scope :: outer =>
    if (scope.lookup name).isSome then none
    else some { scopes with declarations := ((name, declaration) :: scope) :: outer }

/-- The innermost declaration of a name. -/
def lookup (scopes : Scopes) (name : String) : Option Declaration :=
  scopes.declarations.findSome? (List.lookup name)

/-- Record the type found for a name in the innermost scope. -/
def setType (name type : String) : Scopes :=
  match scopes.types with
  | [] => scopes
  | scope :: outer => { scopes with types := ((name, type) :: scope) :: outer }

/-- The innermost type found for a name. -/
def typeOf (name : String) : Option String :=
  scopes.types.findSome? (List.lookup name)

end Scopes

end ClassLang
