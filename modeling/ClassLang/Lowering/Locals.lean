/-! # Local variables

Slots for the parameters and variables of one method. Every declaration takes a new slot and is
visible until its scope is left; the scope of the parameters is never left. -/

namespace ClassLang

/-- A variable: its slot and what is known about it. -/
structure Local (ι : Type) where
  /-- The slot of the variable. -/
  slot : Nat
  /-- What is known about it. -/
  info : ι
  deriving DecidableEq, Repr

/-- The variables of one method. -/
structure Locals (ι : Type) where
  /-- The name of the variable in each slot. -/
  names : List String
  /-- The variables of each open scope, innermost first. -/
  scopes : List (List (String × Local ι))
  deriving DecidableEq, Repr

namespace Locals

variable {ι : Type}

/-- One scope without variables. -/
def empty : Locals ι := ⟨[], [[]]⟩

variable (locals : Locals ι)

/-- Open a scope. -/
def enter : Locals ι := { locals with scopes := [] :: locals.scopes }

/-- Close the innermost scope, unless it is the only one. -/
def exit : Locals ι :=
  match locals.scopes with
  | _ :: outer :: rest => { locals with scopes := outer :: rest }
  | _ => locals

/-- The slot that the next declaration takes. -/
def nextSlot : Nat := locals.names.length

/-- Declare a variable in the innermost scope. -/
def declare (name : String) (info : ι) : Locals ι :=
  { names := locals.names ++ [name]
    scopes :=
      match locals.scopes with
      | [] => []
      | scope :: outer => ((name, ⟨locals.nextSlot, info⟩) :: scope) :: outer }

/-- The variables of a method with given parameters. -/
def ofParams (params : List (String × ι)) : Locals ι :=
  params.foldl (fun locals param => locals.declare param.1 param.2) empty

/-- The innermost and latest variable of a name. -/
def lookup (locals : Locals ι) (name : String) : Option (Local ι) :=
  locals.scopes.findSome? (List.lookup name)

end Locals

end ClassLang
