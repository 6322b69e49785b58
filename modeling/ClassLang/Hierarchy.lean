import ClassLang.Syntax.Equality

/-! # The class hierarchy

The ancestors of a class are found by following bases. A base chain may run in a circle or end at a
name that no class has; a walk along it ends at the first name met before. -/

namespace ClassLang

/-- The classes of a pool that do not have a given name. -/
def withoutName (pool : List ClassDecl) (name : String) : List ClassDecl :=
  pool.filter (fun decl => decl.name ≠ name)

/-- Removing the name of a class in the pool shortens the pool. -/
theorem length_withoutName_lt {pool : List ClassDecl} {name : String} {decl : ClassDecl}
    (found : pool.find? (fun decl => decl.name = name) = some decl) :
    (withoutName pool name).length < pool.length := by
  have member := List.mem_of_find?_eq_some found
  have same : decl.name = name := by simpa using List.find?_some found
  exact List.length_filter_lt_length_iff_exists.mpr ⟨decl, member, by simp [same]⟩

/-- Classes met by following bases through a pool of classes. The names met are removed from the
pool, so that no class is met twice. -/
def ancestorsIn (pool : List ClassDecl) (base : Option String) : List ClassDecl :=
  match base with
  | none => []
  | some name =>
    match _found : pool.find? (fun decl => decl.name = name) with
    | none => []
    | some next => next :: ancestorsIn (withoutName pool name) next.base
termination_by pool.length
decreasing_by exact length_withoutName_lt (by assumption)

namespace Program

variable (program : Program)

/-- The ancestors of a class, nearest first. A class is not its own ancestor. -/
def ancestors (decl : ClassDecl) : List ClassDecl :=
  ancestorsIn (withoutName program.classes decl.name) decl.base

/-- The classes whose names are not among those visited. -/
def unvisited (visited : List String) : List ClassDecl :=
  program.classes.filter (fun decl => decl.name ∉ visited)

/-- A visit to a name that leads on leaves fewer classes unvisited. -/
theorem length_unvisited_cons {name : String} {visited : List String} (new : name ∉ visited) :
    (program.unvisited (name :: visited)).length +
      ((program.class? name).bind ClassDecl.base).isSome.toNat ≤ (program.unvisited visited).length := by
  have rest : program.unvisited (name :: visited) = withoutName (program.unvisited visited) name := by
    simp [unvisited, withoutName, List.filter_filter]
  rw [rest]
  cases found : program.class? name with
  | none => exact List.length_filter_le _ _
  | some decl =>
    have named : decl.name = name := by simpa using List.find?_some found
    have left : decl ∈ program.unvisited visited := by
      simp [unvisited, List.mem_of_find?_eq_some found, named, new]
    have fewer : (withoutName (program.unvisited visited) name).length < _ :=
      List.length_filter_lt_length_iff_exists.mpr ⟨decl, left, by simp [named]⟩
    have := Bool.toNat_le decl.base.isSome
    rw [Option.bind_some]
    omega

/-- Follow bases until the chain ends, comes to a name for the second time or comes to a given one. The
result is whether it came to the given name, and the names visited before. -/
def followBases (program : Program) (target : String) (visited : List String)
    (base : Option String) : Bool × List String :=
  match base with
  | none => (false, visited)
  | some name =>
    if name = target then (true, visited)
    else if name ∈ visited then (false, visited)
    else followBases program target (name :: visited) ((program.class? name).bind ClassDecl.base)
termination_by (program.unvisited visited).length + base.isSome.toNat
decreasing_by exact Nat.lt_succ_of_le (length_unvisited_cons program (by assumption))

/-- Whether following bases from a class leads back to it. -/
def inCycle (decl : ClassDecl) : Bool :=
  (program.followBases decl.name [] decl.base).1

/-- Whether a class has an ancestor with a field or a method of a given name. -/
def inherits (decl : ClassDecl) (name : String) : Bool :=
  (program.ancestors decl).any fun ancestor =>
    (ancestor.field? name).isSome || (ancestor.method? name).isSome

/-- The nearest method of an ancestor with a given name. -/
def overridden? (decl : ClassDecl) (name : String) : Option Method :=
  (program.ancestors decl).findSome? (fun ancestor => ancestor.method? name)

end Program

/-- Whether two result types are both absent or the same. -/
def sameResult : Option TypeRef → Option TypeRef → Bool
  | none, none => true
  | some first, some second => first.sameAs second
  | _, _ => false

/-- Whether two methods take and return the same types, positions left aside. -/
def Method.sameSignature (first second : Method) : Bool :=
  TypeRef.sameLists (first.params.map Param.type) (second.params.map Param.type) &&
    sameResult first.result second.result

end ClassLang
