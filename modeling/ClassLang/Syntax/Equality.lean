import ClassLang.Syntax

/-! # Equality of syntax trees

Equality of trees, positions included, is decidable. Types also have a coarser relation that leaves
positions aside. -/

namespace ClassLang

/-! ## Types -/

namespace TypeRef

mutual

/-- Whether two types are equal, positions included. -/
def equal (first second : TypeRef) : Bool :=
  match first, second with
  | ⟨name, arguments, position⟩, ⟨name', arguments', position'⟩ =>
    name == name' && equalLists arguments arguments' && position == position'

/-- Whether two lists of types are equal, positions included. -/
def equalLists : List TypeRef → List TypeRef → Bool
  | [], [] => true
  | first :: rest, second :: rest' => equal first second && equalLists rest rest'
  | _, _ => false

end

mutual

/-- The equality test on types decides equality. -/
theorem equal_iff (first second : TypeRef) :
    equal first second = true ↔ first = second := by
  cases first with
  | mk name arguments position =>
    cases second
    simp [equal, equalLists_iff arguments, and_assoc]

/-- The equality test on lists of types decides equality. -/
theorem equalLists_iff (first second : List TypeRef) :
    equalLists first second = true ↔ first = second := by
  cases first with
  | nil => cases second <;> simp [equalLists]
  | cons head tail =>
    cases second with
    | nil => simp [equalLists]
    | cons => simp [equalLists, equal_iff head, equalLists_iff tail]

end

instance : DecidableEq TypeRef := fun first second =>
  decidable_of_iff _ (equal_iff first second)

mutual

/-- Whether two types are the same apart from positions. -/
def sameAs (first second : TypeRef) : Bool :=
  match first, second with
  | ⟨name, arguments, _⟩, ⟨name', arguments', _⟩ =>
    name == name' && sameLists arguments arguments'

/-- Whether two lists of types are the same apart from positions. -/
def sameLists : List TypeRef → List TypeRef → Bool
  | [], [] => true
  | first :: rest, second :: rest' => sameAs first second && sameLists rest rest'
  | _, _ => false

end

end TypeRef

/-! ## Expressions -/

namespace Expr

mutual

/-- Whether two expressions are equal, positions included. -/
def equal : Expr → Expr → Bool
  | .ident name arguments position, .ident name' arguments' position' =>
    name == name' && arguments == arguments' && position == position'
  | .self position, .self position' => position == position'
  | .int text position, .int text' position' => text == text' && position == position'
  | .real text position, .real text' position' => text == text' && position == position'
  | .bool value position, .bool value' position' => value == value' && position == position'
  | .binary op left right position, .binary op' left' right' position' =>
    op == op' && equal left left' && equal right right' && position == position'
  | .member target name position, .member target' name' position' =>
    equal target target' && name == name' && position == position'
  | .call callee arguments position, .call callee' arguments' position' =>
    equal callee callee' && equalLists arguments arguments' && position == position'
  | _, _ => false

/-- Whether two lists of expressions are equal, positions included. -/
def equalLists : List Expr → List Expr → Bool
  | [], [] => true
  | first :: rest, second :: rest' => equal first second && equalLists rest rest'
  | _, _ => false

end

mutual

/-- The equality test on expressions decides equality. -/
theorem equal_iff (first second : Expr) : equal first second = true ↔ first = second := by
  cases first with
  | binary op left right position =>
    cases second <;>
      simp [equal, equal_iff left, equal_iff right, and_assoc]
  | member target name position =>
    cases second <;> simp [equal, equal_iff target, and_assoc]
  | call callee arguments position =>
    cases second <;>
      simp [equal, equal_iff callee, equalLists_iff arguments, and_assoc]
  | _ => cases second <;> simp [equal, and_assoc]

/-- The equality test on lists of expressions decides equality. -/
theorem equalLists_iff (first second : List Expr) :
    equalLists first second = true ↔ first = second := by
  cases first with
  | nil => cases second <;> simp [equalLists]
  | cons head tail =>
    cases second with
    | nil => simp [equalLists]
    | cons => simp [equalLists, equal_iff head, equalLists_iff tail]

end

instance : DecidableEq Expr := fun first second =>
  decidable_of_iff _ (equal_iff first second)

end Expr

/-! ## Statements -/

namespace Stmt

mutual

/-- Whether two statements are equal, positions included. -/
def equal : Stmt → Stmt → Bool
  | .declare name init position, .declare name' init' position' =>
    name == name' && init == init' && position == position'
  | .assign target value position, .assign target' value' position' =>
    target == target' && value == value' && position == position'
  | .branch test body (some alternative) position, .branch test' body' (some alternative') position' =>
    test == test' && equalLists body body' && equalLists alternative alternative' &&
      position == position'
  | .branch test body none position, .branch test' body' none position' =>
    test == test' && equalLists body body' && position == position'
  | .loop test body position, .loop test' body' position' =>
    test == test' && equalLists body body' && position == position'
  | .ret value position, .ret value' position' => value == value' && position == position'
  | .leave position, .leave position' => position == position'
  | .eval value position, .eval value' position' => value == value' && position == position'
  | _, _ => false

/-- Whether two lists of statements are equal, positions included. -/
def equalLists : List Stmt → List Stmt → Bool
  | [], [] => true
  | first :: rest, second :: rest' => equal first second && equalLists rest rest'
  | _, _ => false

end

mutual

/-- The equality test on statements decides equality. -/
theorem equal_iff (first second : Stmt) : equal first second = true ↔ first = second := by
  cases first with
  | branch test body alternative position =>
    cases alternative with
    | none =>
      cases second with
      | branch _ _ other _ =>
        cases other <;> simp [equal, equalLists_iff body, and_assoc]
      | _ => simp [equal]
    | some otherwise =>
      cases second with
      | branch _ _ other _ =>
        cases other <;>
          simp [equal, equalLists_iff body, equalLists_iff otherwise, and_assoc]
      | _ => simp [equal]
  | loop test body position =>
    cases second <;> simp [equal, equalLists_iff body, and_assoc]
  | _ => cases second <;> simp [equal, and_assoc]

/-- The equality test on lists of statements decides equality. -/
theorem equalLists_iff (first second : List Stmt) :
    equalLists first second = true ↔ first = second := by
  cases first with
  | nil => cases second <;> simp [equalLists]
  | cons head tail =>
    cases second with
    | nil => simp [equalLists]
    | cons => simp [equalLists, equal_iff head, equalLists_iff tail]

end

instance : DecidableEq Stmt := fun first second =>
  decidable_of_iff _ (equal_iff first second)

end Stmt

/-! ## Declarations -/

deriving instance DecidableEq for Field, Param, Method, Member, ClassDecl, Program

end ClassLang
