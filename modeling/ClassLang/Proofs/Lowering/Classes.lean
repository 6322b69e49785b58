import ClassLang.Lowering
import ClassLang.Proofs.Lowering.Expr
import Mathlib.Data.List.Forall2

/-! # Code of classes

The code of a program is the code of its classes in their order, and the code of a class that of its
methods. What a class shows of itself to others is known from its declaration alone. -/

namespace ClassLang

open List

variable {program : Program} {classes : List ClassDecl} {methods : List Method}

/-- What is related to lists in order is related to each of their members. -/
theorem exists_of_forall₂ {α β : Type} {relation : α → β → Prop} {first : List α} {second : List β}
    (all : Forall₂ relation first second) {item : α} (mem : item ∈ first) :
    ∃ other ∈ second, relation item other := by
  induction all with
  | nil => cases mem
  | cons here _ ih =>
    rcases mem_cons.mp mem with rfl | later
    · exact ⟨_, mem_cons_self, here⟩
    · obtain ⟨other, mem', related⟩ := ih later
      exact ⟨other, mem_cons_of_mem _ mem', related⟩

section

variable {program : Program} {decl : ClassDecl}

/-! ## Methods -/

/-- What the code of the method that sets up a new object is, whichever labels it is given. -/
def ClassDecl.InitLowersTo (program : Program) (decl : ClassDecl) (code : MethodCode) : Prop :=
  ∃ low high, decl.lowerInit program low = .ok (code, high)

/-- What the code of a method is, whichever labels it is given. -/
def Method.LowersTo (program : Program) (decl : ClassDecl) (method : Method)
    (code : MethodCode) : Prop :=
  ∃ low high, method.lower program decl low = .ok (code, high)

/-- The code of the method that sets up a new object is made from its fields and its statements. -/
theorem ClassDecl.InitLowersTo.exists_body {code : MethodCode}
    (lowers : decl.InitLowersTo program code) :
    ∃ low fields body final,
      (Emitter.ofParams program decl [] low).frame.fieldsCode decl.fields = .ok fields ∧
      Stmt.lowerBlock none (Emitter.ofParams program decl [] low) decl.init = .ok (body, final) ∧
      code = ⟨initMethodName, [], final.frame.locals.names, fields ++ body ++ [Instruction.ret]⟩ := by
  obtain ⟨low, high, lowered⟩ := lowers
  obtain ⟨fields, initial, lowered⟩ := exists_ok_of_bind lowered
  obtain ⟨⟨body, final⟩, statements, result⟩ := exists_ok_of_bind lowered
  cases result
  exact ⟨low, fields, body, final, initial, statements, rfl⟩

/-- The code of a method is made from its statements. -/
theorem Method.LowersTo.exists_body {method : Method} {code : MethodCode}
    (lowers : method.LowersTo program decl code) :
    ∃ low body final,
      Stmt.lowerBlock none (Emitter.ofParams program decl method.params low) method.body =
        .ok (body, final) ∧
      code = ⟨method.name, method.params.map Param.name, final.frame.locals.names,
        closeCode method.result body⟩ := by
  obtain ⟨low, high, lowered⟩ := lowers
  obtain ⟨⟨body, final⟩, statements, result⟩ := exists_ok_of_bind lowered
  cases result
  exact ⟨low, body, final, statements, rfl⟩

/-- The code of methods, one after the other. -/
theorem forall₂_lowerMethods {low high : Nat} {codes : List MethodCode}
    (lowered : lowerMethods program decl low methods = .ok (codes, high)) :
    Forall₂ (Method.LowersTo program decl) methods codes := by
  induction methods generalizing low codes with
  | nil =>
    cases lowered
    exact .nil
  | cons method rest ih =>
    obtain ⟨⟨code, middle⟩, head, lowered⟩ := exists_ok_of_bind lowered
    obtain ⟨⟨restCodes, final⟩, tail, result⟩ := exists_ok_of_bind lowered
    cases result
    exact .cons ⟨low, middle, head⟩ (ih tail)

/-- Methods that have code on their own have code one after the other. -/
theorem exists_lowerMethods
    (all : ∀ method ∈ methods, ∀ low, ∃ code high, method.lower program decl low = .ok (code, high))
    (low : Nat) : ∃ codes high, lowerMethods program decl low methods = .ok (codes, high) := by
  induction methods generalizing low with
  | nil => exact ⟨[], low, rfl⟩
  | cons method rest ih =>
    obtain ⟨here, later⟩ := forall_mem_cons.mp all
    obtain ⟨code, middle, head⟩ := here low
    obtain ⟨codes, high, tail⟩ := ih later middle
    exact ⟨code :: codes, high, ok_of_bind head (ok_of_bind tail rfl)⟩

/-! ## Classes -/

/-- What the code of a class is, whichever labels it is given. -/
def ClassDecl.LowersTo (program : Program) (decl : ClassDecl) (code : ClassCode) : Prop :=
  ∃ low high, decl.lower program low = .ok (code, high)

/-- The code of a class is made from its methods. -/
theorem ClassDecl.LowersTo.exists_methods {code : ClassCode} (lowers : decl.LowersTo program code) :
    ∃ init methods, decl.InitLowersTo program init ∧
      Forall₂ (Method.LowersTo program decl) decl.methods methods ∧
      code = ⟨decl.name, decl.base, decl.fields.map Field.name, init :: methods⟩ := by
  obtain ⟨low, high, lowered⟩ := lowers
  obtain ⟨⟨init, middle⟩, first, lowered⟩ := exists_ok_of_bind lowered
  obtain ⟨⟨methods, final⟩, second, result⟩ := exists_ok_of_bind lowered
  cases result
  exact ⟨init, methods, ⟨low, middle, first⟩, forall₂_lowerMethods second, rfl⟩

/-- The code of classes, one after the other. -/
theorem forall₂_lowerClasses {low : Nat} {codes : List ClassCode}
    (lowered : lowerClasses program low classes = .ok codes) :
    Forall₂ (ClassDecl.LowersTo program) classes codes := by
  induction classes generalizing low codes with
  | nil =>
    cases lowered
    exact .nil
  | cons decl rest ih =>
    obtain ⟨⟨code, middle⟩, head, lowered⟩ := exists_ok_of_bind lowered
    obtain ⟨restCodes, tail, result⟩ := exists_ok_of_bind lowered
    cases result
    exact .cons ⟨low, middle, head⟩ (ih tail)

/-- Classes that have code on their own have code one after the other. -/
theorem exists_lowerClasses
    (all : ∀ decl ∈ classes, ∀ low, ∃ code high, decl.lower program low = .ok (code, high))
    (low : Nat) : ∃ codes, lowerClasses program low classes = .ok codes := by
  induction classes generalizing low with
  | nil => exact ⟨[], rfl⟩
  | cons decl rest ih =>
    obtain ⟨here, later⟩ := forall_mem_cons.mp all
    obtain ⟨code, middle, head⟩ := here low
    obtain ⟨codes, tail⟩ := ih later middle
    exact ⟨code :: codes, ok_of_bind head (ok_of_bind tail rfl)⟩

end

/-! ## Programs -/

namespace Program

/-- The first class with an entry method. -/
def entryClass? (program : Program) : Option ClassDecl :=
  program.classes.find? fun decl => (decl.method? entryMethodName).isSome

/-- The artifact that is made from the code of the classes. -/
def artifactOf (program : Program) (codes : List ClassCode) : Artifact :=
  match program.entryClass? with
  | some decl => ⟨codes, decl.name ++ "." ++ entryMethodName⟩
  | none => ⟨codes ++ [defaultClass], defaultClassName ++ "." ++ defaultMethodName⟩

/-- A program has code if its classes have. -/
theorem lower_eq_ok_iff {artifact : Artifact} :
    program.lower = .ok artifact ↔
      ∃ codes, lowerClasses program 0 program.classes = .ok codes ∧
        artifact = program.artifactOf codes := by
  have assembled (codes : List ClassCode)
      (lowered : lowerClasses program 0 program.classes = .ok codes) :
      program.lower = .ok (program.artifactOf codes) := by
    refine ok_of_bind lowered ?_
    unfold artifactOf entryClass?
    cases program.classes.find? fun decl => (decl.method? entryMethodName).isSome <;> rfl
  constructor
  · intro lowered
    obtain ⟨codes, classes, -⟩ := exists_ok_of_bind lowered
    rw [assembled codes classes] at lowered
    cases lowered
    exact ⟨codes, classes, rfl⟩
  · rintro ⟨codes, classes, rfl⟩
    exact assembled codes classes

/-- The code of a program is made from its classes. -/
theorem exists_classes_of_lower {artifact : Artifact} (lowered : program.lower = .ok artifact) :
    ∃ codes, Forall₂ (ClassDecl.LowersTo program) program.classes codes ∧
      artifact = program.artifactOf codes := by
  obtain ⟨codes, classes, rfl⟩ := lower_eq_ok_iff.mp lowered
  exact ⟨codes, forall₂_lowerClasses classes, rfl⟩

end Program

/-! ## Interfaces -/

/-- What a class shows of itself: its name, the class it extends, its fields and its methods with
their parameters. -/
structure ClassInterface where
  name : String
  /-- The name of the class it extends. -/
  base : Option String
  /-- The names of its fields. -/
  fields : List String
  /-- The name of each method and the names of its parameters. -/
  methods : List (String × List String)
  deriving DecidableEq, Repr

/-- What the code of a class shows of it. -/
def ClassCode.interface (code : ClassCode) : ClassInterface :=
  ⟨code.name, code.base, code.fields, code.methods.map fun method => (method.name, method.params)⟩

/-- What the declaration of a class shows of it: the method that sets up an object comes first. -/
def ClassDecl.interface (decl : ClassDecl) : ClassInterface :=
  ⟨decl.name, decl.base, decl.fields.map Field.name,
    (initMethodName, []) ::
      decl.methods.map fun method => (method.name, method.params.map Param.name)⟩

/-- The code of methods shows what their declarations show. -/
theorem signatures_eq {decl : ClassDecl} {codes : List MethodCode}
    (lower : Forall₂ (Method.LowersTo program decl) methods codes) :
    codes.map (fun code => (code.name, code.params)) =
      methods.map fun method => (method.name, method.params.map Param.name) := by
  induction lower with
  | nil => rfl
  | cons head _ ih =>
    obtain ⟨_, _, _, _, rfl⟩ := head.exists_body
    rw [map_cons, map_cons, ih]

/-- The code of a class shows what its declaration shows. -/
theorem ClassDecl.LowersTo.interface_eq {decl : ClassDecl} {code : ClassCode}
    (lowers : decl.LowersTo program code) : code.interface = decl.interface := by
  obtain ⟨init, methods, first, later, rfl⟩ := lowers.exists_methods
  obtain ⟨_, _, _, _, _, _, rfl⟩ := first.exists_body
  rw [ClassCode.interface, map_cons, signatures_eq later]
  rfl

/-- The code of classes shows what their declarations show. -/
theorem interfaces_eq {codes : List ClassCode}
    (lower : Forall₂ (ClassDecl.LowersTo program) classes codes) :
    codes.map ClassCode.interface = classes.map ClassDecl.interface := by
  induction lower with
  | nil => rfl
  | cons head _ ih => rw [map_cons, map_cons, head.interface_eq, ih]

end ClassLang
