import ClassLang.Lowering
import ClassLang.Proofs.Lowering.Shape

/-! # Code of methods

The methods of an artifact are assembled one after another, each from code for fields, the code of
statements and code that closes the method. Labels are handed on from each method to the next. -/

namespace ClassLang

open List

/-- The parts of the code of a method. -/
structure MethodParts where
  /-- Code that sets the fields of a new object. -/
  fields : List Instruction
  /-- The code of the statements of the method. -/
  body : List Instruction
  /-- Code behind the statements that none of them asks for. -/
  closing : List Instruction

/-- All code of a method. -/
def MethodParts.code (parts : MethodParts) : List Instruction :=
  parts.fields ++ parts.body ++ parts.closing

/-! ## Parts around the statements -/

/-- A return is added to the code of a method, or nothing is. -/
theorem closeCode_cases (result : Option TypeRef) (code : List Instruction) :
    ∃ closing, closeCode result code = code ++ closing ∧ (closing = [] ∨ closing = [.ret]) := by
  unfold closeCode
  split
  · exact ⟨_, rfl, .inr rfl⟩
  · exact ⟨[], (append_nil code).symm, .inl rfl⟩

/-- The code that sets fields is straight. -/
theorem Frame.straight_fieldsCode {frame : Frame} {fields : List Field} {code : List Instruction}
    (lowered : frame.fieldsCode fields = .ok code) : code.all Instruction.isStraight = true := by
  induction fields generalizing code with
  | nil =>
    cases lowered
    rfl
  | cons field rest ih =>
    obtain ⟨init, initial, lowered⟩ := exists_ok_of_bind lowered
    obtain ⟨restCode, later, result⟩ := exists_ok_of_bind lowered
    cases result
    simp [Expr.straight_lower initial, ih later, Instruction.isStraight]

/-! ## Methods -/

namespace Program

/-- How a method of a program is assembled, and how this raises the number of the next label. -/
inductive Assembles (program : Program) : Nat → MethodCode → MethodParts → Nat → Prop
  | init {low decl fields body final} (declared : decl ∈ program.classes)
      (initial : (Emitter.ofParams program decl [] low).frame.fieldsCode decl.fields = .ok fields)
      (lowered : Stmt.lowerBlock none (Emitter.ofParams program decl [] low) decl.init =
        .ok (body, final)) :
      Assembles program low
        ⟨initMethodName, [], final.frame.locals.names, fields ++ body ++ [Instruction.ret]⟩
        ⟨fields, body, [.ret]⟩ final.nextLabel
  | method {low decl method body closing final}
      (declared : decl ∈ program.classes) (owned : method ∈ decl.methods)
      (lowered : Stmt.lowerBlock none (Emitter.ofParams program decl method.params low) method.body =
        .ok (body, final))
      (closed : closeCode method.result body = body ++ closing) :
      Assembles program low
        ⟨method.name, method.params.map Param.name, final.frame.locals.names, body ++ closing⟩
        ⟨[], body, closing⟩ final.nextLabel
  | entry {low} :
      Assembles program low ⟨defaultMethodName, [], [], [.const (.int 0), .ret]⟩
        ⟨[], [], [.const (.int 0), .ret]⟩ low

/-- How methods of a program are assembled in order. -/
inductive AssemblesAll (program : Program) : Nat → List MethodCode → Nat → Prop
  | nil {low} : AssemblesAll program low [] low
  | cons {low middle high method parts rest} (first : program.Assembles low method parts middle)
      (later : program.AssemblesAll middle rest high) :
      AssemblesAll program low (method :: rest) high

variable {program : Program}

namespace Assembles

variable {low high : Nat} {method : MethodCode} {parts : MethodParts}

variable (assembles : program.Assembles low method parts high)

include assembles

theorem code_eq : method.code = parts.code := by
  cases assembles <;> rfl

theorem straight_fields : parts.fields.all Instruction.isStraight = true := by
  cases assembles with
  | init _ initial _ => exact Frame.straight_fieldsCode initial
  | method | entry => rfl

/-- The code behind the statements of a method is a return, if there is any, and the method of a
program without an entry method returns zero. -/
theorem closing_cases :
    parts.closing = [] ∨ parts.closing = [.ret] ∨ parts.closing = [.const (.int 0), .ret] := by
  cases assembles with
  | init => exact .inr (.inl rfl)
  | method declared owned lowered closed =>
    obtain ⟨closing, closed', shapes⟩ := closeCode_cases _ _
    rw [append_cancel_left (closed.symm.trans closed')]
    exact shapes.imp id .inl
  | entry => exact .inr (.inr rfl)

end Assembles

namespace AssemblesAll

variable {low middle high : Nat} {methods first second : List MethodCode}

/-- Methods are assembled in two steps. -/
theorem append (one : program.AssemblesAll low first middle)
    (two : program.AssemblesAll middle second high) :
    program.AssemblesAll low (first ++ second) high := by
  induction one with
  | nil => exact two
  | cons head _ ih => exact .cons head (ih two)

/-- Each of the methods is assembled. -/
theorem exists_parts (all : program.AssemblesAll low methods high) {method : MethodCode}
    (member : method ∈ methods) :
    ∃ low' parts high', program.Assembles low' method parts high' := by
  induction all with
  | nil => cases member
  | cons head _ ih =>
    rcases mem_cons.mp member with rfl | later
    · exact ⟨_, _, _, head⟩
    · exact ih later

end AssemblesAll

end Program

/-! ## Lowering assembles methods -/

section Lowering

variable {program : Program} {decl : ClassDecl} {low high : Nat}

section Declared

variable (declared : decl ∈ program.classes)

include declared

/-- The method that sets up an object is assembled. -/
theorem ClassDecl.assembles_lowerInit {code : MethodCode}
    (lowered : decl.lowerInit program low = .ok (code, high)) :
    ∃ parts, program.Assembles low code parts high := by
  obtain ⟨fields, initial, lowered⟩ := exists_ok_of_bind lowered
  obtain ⟨⟨body, final⟩, body', result⟩ := exists_ok_of_bind lowered
  cases result
  exact ⟨_, .init declared initial body'⟩

/-- A method is assembled. -/
theorem Method.assembles_lower {method : Method} (owned : method ∈ decl.methods) {code : MethodCode}
    (lowered : method.lower program decl low = .ok (code, high)) :
    ∃ parts, program.Assembles low code parts high := by
  obtain ⟨⟨body, final⟩, body', result⟩ := exists_ok_of_bind lowered
  cases result
  obtain ⟨closing, closed, -⟩ := closeCode_cases method.result body
  rw [closed]
  exact ⟨_, .method declared owned body' closed⟩

/-- Methods of a class are assembled in order. -/
theorem assemblesAll_lowerMethods {methods : List Method}
    (owned : ∀ method ∈ methods, method ∈ decl.methods) {codes : List MethodCode}
    (lowered : lowerMethods program decl low methods = .ok (codes, high)) :
    program.AssemblesAll low codes high := by
  induction methods generalizing low codes with
  | nil =>
    cases lowered
    exact .nil
  | cons method rest ih =>
    obtain ⟨here, later⟩ := forall_mem_cons.mp owned
    obtain ⟨⟨code, middle⟩, head, lowered⟩ := exists_ok_of_bind lowered
    obtain ⟨⟨restCodes, final⟩, tail, result⟩ := exists_ok_of_bind lowered
    cases result
    obtain ⟨parts, assembles⟩ := Method.assembles_lower declared here head
    exact .cons assembles (ih later tail)

/-- The methods of a class are assembled in order. -/
theorem ClassDecl.assemblesAll_lower {code : ClassCode}
    (lowered : decl.lower program low = .ok (code, high)) :
    program.AssemblesAll low code.methods high := by
  obtain ⟨⟨init, middle⟩, first, lowered⟩ := exists_ok_of_bind lowered
  obtain ⟨⟨methods, final⟩, second, result⟩ := exists_ok_of_bind lowered
  cases result
  obtain ⟨parts, assembles⟩ := ClassDecl.assembles_lowerInit declared first
  exact .cons assembles (assemblesAll_lowerMethods declared (fun _ owned => owned) second)

end Declared

/-- The methods of classes are assembled in order. -/
theorem assemblesAll_lowerClasses {classes : List ClassDecl}
    (declared : ∀ decl ∈ classes, decl ∈ program.classes) {codes : List ClassCode}
    (lowered : lowerClasses program low classes = .ok codes) :
    ∃ high, program.AssemblesAll low (codes.flatMap ClassCode.methods) high := by
  induction classes generalizing low codes with
  | nil =>
    cases lowered
    exact ⟨low, .nil⟩
  | cons decl rest ih =>
    obtain ⟨here, later⟩ := forall_mem_cons.mp declared
    obtain ⟨⟨code, middle⟩, head, lowered⟩ := exists_ok_of_bind lowered
    obtain ⟨restCodes, tail, result⟩ := exists_ok_of_bind lowered
    cases result
    obtain ⟨high, all⟩ := ih later tail
    rw [flatMap_cons]
    exact ⟨high, (ClassDecl.assemblesAll_lower here head).append all⟩

/-- The methods of an artifact are assembled in order, from the first label on. -/
theorem Program.assemblesAll_lower {artifact : Artifact} (lowered : program.lower = .ok artifact) :
    ∃ high, program.AssemblesAll 0 (artifact.classes.flatMap ClassCode.methods) high := by
  obtain ⟨codes, classes, lowered⟩ := exists_ok_of_bind lowered
  obtain ⟨high, all⟩ := assemblesAll_lowerClasses (fun _ declared => declared) classes
  split at lowered <;> cases lowered
  · exact ⟨high, all⟩
  · -- the class of a program without an entry method comes last
    rw [flatMap_append]
    exact ⟨high, all.append (.cons .entry .nil)⟩

/-- Each method of an artifact is assembled. -/
theorem Program.exists_parts_of_lower {artifact : Artifact}
    (lowered : program.lower = .ok artifact) {decl : ClassCode} (declared : decl ∈ artifact.classes)
    {method : MethodCode} (owned : method ∈ decl.methods) :
    ∃ low parts high, program.Assembles low method parts high := by
  obtain ⟨high, all⟩ := Program.assemblesAll_lower lowered
  exact all.exists_parts (mem_flatMap.mpr ⟨decl, declared, owned⟩)

end Lowering

end ClassLang
