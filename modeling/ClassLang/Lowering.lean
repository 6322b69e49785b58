import ClassLang.Lowering.Stmt
import ClassLang.Machine.Artifact

/-! # Lowering of programs

Each class gets a method that sets up a new object, followed by its own methods. The labels of the
whole program are numbered in the order of its text. -/

namespace ClassLang

/-- The name of the method that sets up a new object. -/
def initMethodName : String := "this"

/-- The name of the method where a program starts. -/
def entryMethodName : String := "main"

/-- The class that a program without an entry method gets. -/
def defaultClassName : String := "Program"

/-- The method where a program without an entry method starts. -/
def defaultMethodName : String := "Main"

variable (program : Program) (decl : ClassDecl)

/-- The state in which the lowering of a method starts. -/
def Emitter.ofParams (params : List Param) (nextLabel : Nat) : Emitter :=
  { frame :=
      { program := program
        decl := decl
        locals := Locals.ofParams (params.map fun param => (param.name, Scalar.ofType? param.type)) }
    nextLabel := nextLabel }

/-- The code that gives the fields of a new object their initial values. -/
def Frame.fieldsCode (frame : Frame) : List Field → Lowered
  | [] => .ok []
  | field :: rest => do
    let init ← field.init.lower frame
    let restCode ← frame.fieldsCode rest
    return .loadThis :: init ++ [.storeField frame.decl.name field.name] ++ restCode

/-- The method that sets up a new object: first its fields, then the statements for it. The number
of the next label is returned as well. -/
def ClassDecl.lowerInit (nextLabel : Nat) : Except Fault (MethodCode × Nat) := do
  let emitter := Emitter.ofParams program decl [] nextLabel
  let fieldsCode ← emitter.frame.fieldsCode decl.fields
  let (code, emitter) ← Stmt.lowerBlock none emitter decl.init
  return (⟨initMethodName, [], emitter.frame.locals.names, fieldsCode ++ code ++ [.ret]⟩,
    emitter.nextLabel)

/-- Add a return to the code of a method without a result, unless it ends with one. -/
def closeCode (result : Option TypeRef) (code : List Instruction) : List Instruction :=
  if result.isNone && !code.getLast?.any Instruction.isRet then code ++ [.ret] else code

/-- The code of a method, and the number of the next label. -/
def Method.lower (method : Method) (nextLabel : Nat) :
    Except Fault (MethodCode × Nat) := do
  let emitter := Emitter.ofParams program decl method.params nextLabel
  let (code, emitter) ← Stmt.lowerBlock none emitter method.body
  return (⟨method.name, method.params.map Param.name, emitter.frame.locals.names,
    closeCode method.result code⟩, emitter.nextLabel)

/-- The code of methods in order, and the number of the next label. -/
def lowerMethods (nextLabel : Nat) : List Method → Except Fault (List MethodCode × Nat)
  | [] => .ok ([], nextLabel)
  | method :: rest => do
    let (code, nextLabel) ← method.lower program decl nextLabel
    let (restCode, nextLabel) ← lowerMethods nextLabel rest
    return (code :: restCode, nextLabel)

/-- The code of a class, and the number of the next label. -/
def ClassDecl.lower (nextLabel : Nat) : Except Fault (ClassCode × Nat) := do
  let (init, nextLabel) ← decl.lowerInit program nextLabel
  let (methods, nextLabel) ← lowerMethods program decl nextLabel decl.methods
  return (⟨decl.name, decl.base, decl.fields.map Field.name, init :: methods⟩, nextLabel)

/-- The code of classes in order. -/
def lowerClasses (nextLabel : Nat) : List ClassDecl → Except Fault (List ClassCode)
  | [] => .ok []
  | decl :: rest => do
    let (code, nextLabel) ← decl.lower program nextLabel
    let restCode ← lowerClasses nextLabel rest
    return code :: restCode

/-- The class of a program without an entry method. -/
def defaultClass : ClassCode :=
  ⟨defaultClassName, none, [], [⟨defaultMethodName, [], [], [.const (.int 0), .ret]⟩]⟩

/-- The code of a program. It starts at the first entry method, or in a class of its own. -/
def Program.lower (program : Program) : Except Fault Artifact := do
  let classes ← lowerClasses program 0 program.classes
  match program.classes.find? (fun decl => (decl.method? entryMethodName).isSome) with
  | some decl => return ⟨classes, decl.name ++ "." ++ entryMethodName⟩
  | none => return ⟨classes ++ [defaultClass], defaultClassName ++ "." ++ defaultMethodName⟩

end ClassLang
