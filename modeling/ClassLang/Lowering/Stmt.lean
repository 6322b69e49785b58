import ClassLang.Lowering.Expr

/-! # Lowering of statements

Statements are lowered in order, since each declaration takes the next slot and each branch or loop
the next two labels. The code of a statement leaves the stack as it was. -/

namespace ClassLang

/-- The state of lowering a method: its frame and the number of the next label. -/
structure Emitter where
  /-- What expressions are lowered against. -/
  frame : Frame
  /-- The number of the next label. -/
  nextLabel : Nat

namespace Emitter

/-- Take the next two labels. -/
def takeLabels (emitter : Emitter) : Emitter :=
  { emitter with nextLabel := emitter.nextLabel + 2 }

/-- Open a scope for variables. -/
def enter (emitter : Emitter) : Emitter :=
  { emitter with frame := { emitter.frame with locals := emitter.frame.locals.enter } }

/-- Close the innermost scope for variables. -/
def exit (emitter : Emitter) : Emitter :=
  { emitter with frame := { emitter.frame with locals := emitter.frame.locals.exit } }

/-- Declare a variable. -/
def declare (emitter : Emitter) (name : String) (kind : Option Scalar) : Emitter :=
  { emitter with
    frame := { emitter.frame with locals := emitter.frame.locals.declare name kind } }

end Emitter

/-- The code of an assignment. Its target must be a name. -/
def Frame.assignCode (frame : Frame) (target value : Expr) : Lowered :=
  match target with
  | .ident name _ position => do
    let valueCode ← value.lower frame
    match frame.storage? name with
    | some (.slot slot) => return valueCode ++ [.storeLocal slot]
    | some (.field owner) => return .loadThis :: valueCode ++ [.storeField owner name]
    | none => .error ⟨.unknownIdentifier name, position⟩
  | _ => .error ⟨.invalidAssignTarget, target.position⟩

/-- The code of a branch, given the code of its parts and its labels. -/
def branchCode (alternativeLabel endLabel : Label) (test body alternative : List Instruction) :
    List Instruction :=
  test ++ [Instruction.jumpIfFalse alternativeLabel] ++ body ++
    [Instruction.jump endLabel, .label alternativeLabel] ++ alternative ++ [Instruction.label endLabel]

/-- The code of a loop, given the code of its parts and its labels. -/
def loopCode (startLabel endLabel : Label) (test body : List Instruction) : List Instruction :=
  [Instruction.label startLabel] ++ test ++ [Instruction.jumpIfFalse endLabel] ++ body ++
    [Instruction.jump startLabel, .label endLabel]

/-- The code of an expression evaluated for its effect: its value is dropped, if it leaves one. -/
def evalCode (value : Expr) (code : List Instruction) : List Instruction :=
  if value.isWrite then code else code ++ [.pop]

mutual

/-- The code of a statement; `exit?` is the label behind the innermost loop. -/
def Stmt.lower (exit? : Option Label) (emitter : Emitter) :
    Stmt → Except Fault (List Instruction × Emitter)
  | .declare name init _ => do
    let code ← init.lower emitter.frame
    let kind := emitter.frame.kindOf init
    return (code ++ [.storeLocal emitter.frame.locals.nextSlot], emitter.declare name kind)
  | .assign target value _ => do
    return (← emitter.frame.assignCode target value, emitter)
  | .branch test body none _ => do
    let alternativeLabel := Label.numbered emitter.nextLabel
    let endLabel := Label.numbered (emitter.nextLabel + 1)
    let testCode ← test.lower emitter.frame
    let (bodyCode, emitter) ← Stmt.lowerBlock exit? emitter.takeLabels.enter body
    return (branchCode alternativeLabel endLabel testCode bodyCode [], emitter.exit)
  | .branch test body (some alternative) _ => do
    let alternativeLabel := Label.numbered emitter.nextLabel
    let endLabel := Label.numbered (emitter.nextLabel + 1)
    let testCode ← test.lower emitter.frame
    let (bodyCode, emitter) ← Stmt.lowerBlock exit? emitter.takeLabels.enter body
    let (alternativeCode, emitter) ← Stmt.lowerBlock exit? emitter.exit.enter alternative
    return (branchCode alternativeLabel endLabel testCode bodyCode alternativeCode, emitter.exit)
  | .loop test body _ => do
    let startLabel := Label.numbered emitter.nextLabel
    let endLabel := Label.numbered (emitter.nextLabel + 1)
    let testCode ← test.lower emitter.frame
    let (bodyCode, emitter) ← Stmt.lowerBlock (some endLabel) emitter.takeLabels.enter body
    return (loopCode startLabel endLabel testCode bodyCode, emitter.exit)
  | .ret value _ => do
    return ((← value.lower emitter.frame) ++ [.ret], emitter)
  | .leave position =>
    match exit? with
    | some endLabel => .ok ([.jump endLabel], emitter)
    | none => .error ⟨.breakOutsideLoop, position⟩
  | .eval value _ => do
    return (evalCode value (← value.lower emitter.frame), emitter)

/-- The code of statements in order. -/
def Stmt.lowerBlock (exit? : Option Label) (emitter : Emitter) :
    List Stmt → Except Fault (List Instruction × Emitter)
  | [] => .ok ([], emitter)
  | stmt :: rest => do
    let (code, emitter) ← stmt.lower exit? emitter
    let (restCode, emitter) ← Stmt.lowerBlock exit? emitter rest
    return (code ++ restCode, emitter)

end

end ClassLang
