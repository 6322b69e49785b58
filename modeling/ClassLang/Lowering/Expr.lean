import ClassLang.Fault
import ClassLang.Lowering.Frame
import ClassLang.Machine.Instruction

/-! # Lowering of expressions

The code of an expression leaves its value on the stack. In arithmetic on an integer and a double
the integer is turned into a double. -/

namespace ClassLang

/-- Code, or the reason why there is none. -/
abbrev Lowered := Except Fault (List Instruction)

/-! ## Operators and operations -/

/-- Turn one into zero and all else into one: compare with zero. -/
def negation : List Instruction := [.const (.int 0), .eq]

/-- The code of an operator, after its operands. -/
def BinaryOp.code : BinaryOp → List Instruction
  | .add => [.add]
  | .sub => [.sub]
  | .mul => [.mul]
  | .div => [.div]
  | .gt => [.gt]
  | .lt => [.lt]
  | .ge => .lt :: negation
  | .le => .gt :: negation
  | .eq => [.eq]
  | .ne => .eq :: negation

/-- The code of an operation, after its receiver and its argument. -/
def Operation.code : Operation → List Instruction
  | .plus => [.add]
  | .minus => [.sub]
  | .mult => [.mul]
  | .div => [.div]
  | .rem => [.rem]
  | .equal => [.eq]
  | .greater => [.gt]
  | .less => [.lt]
  | .greaterEqual => .lt :: negation
  | .lessEqual => .gt :: negation
  | .and => [.and]
  | .or => [.or]
  | .xor => [.xor]
  | .not => negation
  | .toInteger => [.narrow]
  | .toReal => [.widen]
  | .toBoolean => negation ++ negation

/-- The code that turns the first operand of a mixed operation into a double. -/
def widenFirst (arithmetic : Bool) (first second : Option Scalar) : List Instruction :=
  if arithmetic ∧ first = some .int ∧ second = some .real then [.widen] else []

/-- The code that turns the second operand of a mixed operation into a double. -/
def widenSecond (arithmetic : Bool) (first second : Option Scalar) : List Instruction :=
  if arithmetic ∧ first = some .real ∧ second = some .int then [.widen] else []

/-- The code that turns a value into one of a scalar type. -/
def conversion (type : BuiltinType) (kind : Option Scalar) : List Instruction :=
  match type, kind with
  | .real, some .int => [.widen]
  | .integer, some .real => [.narrow]
  | _, _ => []

/-! ## Names and literals -/

/-- The code that loads a field of the current object. -/
def loadFieldCode (owner name : String) : List Instruction := [.loadThis, .loadField owner name]

/-- The code that loads the value of a name. -/
def Frame.loadName (frame : Frame) (name : String) (position : Position) : Lowered :=
  match frame.storage? name with
  | some (.slot slot) => .ok [.loadLocal slot]
  | some (.field owner) => .ok (loadFieldCode owner name)
  | none => .error ⟨.unknownIdentifier name, position⟩

/-- The code of a literal. -/
def literalCode (constant? : Option Constant) (text : String) (position : Position) : Lowered :=
  match constant? with
  | some constant => .ok [.const constant]
  | none => .error ⟨.invalidLiteral text, position⟩

/-- The code of a member that is not called: only fields of the current object have one. -/
def Frame.memberCode (frame : Frame) (target : Expr) (name : String) (position : Position) :
    Lowered :=
  match target, frame.owner? name with
  | .self _, some owner => .ok (loadFieldCode owner name)
  | _, _ => .error ⟨.unsupportedMember (Expr.member target name position).source, position⟩

/-- The operation that a member call with a number of arguments stands for. -/
def operationFor? (name : String) (count : Nat) : Option Operation :=
  (Operation.ofName? name).filter (fun operation => operation.arity = count)

/-- The fault of calling a member that is no operation. -/
def unsupportedOperation (receiver : Expr) (name : String) (position : Position) : Fault :=
  ⟨.unsupportedCall (receiver.source ++ "." ++ name), position⟩

/-! ## Expressions -/

/-- The code of an expression. -/
def Expr.lower (frame : Frame) : Expr → Lowered
  | .int text position => literalCode ((Constant.intOfText? text).map .int) text position
  | .real text position => literalCode ((Constant.realOfText? text).map .real) text position
  | .bool value _ => .ok [.const (.bool value)]
  | .self _ => .ok [.loadThis]
  | .ident name _ position => frame.loadName name position
  | .binary op left right _ => do
    let leftKind := frame.kindOf left
    let rightKind := frame.kindOf right
    let leftCode ← left.lower frame
    let rightCode ← right.lower frame
    return leftCode ++ widenFirst op.isArithmetic leftKind rightKind ++
      rightCode ++ widenSecond op.isArithmetic leftKind rightKind ++ op.code
  | .member target name position => frame.memberCode target name position
  | .call (.ident name _ _) [argument] position =>
    if name = writeRoutine then do
      return (← argument.lower frame) ++ [.call writeRoutine 1]
    else
      match (BuiltinType.ofName? name).filter BuiltinType.isScalar with
      | some type => do
        return (← argument.lower frame) ++ conversion type (frame.kindOf argument)
      | none => .error ⟨.unsupportedCall name, position⟩
  | .call (.ident name _ _) _ position => .error ⟨.unsupportedCall name, position⟩
  | .call (.member receiver name _) [] position =>
    match operationFor? name 0 with
    | some operation => do return (← receiver.lower frame) ++ operation.code
    | none => .error (unsupportedOperation receiver name position)
  | .call (.member receiver name _) [argument] position =>
    match operationFor? name 1 with
    | some operation => do
      let receiverKind := frame.kindOf receiver
      let argumentKind := frame.kindOf argument
      let receiverCode ← receiver.lower frame
      let argumentCode ← argument.lower frame
      return receiverCode ++ widenFirst operation.isArithmetic receiverKind argumentKind ++
        argumentCode ++ widenSecond operation.isArithmetic receiverKind argumentKind ++
        operation.code
    | none => .error (unsupportedOperation receiver name position)
  | .call (.member receiver name _) _ position =>
    .error (unsupportedOperation receiver name position)
  | .call callee arguments position =>
    .error ⟨.unsupportedCall (Expr.call callee arguments position).source, position⟩

/-- Whether an expression is a call of the routine that writes a value out. -/
def Expr.isWrite : Expr → Bool
  | .call (.ident name _ _) _ _ => name = writeRoutine
  | _ => false

end ClassLang
