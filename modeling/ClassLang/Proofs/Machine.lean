import ClassLang.Builtin
import ClassLang.Machine.Artifact
import ClassLang.Proofs.Execution
import Mathlib.Logic.Function.Basic
import Mathlib.Logic.Relation
import Mathlib.Tactic.Simps.Basic

/-! # Runs of the stack machine

The machine executes a list of instructions on a stack, numbered slots and the world of structured
execution. What its primitive instructions compute is left open: `Primitives` gives them any meaning,
which may trap. Jumps go to the index that the label table of the code names.

`Primitives.operators` says what the operators of the language mean in terms of these primitives; it
does not look at code. -/

namespace ClassLang

/-- A meaning for the primitive instructions. Where there is no result, the machine traps. -/
structure Primitives (V S : Type) where
  /-- The value of a constant. -/
  constant : Constant → Option V
  /-- The current object. -/
  self : V
  /-- The result of an instruction that takes two values. -/
  binary : Instruction → V → V → Option V
  /-- A double from an integer. -/
  widen : V → Option V
  /-- An integer from a double. -/
  narrow : V → Option V
  /-- Whether a value lets a conditional jump pass. -/
  truth : V → Option Bool
  /-- The value of a field of an object. -/
  readField : String → String → V → S → Option V
  /-- The fields after setting one of an object. -/
  writeField : String → String → V → V → S → Option S

/-- A configuration of the machine. -/
structure Configuration (V S : Type) where
  /-- The index of the next instruction. -/
  counter : Nat
  /-- The values on the stack, the top first. -/
  stack : List V
  /-- The values of the slots that hold one. -/
  slots : Nat → Option V
  /-- Fields and output. -/
  world : World V S

/-- The index that a jump to a label goes to. -/
def jumpTarget (code : List Instruction) (label : Label) : Option Nat :=
  (labelTable code).lookup label

namespace Configuration

variable {V S : Type}

variable (configuration : Configuration V S)

/-- Go on with the next instruction and another stack. -/
def advance (stack : List V) : Configuration V S :=
  { configuration with counter := configuration.counter + 1, stack := stack }

/-- Go on elsewhere with another stack. -/
@[simps] def goto (counter : Nat) (stack : List V) : Configuration V S :=
  { configuration with counter := counter, stack := stack }

/-- Put a value into a slot. -/
def fill (slot : Nat) (value : V) : Configuration V S :=
  { configuration with slots := Function.update configuration.slots slot (some value) }

end Configuration

namespace Primitives

variable {V S : Type}

variable (primitives : Primitives V S)

variable (code : List Instruction)

/-- Execute an instruction of some code; there is no result if it traps or leaves the method. -/
def execute (configuration : Configuration V S) : Instruction → Option (Configuration V S)
  | .const value => do
    return configuration.advance ((← primitives.constant value) :: configuration.stack)
  | .loadLocal slot => do
    return configuration.advance ((← configuration.slots slot) :: configuration.stack)
  | .storeLocal slot =>
    match configuration.stack with
    | value :: rest => some ((configuration.fill slot value).advance rest)
    | [] => none
  | .loadThis => some (configuration.advance (primitives.self :: configuration.stack))
  | .loadField owner field =>
    match configuration.stack with
    | object :: rest => do
      let value ← primitives.readField owner field object configuration.world.store
      return configuration.advance (value :: rest)
    | [] => none
  | .storeField owner field =>
    match configuration.stack with
    | value :: object :: rest => do
      let store ← primitives.writeField owner field object value configuration.world.store
      let world := { configuration.world with store := store }
      return { configuration with world := world }.advance rest
    | _ => none
  | .widen =>
    match configuration.stack with
    | value :: rest => do return configuration.advance ((← primitives.widen value) :: rest)
    | [] => none
  | .narrow =>
    match configuration.stack with
    | value :: rest => do return configuration.advance ((← primitives.narrow value) :: rest)
    | [] => none
  | .label _ => some (configuration.advance configuration.stack)
  | .jump target => do
    return configuration.goto (← jumpTarget code target) configuration.stack
  | .jumpIfFalse target =>
    match configuration.stack with
    | value :: rest => do
      if ← primitives.truth value then return configuration.advance rest
      else return configuration.goto (← jumpTarget code target) rest
    | [] => none
  | .call routine count =>
    match configuration.stack with
    | value :: rest =>
      if routine = writeRoutine ∧ count = 1 then
        let world := { configuration.world with written := configuration.world.written ++ [value] }
        some ({ configuration with world := world }.advance rest)
      else none
    | [] => none
  | .pop =>
    match configuration.stack with
    | _ :: rest => some (configuration.advance rest)
    | [] => none
  | .ret => none
  | instruction =>
    match configuration.stack with
    | second :: first :: rest => do
      return configuration.advance ((← primitives.binary instruction first second) :: rest)
    | _ => none

/-- One step of the machine. -/
def step (configuration : Configuration V S) : Option (Configuration V S) :=
  code[configuration.counter]?.bind (primitives.execute code configuration)

/-- The machine gets from one configuration to another. -/
def Runs : Configuration V S → Configuration V S → Prop :=
  Relation.ReflTransGen fun before after => primitives.step code before = some after

/-- The machine stands at an instruction that has no result and does not leave the method. -/
def Traps (configuration : Configuration V S) : Prop :=
  ∃ instruction, code[configuration.counter]? = some instruction ∧ instruction.isRet = false ∧
    primitives.execute code configuration instruction = none

/-! ## Operators in terms of primitives -/

/-- Whether a value equals zero. -/
def negate (value : V) : Option V := do
  primitives.binary .eq value (← primitives.constant (.int 0))

/-- The result of a binary operator on operands of matching kinds. An operator without an instruction
of its own is the negation of another. -/
def applyBinary (left right : V) : BinaryOp → Option V
  | .add => primitives.binary .add left right
  | .sub => primitives.binary .sub left right
  | .mul => primitives.binary .mul left right
  | .div => primitives.binary .div left right
  | .gt => primitives.binary .gt left right
  | .lt => primitives.binary .lt left right
  | .ge => (primitives.binary .lt left right).bind primitives.negate
  | .le => (primitives.binary .gt left right).bind primitives.negate
  | .eq => primitives.binary .eq left right
  | .ne => (primitives.binary .eq left right).bind primitives.negate

/-- The result of an operation without an argument. -/
def applyUnary (value : V) : Operation → Option V
  | .not => primitives.negate value
  | .toInteger => primitives.narrow value
  | .toReal => primitives.widen value
  | .toBoolean => (primitives.negate value).bind primitives.negate
  | _ => none

/-- The result of an operation with an argument, on values of matching kinds. -/
def applyPair (left right : V) : Operation → Option V
  | .plus => primitives.binary .add left right
  | .minus => primitives.binary .sub left right
  | .mult => primitives.binary .mul left right
  | .div => primitives.binary .div left right
  | .rem => primitives.binary .rem left right
  | .equal => primitives.binary .eq left right
  | .greater => primitives.binary .gt left right
  | .less => primitives.binary .lt left right
  | .greaterEqual => (primitives.binary .lt left right).bind primitives.negate
  | .lessEqual => (primitives.binary .gt left right).bind primitives.negate
  | .and => primitives.binary .and left right
  | .or => primitives.binary .or left right
  | .xor => primitives.binary .xor left right
  | .not | .toInteger | .toReal | .toBoolean => none

/-- In arithmetic on an integer and a double the integer is turned into a double first. -/
def matchKinds (arithmetic : Bool) (left right : Typed V) : Option (V × V) :=
  match arithmetic, left.kind, right.kind with
  | true, some .int, some .real => do return (← primitives.widen left.value, right.value)
  | true, some .real, some .int => do return (left.value, ← primitives.widen right.value)
  | _, _, _ => some (left.value, right.value)

/-- A value turned into one of a scalar type. -/
def convert (type : BuiltinType) (operand : Typed V) : Option V :=
  match type, operand.kind with
  | .real, some .int => primitives.widen operand.value
  | .integer, some .real => primitives.narrow operand.value
  | _, _ => some operand.value

/-- The meaning of the operators of the language. Only conversions to scalar types and the built-in
operations can be called, and only the current object has members. -/
def operators : Operators V S where
  constant := primitives.constant
  self := primitives.self
  truth := primitives.truth
  binary op left right := do
    let (left, right) ← primitives.matchKinds op.isArithmetic left right
    primitives.applyBinary left right op
  routine name operands world :=
    match (BuiltinType.ofName? name).filter BuiltinType.isScalar, operands with
    | some type, [operand] => (primitives.convert type operand).map (·, world)
    | _, _ => none
  operation name receiver arguments world :=
    match Operation.ofName? name, arguments with
    | some operation, [] => (primitives.applyUnary receiver.value operation).map (·, world)
    | some operation, [argument] => do
      let (left, right) ← primitives.matchKinds operation.isArithmetic receiver argument
      let result ← primitives.applyPair left right operation
      return (result, world)
    | _, _ => none
  apply _ _ _ := none
  member _ _ _ := none
  readField := primitives.readField
  writeField := primitives.writeField

end Primitives

end ClassLang
