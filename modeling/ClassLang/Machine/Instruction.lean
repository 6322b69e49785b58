import ClassLang.Constant
import ClassLang.Text.Styled

/-! # Instructions

The instructions of a stack machine. Comparisons push one or zero, and a conditional jump is taken
when the value it pops is zero. -/

namespace ClassLang

/-- A place in code that jumps go to. -/
structure Label where
  /-- The name of the label. -/
  name : String
  deriving DecidableEq, Repr

/-- The label with a given number, which has at least four digits. -/
def Label.numbered (number : Nat) : Label :=
  let digits := toString number
  ⟨"L" ++ String.ofList (List.replicate (4 - digits.length) '0') ++ digits⟩

/-- The instructions of the machine. -/
inductive Instruction where
  /-- Push a constant. -/
  | const (value : Constant)
  /-- Push a local variable. -/
  | loadLocal (slot : Nat)
  /-- Pop into a local variable. -/
  | storeLocal (slot : Nat)
  /-- Push the current object. -/
  | loadThis
  /-- Push a field of a popped object. -/
  | loadField (owner field : String)
  /-- Pop a value and an object, and set a field of the object. -/
  | storeField (owner field : String)
  | add
  | sub
  | mul
  | rem
  | div
  | eq
  | gt
  | lt
  | and
  | or
  | xor
  /-- Turn an integer into a double. -/
  | widen
  /-- Turn a double into an integer. -/
  | narrow
  /-- A place that jumps go to. -/
  | label (place : Label)
  /-- Go to a label. -/
  | jump (target : Label)
  /-- Pop a value, and go to a label if it is zero. -/
  | jumpIfFalse (target : Label)
  /-- Call a routine with a number of arguments. -/
  | call (routine : String) (count : Nat)
  /-- Pop a value and forget it. -/
  | pop
  /-- Leave the method. -/
  | ret
  deriving Repr

namespace Instruction

/-- The short name of an instruction. -/
def mnemonic : Instruction → String
  | const _ => "ldc"
  | loadLocal _ => "ldloc"
  | storeLocal _ => "stloc"
  | loadThis => "ldthis"
  | loadField _ _ => "ldfld"
  | storeField _ _ => "stfld"
  | add => "add"
  | sub => "sub"
  | mul => "mul"
  | rem => "rem"
  | div => "div"
  | eq => "ceq"
  | gt => "cgt"
  | lt => "clt"
  | and => "and"
  | or => "or"
  | xor => "xor"
  | widen => "widen"
  | narrow => "narrow"
  | label _ => "label"
  | jump _ => "br"
  | jumpIfFalse _ => "brfalse"
  | call _ _ => "call"
  | pop => "pop"
  | ret => "ret"

/-- The operand of an instruction: its text and the colour it is shown in. -/
def operand? : Instruction → Option (Text.Colour × String)
  | const value => some (.yellow, value.text)
  | loadLocal slot => some (.blue, toString slot)
  | storeLocal slot => some (.blue, toString slot)
  | loadField owner field => some (.blue, owner ++ "::" ++ field)
  | storeField owner field => some (.blue, owner ++ "::" ++ field)
  | jump target => some (.green, target.name)
  | jumpIfFalse target => some (.green, target.name)
  | call routine count => some (.blue, routine ++ "/" ++ toString count)
  | _ => none

/-- The text of an instruction: a label with a colon, or the mnemonic and the operand. -/
def text (instruction : Instruction) : String :=
  match instruction with
  | label place => place.name ++ ":"
  | _ =>
    match instruction.operand? with
    | some (_, operand) => instruction.mnemonic ++ " " ++ operand
    | none => instruction.mnemonic

/-- The line of an instruction for a terminal: labels at the margin, all else behind four blanks with
the operands in a column. -/
def styled (instruction : Instruction) : Text.Styled :=
  match instruction with
  | label place => [Text.coloured .green (place.name ++ ":")]
  | _ =>
    [Text.plain "    ", Text.coloured .red (Text.padRight 8 instruction.mnemonic)] ++
      match instruction.operand? with
      | some (colour, operand) => [Text.coloured colour operand]
      | none => []

/-- Whether an instruction leaves the method. -/
def isRet : Instruction → Bool
  | ret => true
  | _ => false

end Instruction

end ClassLang
