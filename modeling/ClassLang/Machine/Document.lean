import ClassLang.Machine.Artifact
import ClassLang.Text.Yaml

/-! # Artifacts as documents

The code of a program as a structured document. An instruction without operands is a string, and one
with operands is tagged with its name. A constant would need a tag within a tag, which block form
does not have: code that loads one has no document. -/

namespace ClassLang

open Text (Yaml)

/-- Why code has no document. -/
inductive DocumentFault where
  /-- A tag would stand within a tag. -/
  | nestedTag
  deriving DecidableEq, Repr

/-- What is said of code without a document. -/
def DocumentFault.message : DocumentFault → String
  | .nestedTag => "serializing nested enums in YAML is not supported yet"

/-- The document of an instruction. -/
def Instruction.document : Instruction → Except DocumentFault Yaml
  | .const _ => .error .nestedTag
  | .loadLocal slot => .ok (.tagged "LoadLocal" (.nat slot))
  | .storeLocal slot => .ok (.tagged "StoreLocal" (.nat slot))
  | .loadThis => .ok (.string "LoadThis")
  | .loadField owner field => .ok (.tagged "LoadField" (.sequence [.string owner, .string field]))
  | .storeField owner field => .ok (.tagged "StoreField" (.sequence [.string owner, .string field]))
  | .add => .ok (.string "Add")
  | .sub => .ok (.string "Sub")
  | .mul => .ok (.string "Mul")
  | .rem => .ok (.string "Rem")
  | .div => .ok (.string "Div")
  | .eq => .ok (.string "Eq")
  | .gt => .ok (.string "Gt")
  | .lt => .ok (.string "Lt")
  | .and => .ok (.string "And")
  | .or => .ok (.string "Or")
  | .xor => .ok (.string "Xor")
  | .widen => .ok (.string "Widen")
  | .narrow => .ok (.string "Narrow")
  | .label place => .ok (.tagged "Label" (.string place.name))
  | .jump target => .ok (.tagged "Jump" (.string target.name))
  | .jumpIfFalse target => .ok (.tagged "JumpIfFalse" (.string target.name))
  | .call routine count => .ok (.tagged "Call" (.sequence [.string routine, .nat count]))
  | .pop => .ok (.string "Pop")
  | .ret => .ok (.string "Ret")

/-- The document of a list of names. -/
def namesDocument (names : List String) : Yaml := .sequence (names.map Yaml.string)

/-- The document of a method, with its labels sorted by name. -/
def MethodCode.document (method : MethodCode) : Except DocumentFault Yaml := do
  let code ← method.code.mapM Instruction.document
  return .mapping
    [("name", .string method.name),
     ("params", namesDocument method.params),
     ("slots", namesDocument method.slots),
     ("code", .sequence code),
     ("labels", .mapping (method.labels.map fun (label, index) => (label.name, .nat index)))]

/-- The document of a class. -/
def ClassCode.document (decl : ClassCode) : Except DocumentFault Yaml := do
  let methods ← decl.methods.mapM MethodCode.document
  return .mapping
    [("name", .string decl.name),
     ("base", decl.base.elim .null .string),
     ("fields", namesDocument decl.fields),
     ("methods", .sequence methods)]

/-- The document of a program. -/
def Artifact.document (artifact : Artifact) : Except DocumentFault Yaml := do
  let classes ← artifact.classes.mapM ClassCode.document
  return .mapping [("classes", .sequence classes), ("entry", .string artifact.entry)]

end ClassLang
