import ClassLang.Machine.Artifact

/-! # Listings

The code of a program as readable text, plain for files and styled for a terminal. -/

namespace ClassLang

open Text (Styled plain coloured bold)

/-- The variables of a method with their slots. -/
def slotsText (slots : List String) : String :=
  "[" ++ commaSeparated (slots.mapIdx fun slot name => toString slot ++ ": " ++ name) ++ "]"

/-! ## Plain -/

/-- The line of an instruction: labels at the margin, all else behind four blanks. -/
def Instruction.line : Instruction → String
  | .label place => (Instruction.label place).text ++ "\n"
  | instruction => "    " ++ instruction.text ++ "\n"

/-- The plain listing of a method. -/
def MethodCode.listing (method : MethodCode) : String :=
  "  .method " ++ method.name ++ "(" ++ commaSeparated method.params ++ ")\n" ++
    "  .locals " ++ slotsText method.slots ++ "\n" ++
    String.join (method.code.map Instruction.line)

/-- The plain listing of a class. -/
def ClassCode.listing (decl : ClassCode) : String :=
  let base :=
    match decl.base with
    | some base => " extends " ++ base
    | none => ""
  ".class " ++ decl.name ++ base ++ "\n" ++
    String.join (decl.fields.map fun field => "  .field " ++ field ++ "\n") ++
    String.join (decl.methods.map MethodCode.listing)

/-- The plain listing of a program. -/
def Artifact.listing (artifact : Artifact) : String :=
  String.join (artifact.classes.map ClassCode.listing) ++ ".entry " ++ artifact.entry ++ "\n"

/-! ## Styled -/

/-- The styled listing of a method. -/
def MethodCode.styledListing (method : MethodCode) : Styled :=
  [plain "  ", coloured .magenta ".method", plain " ", coloured .green method.name,
    plain ("(" ++ commaSeparated method.params ++ ")\n"),
    plain "  ", coloured .magenta ".locals", plain (" " ++ slotsText method.slots ++ "\n")] ++
    method.code.flatMap fun instruction => instruction.styled ++ [plain "\n"]

/-- The styled listing of a class. -/
def ClassCode.styledListing (decl : ClassCode) : Styled :=
  let base :=
    match decl.base with
    | some base => [plain " extends ", coloured .green base]
    | none => []
  [bold .magenta ".class", plain " ", coloured .green decl.name] ++ base ++ [plain "\n"] ++
    decl.fields.flatMap (fun field =>
      [plain "  ", coloured .magenta ".field", plain (" " ++ field ++ "\n")]) ++
    decl.methods.flatMap MethodCode.styledListing

/-- The styled listing of a program. -/
def Artifact.styledListing (artifact : Artifact) : Styled :=
  artifact.classes.flatMap ClassCode.styledListing ++
    [bold .magenta ".entry", plain " ", coloured .green artifact.entry, plain "\n"]

end ClassLang
