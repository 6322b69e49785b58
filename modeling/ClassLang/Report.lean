import ClassLang.Analysis
import ClassLang.Text.Lines
import ClassLang.Text.Styled

/-! # Reports

What is shown on a terminal about a program: notices with the source line they are about, the table
of tokens and the table of types. -/

namespace ClassLang

open Text (Styled plain coloured bold underlined)

/-! ## Notices -/

/-- A line for the reader. -/
inductive Notice where
  | error (text : String)
  | warning (text : String)
  | note (text : String)
  deriving DecidableEq, Repr

namespace Notice

/-- A notice as a line. -/
def styled : Notice → Styled
  | error text => [bold .red "error", plain (": " ++ text ++ "\n")]
  | warning text => [bold .yellow "warn", plain (": " ++ text ++ "\n")]
  | note text => [bold .green "note", plain (": " ++ text ++ "\n")]

/-- The notice of a diagnostic. -/
def ofDiagnostic (diagnostic : Diagnostic) : Notice :=
  match diagnostic.severity with
  | .error => .error diagnostic.message
  | .warning => .warning diagnostic.message

/-- A place in a file with its source line, and a caret below the column. -/
def excerpt (file source : String) (position : Position) : Styled :=
  [plain "     ", coloured .blue "-->", plain " ", underlined (file ++ ":" ++ position.display),
    plain "\n",
    plain "      ", coloured .blue "|", plain "\n",
    plain " ", coloured .blue (Text.padLeft 4 (toString position.line) ++ " |"),
    plain (" " ++ Text.line source position.line ++ "\n"),
    plain "      ", coloured .blue "|",
    plain (" " ++ String.ofList (List.replicate (position.column - 1) ' ')),
    bold .red "^", plain "\n"]

/-- A notice about a place in a file. -/
def about (notice : Notice) (file source : String) (position : Position) : Styled :=
  notice.styled ++ excerpt file source position

end Notice

/-- A fault in a file. -/
def Fault.report (fault : Fault) (file source : String) : Styled :=
  (Notice.error fault.message).about file source fault.position

/-- A diagnostic about a file. -/
def Diagnostic.report (diagnostic : Diagnostic) (file source : String) : Styled :=
  (Notice.ofDiagnostic diagnostic).about file source diagnostic.position

/-! ## Tables -/

/-- The line of a token in a table. -/
def Token.row (token : Token) : Styled :=
  let place := plain ("| " ++ Text.padLeft 8 token.position.display ++ " | ")
  match token.kind with
  | .malformed => [place, coloured .red token.kind.name, plain (" " ++ token.text ++ "\n")]
  | .endOfFile => [place, coloured .magenta token.kind.name, plain "\n"]
  | _ => [place, coloured .green token.kind.name, plain (" " ++ token.text ++ "\n")]

/-- The heading of a table, filled up with dashes. -/
def tableHeading (title : String) : String :=
  let start := "+-[" ++ title ++ "]-+"
  start ++ String.ofList (List.replicate (75 - start.length) '-') ++ "\n"

/-- The table of tokens. -/
def tokenTable (tokens : List Token) : Styled :=
  plain (tableHeading "Tokens") :: tokens.flatMap Token.row

/-- The table of types, with the counts of scopes. -/
def Analysis.typeTable (analysis : Analysis) : Styled :=
  plain (tableHeading "Types") ::
    analysis.annotations.flatMap (fun (name, type) =>
      [plain "| ", coloured .blue name, plain (" : " ++ type ++ "\n")]) ++
    [plain "| scopes entered ", coloured .yellow (toString analysis.scopes.entered),
      plain ", exited ", coloured .yellow (toString analysis.scopes.exited),
      plain ", max depth ", coloured .yellow (toString analysis.scopes.maxDepth), plain "\n"]

end ClassLang
