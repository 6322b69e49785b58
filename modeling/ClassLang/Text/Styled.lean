/-! # Styled text

Text for a terminal is a sequence of spans, each with a style. Between two spans only what changes
of the style is written, as a control sequence; text before the first span and after the last one
has no style. -/

namespace ClassLang.Text

/-- The colours of a terminal. -/
inductive Colour where
  | red
  | green
  | yellow
  | blue
  | magenta
  deriving DecidableEq, Repr

/-- How a span is shown. -/
structure Style where
  /-- The colour, if it is not the usual one. -/
  colour : Option Colour := none
  /-- Whether the span is bold. -/
  bold : Bool := false
  /-- Whether the span is underlined. -/
  underlined : Bool := false
  deriving DecidableEq, Repr

/-- A piece of text in one style. -/
structure Span where
  /-- How the text is shown. -/
  style : Style
  /-- The text. -/
  text : String
  deriving DecidableEq, Repr

/-- A sequence of spans. -/
abbrev Styled := List Span

/-- Text without a style. -/
def plain (text : String) : Span := ⟨{}, text⟩

/-- Text in a colour. -/
def coloured (colour : Colour) (text : String) : Span := ⟨{ colour := some colour }, text⟩

/-- Bold text in a colour. -/
def bold (colour : Colour) (text : String) : Span := ⟨{ colour := some colour, bold := true }, text⟩

/-- Underlined text. -/
def underlined (text : String) : Span := ⟨{ underlined := true }, text⟩

/-- The control sequence with a given parameter. -/
def control (parameter : Nat) : String := "\x1b[" ++ toString parameter ++ "m"

/-- The control sequence that sets a colour, or the usual one. -/
def Colour.set : Option Colour → String
  | some .red => control 31
  | some .green => control 32
  | some .yellow => control 33
  | some .blue => control 34
  | some .magenta => control 35
  | none => control 39

/-- The control sequences between two styles. -/
def Style.transition (before after : Style) : String :=
  (if before.colour = after.colour then "" else Colour.set after.colour) ++
  (if before.bold = after.bold then "" else control (if after.bold then 1 else 22)) ++
  (if before.underlined = after.underlined then "" else control (if after.underlined then 4 else 24))

/-- The spans that follow text in a given style, with control sequences. -/
def Styled.renderAfter (style : Style) : Styled → String
  | [] => style.transition {}
  | span :: rest => style.transition span.style ++ span.text ++ Styled.renderAfter span.style rest

/-- Styled text with control sequences. -/
def Styled.render (styled : Styled) : String := Styled.renderAfter {} styled

/-- Text filled up with blanks on the right. -/
def padRight (width : Nat) (text : String) : String :=
  text ++ String.ofList (List.replicate (width - text.length) ' ')

/-- Text filled up with blanks on the left. -/
def padLeft (width : Nat) (text : String) : String :=
  String.ofList (List.replicate (width - text.length) ' ') ++ text

end ClassLang.Text
