/-! # Lines of a text

A text is cut at newlines; a carriage return directly before a newline is cut off with it, and a
newline at the end starts no further line. -/

namespace ClassLang.Text

/-- The lines of a run of characters. -/
def cutLines : List Char → List (List Char)
  | [] => []
  | c :: rest =>
    if c = '\n' then [] :: cutLines rest
    else if c = '\r' ∧ rest.head? = some '\n' then cutLines rest
    else
      match cutLines rest with
      | [] => [[c]]
      | line :: lines => (c :: line) :: lines

/-- A line of a text by its number, counted from one; there is nothing on a line that is not there. -/
def line (text : String) (number : Nat) : String :=
  String.ofList (((cutLines text.toList)[number - 1]?).getD [])

end ClassLang.Text
