import ClassLang.Text.Scalar

/-! # Documents in block form

Trees of scalars, sequences and mappings, written as YAML in block form: the items of a sequence
stand at the margin of the key they belong to, and the entries of a mapping two blanks behind it. A
line is kept with the line break that ends it. -/

namespace ClassLang.Text

/-- A document. -/
inductive Yaml where
  /-- The absent value. -/
  | null
  /-- A natural number. -/
  | nat (value : Nat)
  /-- A string. -/
  | string (text : String)
  /-- A sequence of items. -/
  | sequence (items : List Yaml)
  /-- A mapping of keys to values; keys are written as they are. -/
  | mapping (entries : List (String × Yaml))
  /-- A value with a tag. -/
  | tagged (tag : String) (value : Yaml)
  deriving Repr

namespace Yaml

/-- A line two blanks further right; a line without text stays empty. -/
def indent (line : String) : String :=
  if line.toList.head?.any Scalar.isBreak then line else "  " ++ line

/-- Lines with a mark before the first. -/
def mark (text : String) : List String → List String
  | [] => [text]
  | first :: rest => (text ++ first) :: rest

/-- Lines behind a mark: the first follows it, the others stand two blanks behind its margin. -/
def behind (text : String) : List String → List String
  | [] => [text]
  | first :: rest => (text ++ first) :: rest.map indent

/-- Whether a document starts on the line of its key or its tag. -/
def isInline : Yaml → Bool
  | .sequence (_ :: _) => false
  | .mapping (_ :: _) => false
  | .tagged _ value => value.isInline
  | _ => true

mutual

/-- The lines of a document. -/
def lines : Yaml → List String
  | .null => ["null\n"]
  | .nat value => [toString value ++ "\n"]
  | .string text => Scalar.lines text
  | .sequence [] => ["[]\n"]
  | .sequence (item :: items) => itemLines (item :: items)
  | .mapping [] => ["\x7b\x7d\n"]
  | .mapping (entry :: entries) => entryLines (entry :: entries)
  | .tagged tag value =>
    if value.isInline then mark ("!" ++ tag ++ " ") (lines value)
    else ("!" ++ tag ++ "\n") :: lines value

/-- The lines of the items of a sequence. -/
def itemLines : List Yaml → List String
  | [] => []
  | item :: items => behind "- " (lines item) ++ itemLines items

/-- The lines of the entries of a mapping. -/
def entryLines : List (String × Yaml) → List String
  | [] => []
  | (key, .sequence (item :: items)) :: entries =>
    (key ++ ":\n") :: itemLines (item :: items) ++ entryLines entries
  | (key, .mapping (entry :: inner)) :: entries =>
    (key ++ ":\n") :: (entryLines (entry :: inner)).map indent ++ entryLines entries
  | (key, value) :: entries => behind (key ++ ": ") (lines value) ++ entryLines entries

end

/-- The text of a document. The further lines of a lone scalar stand two blanks behind the margin. -/
def write (document : Yaml) : String :=
  String.join (if document.isInline then behind "" document.lines else document.lines)

end Yaml

end ClassLang.Text
