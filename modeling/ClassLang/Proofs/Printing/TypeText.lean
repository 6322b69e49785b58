import ClassLang.Proofs.Hierarchy.Overrides
import ClassLang.Proofs.Listing.Words
import ClassLang.Proofs.Printing.Spelling

/-! # Types told apart by their texts

A method is compared with the one that it overrides by the trees of its types, and the type of a
variable is recorded and compared as a text. The two agree. A name ends where a bracket or a comma
stands, so the text of a type determines its tree. -/

namespace ClassLang

namespace TypeRef

open List

/-! ## Names and the characters between them -/

/-- Whether a name has no bracket, comma or blank, the characters between the names of a type. -/
def Unmarked (name : String) : Prop := ∀ c ∈ name.toList, c ∉ ['[', ']', ',', ' ']

instance (name : String) : Decidable (Unmarked name) := List.decidableBAll _ _

/-- A name that the scanner finds is unmarked. -/
theorem unmarked_of_mem_scan {text : String} {token : Token} (mem : token ∈ Token.scan text)
    (kind : token.kind = .identifier) : Unmarked token.text := by
  have spelling : (.identifier, token.text) ∈ token.word.spelling? := by
    simp [Token.word, Word.spelling?, kind]
  obtain ⟨isWord, -⟩ := Word.isFound_of_lexical (Scanner.lexical_of_mem_tokens mem) spelling
  have apart : ∀ c ∈ ['[', ']', ',', ' '], (!Lexeme.isWordPart c) = true :=
    all_eq_true.mp (by decide)
  exact fun c inside marked => isWord.notMem (by simpa using apart c marked) inside

/-- The text of types after the first, each behind a comma and a blank. -/
def furtherText (types : List TypeRef) : List Char :=
  types.flatMap fun type => ',' :: ' ' :: type.source.toList

theorem furtherText_cons (type : TypeRef) (types : List TypeRef) (rest : List Char) :
    furtherText (type :: types) ++ rest =
      ',' :: ' ' :: (type.source.toList ++ (furtherText types ++ rest)) := by
  simp [furtherText]

/-- Types stand in brackets behind the name that is applied to them. -/
theorem toList_argumentsSource_cons (first : TypeRef) (others : List TypeRef) (rest : List Char) :
    (argumentsSource (first :: others)).toList ++ rest =
      '[' :: (first.source.toList ++ (furtherText others ++ ']' :: rest)) := by
  have texts : (sources others).flatMap (fun text => ',' :: ' ' :: text.toList) =
      furtherText others := by
    rw [sources_eq, flatMap_map, furtherText]
  simp [argumentsSource, sources, toList_commaSeparated, texts]

/-- Whether a text starts with a comma or a closing bracket, unless it is empty. -/
def EndsType (rest : List Char) : Prop := ∀ c ∈ rest.head?, c ∈ [',', ']']

theorem endsType_furtherText (types : List TypeRef) (rest : List Char) :
    EndsType (furtherText types ++ ']' :: rest) := by
  cases types <;> rintro _ ⟨⟩ <;> decide

theorem EndsType.ne_cons {rest others : List Char} (ends : EndsType rest) : rest ≠ '[' :: others := by
  rintro rfl
  exact absurd (ends '[' rfl) (by decide)

/-- An unmarked name ends before the types that it is applied to, or where these are missing. -/
theorem EndsType.stop {rest : List Char} (ends : EndsType rest) (arguments : List TypeRef) :
    ∀ c ∈ ((argumentsSource arguments).toList ++ rest).head?, ¬c ∉ ['[', ']', ',', ' '] := by
  cases arguments with
  | nil =>
    have marks : [',', ']'] ⊆ ['[', ']', ',', ' '] := by simp
    exact fun c mem => not_not_intro (marks (ends c mem))
  | cons first others =>
    rw [toList_argumentsSource_cons]
    rintro _ ⟨⟩
    decide

/-! ## Texts and trees -/

mutual

/-- The text of a type determines its tree and where it ends. -/
theorem erase_inj_of_text (first second : TypeRef)
    (plain : ∀ spelling ∈ first.spellings, Unmarked spelling.2)
    (plain' : ∀ spelling ∈ second.spellings, Unmarked spelling.2) {rest others : List Char}
    (ends : EndsType rest) (ends' : EndsType others)
    (same : first.source.toList ++ rest = second.source.toList ++ others) :
    first.erase = second.erase ∧ rest = others := by
  obtain ⟨name, arguments, position⟩ := first
  obtain ⟨name', arguments', position'⟩ := second
  obtain ⟨here, later⟩ := forall_mem_cons.mp plain
  obtain ⟨here', later'⟩ := forall_mem_cons.mp plain'
  rw [source_eq, source_eq, String.toList_append, String.toList_append, append_assoc,
    append_assoc] at same
  obtain ⟨names, tail⟩ :=
    append_inj_of_stop here here' (ends.stop arguments) (ends'.stop arguments') same
  obtain rfl : name = name' := String.toList_inj.mp names
  rw [erase, erase]
  cases arguments with
  | nil =>
    cases arguments' with
    | nil => exact ⟨rfl, tail⟩
    | cons type' types' =>
      rw [toList_argumentsSource_cons] at tail
      exact absurd tail ends.ne_cons
  | cons type types =>
    rw [toList_argumentsSource_cons] at tail
    cases arguments' with
    | nil => exact absurd tail.symm ends'.ne_cons
    | cons type' types' =>
      rw [toList_argumentsSource_cons] at tail
      -- behind one more comma and blank, these are the texts of further types
      obtain ⟨list, rest⟩ := eraseList_inj_of_text (type :: types) (type' :: types') later later'
        (by rw [furtherText_cons, furtherText_cons, (List.cons.inj tail).2])
      rw [list]
      exact ⟨rfl, rest⟩

theorem eraseList_inj_of_text (first second : List TypeRef)
    (plain : ∀ spelling ∈ listSpellings first, Unmarked spelling.2)
    (plain' : ∀ spelling ∈ listSpellings second, Unmarked spelling.2) {rest others : List Char}
    (same : furtherText first ++ ']' :: rest = furtherText second ++ ']' :: others) :
    eraseList first = eraseList second ∧ rest = others := by
  cases first with
  | nil =>
    cases second with
    | nil => exact ⟨rfl, (List.cons.inj same).2⟩
    | cons type' types' => cases same
  | cons type types =>
    cases second with
    | nil => cases same
    | cons type' types' =>
      obtain ⟨plainType, plainTypes⟩ := forall_mem_append.mp plain
      obtain ⟨plainType', plainTypes'⟩ := forall_mem_append.mp plain'
      rw [furtherText_cons, furtherText_cons] at same
      obtain ⟨head, further⟩ := erase_inj_of_text type type' plainType plainType'
        (endsType_furtherText _ _) (endsType_furtherText _ _) (List.cons.inj (List.cons.inj same).2).2
      obtain ⟨list, rest⟩ := eraseList_inj_of_text types types' plainTypes plainTypes' further
      rw [eraseList, eraseList, head, list]
      exact ⟨rfl, rest⟩

end

/-- Names that the scanner finds are unmarked. Types with unmarked names are the same apart from
positions if they have the same text. To be the same apart from positions is an equivalence. -/
theorem sameAs_iff_source_eq :
    (∀ name, (∃ text, ∃ token ∈ Token.scan text, token.kind = .identifier ∧ token.text = name) →
      Unmarked name) ∧
    (∀ first second : TypeRef, (∀ spelling ∈ first.spellings, Unmarked spelling.2) →
      (∀ spelling ∈ second.spellings, Unmarked spelling.2) →
      (first.sameAs second = true ↔ first.source = second.source)) ∧
    Equivalence fun first second : TypeRef => first.sameAs second = true := by
  refine ⟨?_, ?_, ?_⟩
  · rintro name ⟨text, token, mem, kind, rfl⟩
    exact unmarked_of_mem_scan mem kind
  · intro first second plain plain'
    rw [sameAs_iff]
    constructor
    · intro same
      rw [← first.source_erase, same, source_erase]
    · intro same
      have ends : EndsType [] := nofun
      exact (erase_inj_of_text first second plain plain' ends ends (by rw [same])).1
  · simp only [sameAs_iff]
    exact InvImage.equivalence _ erase eq_equivalence

/-- A table of arrays of numbers, on a line of a text. -/
def arrayTable (line : Nat) : TypeRef :=
  ⟨"Map", [⟨"String", [], ⟨line, 5⟩⟩, ⟨"Array", [⟨"Integer", [], ⟨line, 19⟩⟩], ⟨line, 13⟩⟩],
    ⟨line, 1⟩⟩

/-- A type of the same names in the same order, with the brackets around others of them. -/
def regrouped : TypeRef :=
  ⟨"Map", [⟨"String", [⟨"Array", [], .start⟩], .start⟩, ⟨"Integer", [], .start⟩], .start⟩

/-- Tables on two lines have one text, and the regrouped names have another. -/
theorem sameAs_arrayTable :
    (∀ spelling ∈ (arrayTable 1).spellings, ∃ token ∈ Token.scan "Map[String, Array[Integer]]",
      token.kind = .identifier ∧ token.text = spelling.2) ∧
      regrouped.spellings = (arrayTable 1).spellings ∧
      (arrayTable 1).source = (arrayTable 2).source ∧ (arrayTable 1).source ≠ regrouped.source := by
  obtain ⟨unmarked, agree, -⟩ := sameAs_iff_source_eq
  have scanned : ∀ spelling ∈ (arrayTable 1).spellings,
      ∃ token ∈ Token.scan "Map[String, Array[Integer]]",
        token.kind = .identifier ∧ token.text = spelling.2 := by
    decide +kernel
  have plain : ∀ spelling ∈ (arrayTable 1).spellings, Unmarked spelling.2 :=
    fun spelling mem => unmarked _ ⟨_, scanned spelling mem⟩
  exact ⟨scanned, rfl, (agree _ (arrayTable 2) plain plain).mp (by decide),
    mt (agree _ regrouped plain plain).mpr (by decide)⟩

end TypeRef

end ClassLang
