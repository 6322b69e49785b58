import ClassLang.Proofs.Listing.Instructions

/-! # Listings

The plain listing of a program is unambiguous: programs with the same listing have the same code.
The text determines its lines, since no line holds a newline. What a line is can be told from its
first characters, so the lines fall into classes, methods and instructions in one way only. Within a
line names are words, which end where another character follows. -/

namespace ClassLang

open Lexeme List Program Instruction

variable {decl : ClassCode} {method : MethodCode}

/-! ## Methods -/

namespace MethodCode

/-- The line that a method starts with. -/
def headLine (method : MethodCode) : String :=
  "  .method " ++ method.name ++ "(" ++ commaSeparated method.params ++ ")"

/-- The line with the variables of a method. -/
def slotsLine (method : MethodCode) : String := "  .locals " ++ slotsText method.slots

/-- The lines of a method behind the first. -/
def bodyLines (method : MethodCode) : List String :=
  method.slotsLine :: method.code.map Instruction.lineText

/-- The listing of a method consists of its lines. -/
theorem listing_eq (method : MethodCode) :
    method.listing = unlines (method.headLine :: method.bodyLines) := by
  have lines : String.join (method.code.map line) =
      unlines (method.code.map lineText) := by
    unfold unlines
    rw [map_map]
    exact congrArg String.join (map_congr_left fun instruction _ => instruction.line_eq)
  have closing : ")\n" = ")" ++ "\n" := by decide
  unfold listing
  rw [bodyLines, unlines_cons, unlines_cons, lines, closing, headLine, slotsLine]
  simp only [String.append_assoc]

variable {first second : MethodCode}

/-- The first line of a method determines its name and its parameters. -/
theorem headLine_inj (word : IsWord first.name) (word' : IsWord second.name)
    (params : ∀ name ∈ first.params, IsWord name) (params' : ∀ name ∈ second.params, IsWord name)
    (same : first.headLine = second.headLine) :
    first.name = second.name ∧ first.params = second.params := by
  have characters := congrArg String.toList same
  simp only [headLine, String.toList_append, append_assoc] at characters
  obtain ⟨name, rest⟩ := word.append_cons_inj word' (by decide) (append_cancel_left characters)
  have list := String.toList_inj.mp (append_cancel_right rest)
  exact ⟨name, commaSeparated_inj (fun text mem => (params text mem).plain)
    (fun text mem => (params' text mem).plain) list⟩

/-- The entries for the variables of a method are not empty and hold no commas. -/
theorem plain_of_mem_slots {slots : List String} (words : ∀ name ∈ slots, IsWord name) :
    ∀ text ∈ slots.mapIdx fun slot name => toString slot ++ ": " ++ name,
      text.toList ≠ [] ∧ ',' ∉ text.toList := by
  intro text mem
  obtain ⟨slot, bound, rfl⟩ := mem_mapIdx.mp mem
  have word := words _ (getElem_mem bound)
  have digits : (toString slot).toList = Nat.toDigits 10 slot := Decimal.toList_toString_ofNat slot
  simp only [String.toList_append, mem_append, not_or]
  refine ⟨?_, ⟨fun comma => ?_, by decide⟩, word.plain.2⟩
  · exact append_ne_nil_of_right_ne_nil _ word.plain.1
  · rw [digits] at comma
    exact absurd (Decimal.isDigit_toDigits slot _ comma) (by decide)

/-- The line with the variables of a method determines them. -/
theorem slotsLine_inj (words : ∀ name ∈ first.slots, IsWord name)
    (words' : ∀ name ∈ second.slots, IsWord name) (same : first.slotsLine = second.slotsLine) :
    first.slots = second.slots := by
  have characters := congrArg String.toList same
  simp only [slotsLine, slotsText, String.toList_append, append_assoc] at characters
  have list := String.toList_inj.mp (append_cancel_right
    (append_cancel_left (append_cancel_left characters)))
  have entries := commaSeparated_inj (plain_of_mem_slots words) (plain_of_mem_slots words') list
  apply ext_getElem?
  intro slot
  have entry := congrArg (fun entries : List String => entries[slot]?) entries
  simp only [getElem?_mapIdx] at entry
  refine Option.map_injective (fun name other same => ?_) entry
  have characters := congrArg String.toList same
  simp only [String.toList_append] at characters
  exact String.toList_inj.mp (append_cancel_left characters)

/-- Methods have different lines. -/
theorem eq_of_lines (words : ∀ name ∈ first.names, IsWord name)
    (words' : ∀ name ∈ second.names, IsWord name) (sameHead : first.headLine = second.headLine)
    (sameBody : first.bodyLines = second.bodyLines) : first = second := by
  obtain ⟨name, others⟩ := forall_mem_cons.mp words
  obtain ⟨params, others⟩ := forall_mem_append.mp others
  obtain ⟨slots, code⟩ := forall_mem_append.mp others
  obtain ⟨name', others'⟩ := forall_mem_cons.mp words'
  obtain ⟨params', others'⟩ := forall_mem_append.mp others'
  obtain ⟨slots', code'⟩ := forall_mem_append.mp others'
  obtain ⟨sameName, sameParams⟩ := headLine_inj name name' params params' sameHead
  obtain ⟨slotsLine, lines⟩ := List.cons.inj sameBody
  have sameSlots := slotsLine_inj slots slots' slotsLine
  have inCode {method : MethodCode}
      (words : ∀ name ∈ method.code.flatMap Instruction.names, IsWord name)
      {instruction : Instruction} (mem : instruction ∈ method.code) :
      ∀ name ∈ instruction.names, IsWord name := fun name named =>
    words name (mem_flatMap.mpr ⟨instruction, mem, named⟩)
  have sameCode := map_inj_of_mem (fun instruction mem other mem' =>
    lineText_inj (inCode code mem) (inCode code' mem')) lines
  obtain ⟨_, _, _, _⟩ := first
  obtain ⟨_, _, _, _⟩ := second
  cases sameName
  cases sameParams
  cases sameSlots
  cases sameCode
  rfl

/-- The lines of a method are single lines. -/
theorem flat_lines (words : ∀ name ∈ method.names, IsWord name) :
    ∀ line ∈ method.headLine :: method.bodyLines, Flat line := by
  obtain ⟨name, others⟩ := forall_mem_cons.mp words
  obtain ⟨params, others⟩ := forall_mem_append.mp others
  obtain ⟨slots, code⟩ := forall_mem_append.mp others
  refine forall_mem_cons.mpr ⟨?_, forall_mem_cons.mpr ⟨?_, forall_mem_map.mpr ?_⟩⟩
  · have list := flat_commaSeparated fun text mem => (params text mem).flat
    simp only [headLine, flat_append]
    exact ⟨⟨⟨⟨by decide, name.flat⟩, by decide⟩, list⟩, by decide⟩
  · simp only [slotsLine, slotsText, flat_append]
    refine ⟨by decide, ⟨by decide, flat_commaSeparated fun text mem => ?_⟩, by decide⟩
    obtain ⟨slot, bound, rfl⟩ := mem_mapIdx.mp mem
    simp only [flat_append]
    exact ⟨⟨(visible_toString slot).notMem (by decide), by decide⟩, (slots _ (getElem_mem bound)).flat⟩
  · intro instruction mem
    exact flat_lineText fun name named =>
      code name (mem_flatMap.mpr ⟨instruction, mem, named⟩)

end MethodCode

/-! ## Classes -/

/-- The first characters of a line, which tell what it is. -/
def lineStart (line : String) : List Char := line.toList.take 4

/-- The line of an instruction starts with blanks or with a word. -/
theorem Instruction.lineStart_lineText_ne {instruction : Instruction}
    (words : ∀ name ∈ instruction.names, IsWord name) {start : Char} {rest : List Char}
    (apart : isWordStart start = false) (notBlank : start :: rest ≠ [' ', ' ', ' ', ' ']) :
    lineStart instruction.lineText ≠ start :: rest := by
  obtain ⟨c, others, text, starts⟩ := lineText_cases words
  rw [lineStart, text]
  intro same
  split at starts
  · rw [(List.cons.inj same).1, apart] at starts
    cases starts
  · exact notBlank (same.symm.trans starts)

namespace ClassCode

/-- What follows the name of a class. -/
def baseText : Option String → String
  | some base => " extends " ++ base
  | none => ""

/-- The line that a class starts with. -/
def headLine (decl : ClassCode) : String := ".class " ++ decl.name ++ baseText decl.base

/-- The line of a field. -/
def fieldLine (field : String) : String := "  .field " ++ field

/-- The lines of a class behind the first. -/
def bodyLines (decl : ClassCode) : List String :=
  decl.fields.map fieldLine ++
    decl.methods.flatMap fun method => method.headLine :: method.bodyLines

/-- The listing of a class consists of its lines. -/
theorem listing_eq (decl : ClassCode) :
    decl.listing = unlines (decl.headLine :: decl.bodyLines) := by
  have methods : decl.methods.map MethodCode.listing =
      decl.methods.map fun method => unlines (method.headLine :: method.bodyLines) :=
    map_congr_left fun method _ => method.listing_eq
  have fields : unlines (decl.fields.map fieldLine) =
      String.join (decl.fields.map fun field => "  .field " ++ field ++ "\n") := by
    rw [unlines, map_map]
    rfl
  have base : decl.listing = ".class " ++ decl.name ++ baseText decl.base ++ "\n" ++
      String.join (decl.fields.map fun field => "  .field " ++ field ++ "\n") ++
      String.join (decl.methods.map MethodCode.listing) := by
    unfold listing baseText
    cases decl.base <;> rfl
  rw [base, unlines_cons, bodyLines, unlines_append, unlines_flatMap, ← methods, fields, headLine]
  simp only [String.append_assoc]

variable {first second : ClassCode}

/-- The first line of a class determines its name and the class it extends. -/
theorem headLine_inj (word : IsWord first.name) (word' : IsWord second.name)
    (same : first.headLine = second.headLine) :
    first.name = second.name ∧ first.base = second.base := by
  have characters := congrArg String.toList same
  simp only [headLine, String.toList_append, append_assoc] at characters
  have stop (base : Option String) : ∀ c ∈ (baseText base).toList.head?, isWordPart c = false := by
    cases base with
    | none => nofun
    | some base =>
      intro c first
      rw [baseText, String.toList_append] at first
      cases first
      decide
  obtain ⟨name, rest⟩ := word.append_inj word' (stop _) (stop _) (append_cancel_left characters)
  refine ⟨name, ?_⟩
  cases base : first.base with
  | none =>
    cases base' : second.base with
    | none => rfl
    | some _ => simp [base, base', baseText] at rest
  | some _ =>
    cases base' : second.base with
    | none => simp [base, base', baseText] at rest
    | some _ =>
      rw [base, base', baseText, baseText, String.toList_append, String.toList_append] at rest
      rw [String.toList_inj.mp (append_cancel_left rest)]

/-- The names in the code of each method are words. -/
theorem words_of_mem (words : ∀ name ∈ decl.names, IsWord name) (mem : method ∈ decl.methods) :
    ∀ name ∈ method.names, IsWord name := by
  obtain ⟨-, others⟩ := forall_mem_cons.mp words
  obtain ⟨-, others⟩ := forall_mem_append.mp others
  obtain ⟨-, methods⟩ := forall_mem_append.mp others
  exact fun name named => methods name (mem_flatMap.mpr ⟨method, mem, named⟩)

/-- Behind the first line of a method no other method starts. -/
theorem lineStart_bodyLines_ne (words : ∀ name ∈ method.names, IsWord name) :
    ∀ line ∈ method.bodyLines, lineStart line ≠ "  .m".toList ∧ lineStart line ≠ ".cla".toList := by
  obtain ⟨-, others⟩ := forall_mem_cons.mp words
  obtain ⟨-, others⟩ := forall_mem_append.mp others
  obtain ⟨-, code⟩ := forall_mem_append.mp others
  refine forall_mem_cons.mpr ⟨?_, forall_mem_map.mpr fun instruction mem => ?_⟩
  · have slots : lineStart method.slotsLine = "  .l".toList := by
      rw [lineStart, MethodCode.slotsLine, String.toList_append]
      rfl
    rw [slots]
    decide
  · have words : ∀ name ∈ instruction.names, IsWord name := fun name named =>
      code name (mem_flatMap.mpr ⟨instruction, mem, named⟩)
    exact ⟨lineStart_lineText_ne words (by decide) (by decide),
      lineStart_lineText_ne words (by decide) (by decide)⟩

theorem lineStart_fieldLine (field : String) : lineStart (fieldLine field) = "  .f".toList := by
  rw [lineStart, fieldLine, String.toList_append]
  rfl

theorem lineStart_methodLine (method : MethodCode) : lineStart method.headLine = "  .m".toList := by
  simp only [lineStart, MethodCode.headLine, String.toList_append, append_assoc]
  rfl

theorem lineStart_headLine (decl : ClassCode) : lineStart decl.headLine = ".cla".toList := by
  simp only [lineStart, headLine, String.toList_append, append_assoc]
  rfl

/-- Behind the first line of a class no other class starts. -/
theorem lineStart_ne_of_mem_bodyLines (words : ∀ name ∈ decl.names, IsWord name) :
    ∀ line ∈ decl.bodyLines, lineStart line ≠ ".cla".toList := by
  refine forall_mem_append.mpr ⟨forall_mem_map.mpr fun field _ => ?_, fun line mem => ?_⟩
  · rw [lineStart_fieldLine]
    decide
  · obtain ⟨method, among, inside⟩ := mem_flatMap.mp mem
    rcases mem_cons.mp inside with rfl | inside
    · rw [lineStart_methodLine]
      decide
    · exact (lineStart_bodyLines_ne (words_of_mem words among) line inside).2

/-- Classes have different lines. -/
theorem eq_of_lines (words : ∀ name ∈ first.names, IsWord name)
    (words' : ∀ name ∈ second.names, IsWord name) (sameHead : first.headLine = second.headLine)
    (sameBody : first.bodyLines = second.bodyLines) : first = second := by
  obtain ⟨sameName, sameBase⟩ := headLine_inj (words _ mem_cons_self)
    (words' _ mem_cons_self) sameHead
  have isField (fields : List String) :
      ∀ line ∈ fields.map fieldLine, lineStart line = "  .f".toList :=
    forall_mem_map.mpr fun field _ => lineStart_fieldLine field
  -- the fields end where the first method starts
  have stop (methods : List MethodCode) :
      ∀ line ∈ (methods.flatMap fun method => method.headLine :: method.bodyLines).head?,
        ¬lineStart line = "  .f".toList := by
    cases methods with
    | nil => nofun
    | cons method methods =>
      rintro _ ⟨⟩
      rw [lineStart_methodLine]
      decide
  obtain ⟨fieldLines, methodLines⟩ := append_inj_of_stop (isField first.fields)
    (isField second.fields) (stop first.methods) (stop second.methods) sameBody
  have sameFields : first.fields = second.fields := by
    refine map_inj_of_mem (fun field _ other _ same => ?_) fieldLines
    have characters := congrArg String.toList same
    rw [fieldLine, fieldLine, String.toList_append, String.toList_append] at characters
    exact String.toList_inj.mp (append_cancel_left characters)
  have sameMethods : first.methods = second.methods :=
    flatMap_inj_of_mark (lineStart · = "  .m".toList) MethodCode.headLine MethodCode.bodyLines
      lineStart_methodLine
      (fun method mem line inside =>
        (lineStart_bodyLines_ne (words_of_mem words mem) line inside).1)
      (fun method mem line inside =>
        (lineStart_bodyLines_ne (words_of_mem words' mem) line inside).1)
      (fun method mem other mem' => MethodCode.eq_of_lines (words_of_mem words mem)
        (words_of_mem words' mem')) methodLines
  obtain ⟨_, _, _, _⟩ := first
  obtain ⟨_, _, _, _⟩ := second
  cases sameName
  cases sameBase
  cases sameFields
  cases sameMethods
  rfl

/-- The lines of a class are single lines. -/
theorem flat_lines (words : ∀ name ∈ decl.names, IsWord name) :
    ∀ line ∈ decl.headLine :: decl.bodyLines, Flat line := by
  obtain ⟨name, others⟩ := forall_mem_cons.mp words
  obtain ⟨base, others⟩ := forall_mem_append.mp others
  obtain ⟨fields, -⟩ := forall_mem_append.mp others
  refine forall_mem_cons.mpr ⟨?_, forall_mem_append.mpr ⟨?_, fun line mem => ?_⟩⟩
  · have extends' : Flat (baseText decl.base) := by
      cases known : decl.base with
      | none => decide
      | some text =>
        rw [known] at base
        exact flat_append.mpr ⟨by decide, (forall_mem_singleton.mp base).flat⟩
    simp only [headLine, flat_append]
    exact ⟨⟨by decide, name.flat⟩, extends'⟩
  · refine forall_mem_map.mpr fun field mem => ?_
    exact flat_append.mpr ⟨by decide, (fields field mem).flat⟩
  · obtain ⟨method, among, inside⟩ := mem_flatMap.mp mem
    exact MethodCode.flat_lines (words_of_mem words among) line inside

end ClassCode

/-! ## Programs -/

namespace Artifact

/-- The line that says where a program starts. -/
def entryLine (artifact : Artifact) : String := ".entry " ++ artifact.entry

/-- The lines of the classes of a program. -/
def classLines (artifact : Artifact) : List String :=
  artifact.classes.flatMap fun decl => decl.headLine :: decl.bodyLines

/-- The listing of a program consists of its lines. -/
theorem listing_eq (artifact : Artifact) :
    artifact.listing = unlines (artifact.classLines ++ [artifact.entryLine]) := by
  have classes : artifact.classes.map ClassCode.listing =
      artifact.classes.map fun decl => unlines (decl.headLine :: decl.bodyLines) :=
    map_congr_left fun decl _ => decl.listing_eq
  rw [unlines_append, unlines_cons, classLines, unlines_flatMap, ← classes, listing, entryLine]
  simp only [String.append_assoc]
  rfl

/-- Whether all names in the code of a program are words, also those of its start. -/
structure IsWorded (artifact : Artifact) : Prop where
  names : ∀ name ∈ artifact.names, IsWord name
  /-- The class and the method where the program starts are words. -/
  entry : ∃ owner method, artifact.entry = owner ++ "." ++ method ∧ IsWord owner ∧ IsWord method

namespace IsWorded

variable {artifact : Artifact}

theorem of_mem (worded : artifact.IsWorded) (mem : decl ∈ artifact.classes) :
    ∀ name ∈ decl.names, IsWord name := fun name named =>
  worded.names name (mem_flatMap.mpr ⟨decl, mem, named⟩)

/-- The lines of the code of a program are single lines. -/
theorem flat_lines (worded : artifact.IsWorded) :
    ∀ line ∈ artifact.classLines ++ [artifact.entryLine], Flat line := by
  refine forall_mem_append.mpr ⟨fun line mem => ?_, forall_mem_singleton.mpr ?_⟩
  · obtain ⟨decl, among, inside⟩ := mem_flatMap.mp mem
    exact ClassCode.flat_lines (worded.of_mem among) line inside
  · obtain ⟨owner, method, entry, word, word'⟩ := worded.entry
    rw [entryLine, entry]
    simp only [flat_append]
    exact ⟨by decide, ⟨word.flat, by decide⟩, word'.flat⟩

/-- Code in which all names are words is determined by its listing. -/
theorem eq_of_listing {first second : Artifact} (worded : first.IsWorded)
    (worded' : second.IsWorded) (same : first.listing = second.listing) : first = second := by
  rw [listing_eq, listing_eq] at same
  have lines := unlines_inj worded.flat_lines worded'.flat_lines same
  obtain ⟨classLines, entryLines⟩ := append_inj' lines rfl
  have sameClasses : first.classes = second.classes :=
    flatMap_inj_of_mark (lineStart · = ".cla".toList) ClassCode.headLine ClassCode.bodyLines
      ClassCode.lineStart_headLine
      (fun decl mem => ClassCode.lineStart_ne_of_mem_bodyLines (worded.of_mem mem))
      (fun decl mem => ClassCode.lineStart_ne_of_mem_bodyLines (worded'.of_mem mem))
      (fun decl mem other mem' => ClassCode.eq_of_lines (worded.of_mem mem) (worded'.of_mem mem'))
      classLines
  have characters := congrArg String.toList (singleton_inj.mp entryLines)
  rw [entryLine, entryLine, String.toList_append, String.toList_append] at characters
  have sameEntry := String.toList_inj.mp (append_cancel_left characters)
  obtain ⟨_, _⟩ := first
  obtain ⟨_, _⟩ := second
  cases sameClasses
  cases sameEntry
  rfl

end IsWorded

/-- Whether code is that of a program that was read from a text, simplified or not. -/
def IsCompiled (artifact : Artifact) : Prop :=
  ∃ text program, Program.ofText text = .ok program ∧
    (program.lower = .ok artifact ∨ program.simplify.lower = .ok artifact)

/-- In the code of a program that was read, all names are words. -/
theorem IsCompiled.isWorded {artifact : Artifact} (compiled : artifact.IsCompiled) :
    artifact.IsWorded := by
  obtain ⟨text, program, read, lowered | lowered⟩ := compiled
  · have words := isWord_declaredNames (isWord_of_ofText read)
    exact ⟨isWord_names lowered words, isWord_entry lowered words⟩
  · have words := isWord_declaredNames
      (isWord_simplify (isWord_of_ofText read))
    exact ⟨isWord_names lowered words, isWord_entry lowered words⟩

/-- The plain listing is unambiguous: programs with the same listing have the same code, whatever
texts they were read from and whether they were simplified or not. -/
theorem eq_of_listing_eq {first second : Artifact} (compiled : first.IsCompiled)
    (compiled' : second.IsCompiled) (same : first.listing = second.listing) : first = second :=
  compiled.isWorded.eq_of_listing compiled'.isWorded same

end Artifact

/-- A class with a field that a loop reads into a variable. -/
def readingLoop (init : Expr) : Program :=
  let loop : Stmt := .loop
    (.binary .lt (.ident "x" [] ⟨1, 47⟩) (.int "3" ⟨1, 51⟩) ⟨1, 47⟩)
    [.declare "y" (.ident "x" [] ⟨1, 66⟩) ⟨1, 58⟩] ⟨1, 41⟩
  ⟨[⟨"É", none, [], [.field ⟨"x", init, ⟨1, 12⟩⟩, .method ⟨"main", [], none, [loop], ⟨1, 26⟩⟩],
    ⟨1, 1⟩⟩]⟩

/-- The simplified program with a sum as the initial value and the plain program with the result
have the same listing, and so they have the same code. -/
theorem Artifact.eq_of_listing_eq_readingLoop :
    let sum := readingLoop (.binary .add (.int "1" ⟨1, 20⟩) (.int "1" ⟨1, 24⟩) ⟨1, 20⟩)
    let two := readingLoop (.int "2" ⟨1, 20⟩)
    Program.ofText
        "class É is var x : 1 + 1 method main is while x < 3 loop var y : x end end end" = .ok sum ∧
      Program.ofText
        "class É is var x : 2     method main is while x < 3 loop var y : x end end end" = .ok two ∧
      ∃ first second, sum.simplify.lower = .ok first ∧ two.lower = .ok second ∧
        first.listing = second.listing ∧ first = second := by
  intro sum two
  have readSum : Program.ofText
      "class É is var x : 1 + 1 method main is while x < 3 loop var y : x end end end" =
        .ok sum := by decide +kernel
  have readTwo : Program.ofText
      "class É is var x : 2     method main is while x < 3 loop var y : x end end end" =
        .ok two := by decide +kernel
  refine ⟨readSum, readTwo, _, _, rfl, rfl, ?same, ?equal⟩
  case same => decide +kernel
  case equal =>
    exact Artifact.eq_of_listing_eq ⟨_, sum, readSum, .inr rfl⟩ ⟨_, two, readTwo, .inl rfl⟩
      (by decide +kernel)

end ClassLang
