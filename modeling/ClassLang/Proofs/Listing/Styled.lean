import ClassLang.Proofs.Listing.Instructions

/-! # Plain and styled listings

Without control sequences, and with a single blank in place of the padding behind each mnemonic, the
styled listing of a program is the plain one, line for line. -/

namespace ClassLang

open Lexeme Text List Styled

/-! ## Control sequences -/

namespace Text

/-- A text without its control sequences, each of which goes from an escape character to the next `m`.
The text may start inside of one. -/
def withoutControls (inside : Bool) : List Char → List Char
  | [] => []
  | c :: rest =>
    if inside then withoutControls (c ≠ 'm') rest
    else if c = '\x1b' then withoutControls true rest
    else c :: withoutControls false rest

/-- The text of spans. -/
def Styled.characters (styled : Styled) : List Char := styled.flatMap fun span => span.text.toList

/-- Text without escape characters is kept. -/
theorem withoutControls_append {text : List Char} (free : '\x1b' ∉ text) (rest : List Char) :
    withoutControls false (text ++ rest) = text ++ withoutControls false rest := by
  induction text with
  | nil => rfl
  | cons c text ih =>
    rw [mem_cons, not_or] at free
    simp [withoutControls, ih free.2, Ne.symm free.1]

/-- The rest of a control sequence goes. -/
theorem withoutControls_inside {text : List Char} (free : 'm' ∉ text) (rest : List Char) :
    withoutControls true (text ++ 'm' :: rest) = withoutControls false rest := by
  induction text with
  | nil => rfl
  | cons c text ih =>
    rw [mem_cons, not_or] at free
    simp [withoutControls, ih free.2, Ne.symm free.1]

theorem withoutControls_control (parameter : Nat) (rest : List Char) :
    withoutControls false ((control parameter).toList ++ rest) = withoutControls false rest := by
  have digits : (toString parameter).toList = Nat.toDigits 10 parameter :=
    Decimal.toList_toString_ofNat parameter
  have free : 'm' ∉ '[' :: Nat.toDigits 10 parameter := by
    rw [mem_cons, not_or]
    exact ⟨by decide, fun mem => absurd (Decimal.isDigit_toDigits parameter _ mem) (by decide)⟩
  rw [control, String.toList_append, String.toList_append, digits, append_assoc, append_assoc]
  exact withoutControls_inside free rest

theorem withoutControls_transition (before after : Style) (rest : List Char) :
    withoutControls false ((before.transition after).toList ++ rest) = withoutControls false rest := by
  have colour (colour : Option Colour) (rest : List Char) :
      withoutControls false ((Colour.set colour).toList ++ rest) = withoutControls false rest := by
    rcases colour with _ | ⟨_ | _⟩ <;> exact withoutControls_control _ _
  -- whatever changes of the style is written as a control sequence
  have ifChanged (same : Prop) [Decidable same] {sequence : String}
      (goes : ∀ rest, withoutControls false (sequence.toList ++ rest) = withoutControls false rest)
      (rest : List Char) : withoutControls false ((if same then "" else sequence).toList ++ rest) =
        withoutControls false rest := by
    split
    · rfl
    · exact goes rest
  rw [Style.transition, String.toList_append, String.toList_append, append_assoc,
    append_assoc, ifChanged _ (colour _),
    ifChanged _ (withoutControls_control _), ifChanged _ (withoutControls_control _)]

/-- Only the text of the spans is left. -/
theorem withoutControls_renderAfter {styled : Styled} (free : '\x1b' ∉ styled.characters)
    (style : Style) :
    withoutControls false (renderAfter style styled).toList = styled.characters := by
  induction styled generalizing style with
  | nil =>
    have gone := withoutControls_transition style {} []
    rwa [append_nil] at gone
  | cons span rest ih =>
    rw [characters, flatMap_cons, mem_append, not_or] at free
    obtain ⟨here, later⟩ := free
    rw [renderAfter, String.toList_append, String.toList_append, append_assoc,
      withoutControls_transition, withoutControls_append here, ih later]
    rfl

/-! ## Columns -/

/-- The blanks in front of an instruction. -/
def indent : List Char := [' ', ' ', ' ', ' ']

/-- The mnemonics of instructions with operands. -/
def mnemonics : List (List Char) :=
  ["ldc", "ldloc", "stloc", "ldfld", "stfld", "br", "brfalse", "call"].map String.toList

/-- An instruction with one blank in place of the padding behind its mnemonic, or none if it takes no
operand. -/
def closeUp (instruction : List Char) : List Char :=
  let mnemonic := instruction.takeWhile (· ≠ ' ')
  let operand := (instruction.dropWhile (· ≠ ' ')).dropWhile (· = ' ')
  mnemonic ++ if mnemonic ∈ mnemonics then ' ' :: operand else operand

/-- A line without padding, if it is that of an instruction. -/
def closeUpLine (line : List Char) : List Char :=
  if indent <+: line then indent ++ closeUp (line.drop indent.length) else line

/-- Whether closing up the lines of one text gives those of another. -/
def ClosesUp (padded plain : List Char) : Prop :=
  (padded.splitOn '\n').map closeUpLine = plain.splitOn '\n'

variable {padded plain padded' plain' text rest : List Char} {blanks : Nat}

/-- Lines are closed up one by one. -/
theorem ClosesUp.append (first : ClosesUp padded plain) (second : ClosesUp padded' plain') :
    ClosesUp (padded ++ '\n' :: padded') (plain ++ '\n' :: plain') := by
  unfold ClosesUp at *
  rw [splitOn_append_cons_self, splitOn_append_cons_self, map_append, first, second]

/-- Whether a text has neither blanks nor escape characters. -/
def Tidy (text : List Char) : Prop := ' ' ∉ text ∧ '\x1b' ∉ text

/-- Whether a text has no escape character and no four blanks in a row, if a number of blanks stand
before it. -/
def calm (blanks : Nat) : List Char → Bool
  | [] => true
  | c :: rest =>
    c ≠ '\x1b' && if c = ' ' then blanks < 3 && calm (blanks + 1) rest else calm 0 rest

theorem calm_mono {fewer : Nat} (isCalm : calm blanks text = true) (le : fewer ≤ blanks) :
    calm fewer text = true := by
  induction text generalizing blanks fewer with
  | nil => rfl
  | cons c text ih =>
    rw [calm, Bool.and_eq_true] at isCalm ⊢
    refine ⟨isCalm.1, ?_⟩
    split
    · next blank =>
      simp only [if_pos blank, Bool.and_eq_true, decide_eq_true_eq] at isCalm ⊢
      exact ⟨Nat.lt_of_le_of_lt le isCalm.2.1, ih isCalm.2.2 (Nat.succ_le_succ le)⟩
    · next visible =>
      rw [if_neg visible] at isCalm
      exact isCalm.2

/-- A tidy text does no harm. -/
theorem calm_append (tidy : Tidy text) (isCalm : calm blanks rest = true) :
    calm blanks (text ++ rest) = true := by
  induction text generalizing blanks with
  | nil => exact isCalm
  | cons c text ih =>
    simp only [Tidy, mem_cons, not_or] at tidy
    rw [cons_append, calm, if_neg (Ne.symm tidy.1.1), Bool.and_eq_true]
    exact ⟨decide_eq_true (Ne.symm tidy.2.1),
      ih ⟨tidy.1.2, tidy.2.2⟩ (calm_mono isCalm (Nat.zero_le _))⟩

/-- Text that is calm before two blanks is so before all text that is calm behind one. -/
theorem calm_before (isCalm : calm blanks (text ++ [' ', ' ']) = true) (later : calm 1 rest = true) :
    calm blanks (text ++ rest) = true := by
  induction text generalizing blanks with
  | nil =>
    simp only [nil_append, calm, Bool.and_eq_true, decide_eq_true_eq, if_true] at isCalm
    exact calm_mono later (by omega)
  | cons c text ih =>
    rw [cons_append, calm, Bool.and_eq_true] at isCalm ⊢
    refine ⟨isCalm.1, ?_⟩
    split
    · next blank =>
      rw [if_pos blank, Bool.and_eq_true] at isCalm
      rw [Bool.and_eq_true]
      exact ⟨isCalm.2.1, ih isCalm.2.2⟩
    · next visible =>
      rw [if_neg visible] at isCalm
      exact ih isCalm.2

/-- What stands behind a character is calm as well. -/
theorem calm_of_cons {c : Char} (isCalm : calm blanks (c :: rest) = true) :
    c ≠ '\x1b' ∧ calm 0 rest = true := by
  rw [calm, Bool.and_eq_true, decide_eq_true_eq] at isCalm
  refine ⟨isCalm.1, ?_⟩
  split at isCalm
  · exact calm_mono (Bool.and_eq_true _ _ ▸ isCalm.2).2 (Nat.zero_le _)
  · exact isCalm.2

theorem escape_notMem_of_calm (isCalm : calm blanks text = true) : '\x1b' ∉ text := by
  induction text generalizing blanks with
  | nil => exact not_mem_nil
  | cons c text ih =>
    obtain ⟨other, further⟩ := calm_of_cons isCalm
    rw [mem_cons, not_or]
    exact ⟨Ne.symm other, ih further⟩

theorem calm_of_append (isCalm : calm 0 (text ++ rest) = true) : calm 0 rest = true := by
  induction text with
  | nil => exact isCalm
  | cons c text ih => exact ih (calm_of_cons isCalm).2

/-- No line of a calm text is that of an instruction. -/
theorem closesUp_of_calm (isCalm : calm 0 text = true) : ClosesUp text text := by
  have stays {line rest : List Char} (isCalm : calm 0 (line ++ rest) = true) :
      closeUpLine line = line := by
    refine if_neg ?_
    rintro ⟨more, rfl⟩
    cases isCalm
  induction length : text.length using Nat.strongRecOn generalizing text with
  | ind length ih =>
    by_cases inside : '\n' ∈ text
    · obtain ⟨first, others, rfl, flat⟩ := eq_append_cons_of_mem inside
      have first' : ClosesUp first first := by
        rw [ClosesUp, splitOn_eq_singleton flat, map_singleton, stays isCalm]
      refine first'.append (ih others.length ?_ (calm_of_cons (calm_of_append isCalm)).2 rfl)
      rw [← length, length_append, length_cons]
      omega
    · rw [← append_nil text] at isCalm
      rw [ClosesUp, splitOn_eq_singleton inside, map_singleton, stays isCalm]

/-- Texts with commas between them are calm before calm text if each of them is. -/
theorem calm_commaSeparated {texts : List String}
    (each : ∀ text ∈ texts, ∀ rest, calm 1 rest = true → calm 1 (text.toList ++ rest) = true)
    (isCalm : calm 1 rest = true) : calm 1 ((commaSeparated texts).toList ++ rest) = true := by
  cases texts with
  | nil => exact isCalm
  | cons text texts =>
    obtain ⟨here, later⟩ := forall_mem_cons.mp each
    rw [toList_commaSeparated, append_assoc]
    refine here _ ?_
    clear each here
    induction texts with
    | nil => exact isCalm
    | cons text texts ih =>
      obtain ⟨here, later⟩ := forall_mem_cons.mp later
      rw [flatMap_cons, append_assoc]
      exact here _ (ih later)

/-- The padding behind a mnemonic is closed up. -/
theorem closesUp_instruction {mnemonic operand : List Char} (word : ∀ c ∈ mnemonic, ' ' < c)
    (tidy : Tidy operand) (count : Nat) :
    ClosesUp (indent ++ (mnemonic ++ (List.replicate (count + 1) ' ' ++ operand)))
      (indent ++ (mnemonic ++ if mnemonic ∈ mnemonics then ' ' :: operand else operand)) := by
  have apart {c : Char} (hidden : ¬ ' ' < c) : c ∉ mnemonic := fun mem => hidden (word c mem)
  have single {operand : List Char} (free : ' ' ∉ operand) (flat : '\n' ∉ operand) :
      ClosesUp (indent ++ (mnemonic ++ (List.replicate (count + 1) ' ' ++ operand)))
        (indent ++ (mnemonic ++ if mnemonic ∈ mnemonics then ' ' :: operand else operand)) := by
    have flat' : '\n' ∉ mnemonic := apart (by decide)
    have stop : ∀ c ∈ operand.head?, decide (c = ' ') = false := fun c mem =>
      decide_eq_false fun blank => free (blank ▸ mem_of_mem_head? mem)
    have padding : ∀ c ∈ List.replicate (count + 1) ' ', decide (c = ' ') = true := fun c mem =>
      decide_eq_true (eq_of_mem_replicate mem)
    have stop' : ∀ c ∈ (List.replicate (count + 1) ' ' ++ operand).head?,
        decide (c ≠ ' ') = false := by
      rintro _ ⟨⟩
      rfl
    have all : ∀ c ∈ mnemonic, decide (c ≠ ' ') = true := fun c mem =>
      decide_eq_true fun blank => apart (by decide) (blank ▸ mem)
    rw [ClosesUp, splitOn_eq_singleton, splitOn_eq_singleton, map_singleton,
      closeUpLine, if_pos (prefix_append _ _), drop_left, closeUp,
      takeWhile_append_of_stop all stop', dropWhile_append_of_stop all stop',
      dropWhile_append_of_stop padding stop]
    · split <;> simp [indent, flat, flat']
    · simp [indent, flat, flat']
  by_cases inside : '\n' ∈ operand
  · -- a newline in a name ends the line of the instruction
    obtain ⟨first, others, rfl, flat⟩ := eq_append_cons_of_mem inside
    simp only [Tidy, mem_append, mem_cons, not_or] at tidy
    have isCalm : calm 0 (others ++ []) = true := calm_append ⟨tidy.1.2.2, tidy.2.2.2⟩ rfl
    rw [append_nil] at isCalm
    have both := (single tidy.1.1 flat).append (closesUp_of_calm isCalm)
    by_cases takes : mnemonic ∈ mnemonics <;> simpa [takes] using both
  · exact single tidy.1 inside

end Text

/-! ## Listings -/

/-- Whether spans have no escape characters, and their lines closed up are those of a text. -/
structure Agrees (styled : Styled) (text : String) : Prop where
  /-- All escape characters belong to control sequences. -/
  free : '\x1b' ∉ styled.characters
  /-- The lines are the same, whatever follows. -/
  closesUp : ∀ {rest rest' : List Char}, ClosesUp rest rest' →
    ClosesUp (styled.characters ++ rest) (text.toList ++ rest')

namespace Agrees

variable {styled styled' : Styled} {text text' : String} {padded line : List Char}

theorem append (first : Agrees styled text) (second : Agrees styled' text') :
    Agrees (styled ++ styled') (text ++ text') := by
  have both : characters (styled ++ styled') = styled.characters ++ styled'.characters :=
    flatMap_append
  refine ⟨?_, fun {rest rest'} further => ?_⟩
  · rw [both, mem_append, not_or]
    exact ⟨first.free, second.free⟩
  · rw [both, append_assoc, String.toList_append, append_assoc]
    exact first.closesUp (second.closesUp further)

theorem flatMap {α : Type} {items : List α} {spans : α → Styled} {texts : α → String}
    (each : ∀ item ∈ items, Agrees (spans item) (texts item)) :
    Agrees (items.flatMap spans) (String.join (items.map texts)) := by
  induction items with
  | nil => exact ⟨not_mem_nil, id⟩
  | cons item items ih =>
    obtain ⟨here, later⟩ := forall_mem_cons.mp each
    rw [flatMap_cons, map_cons, String.join_cons]
    exact here.append (ih later)

/-- A line of its own. -/
theorem of_line (spans : styled.characters = padded ++ ['\n']) (plain : text.toList = line ++ ['\n'])
    (free : '\x1b' ∉ padded) (closesUp : ClosesUp padded line) : Agrees styled text := by
  refine ⟨?_, fun {rest rest'} further => ?_⟩
  · rw [spans, mem_append, not_or]
    exact ⟨free, by decide⟩
  · rw [spans, plain, append_assoc, append_assoc]
    exact closesUp.append further

/-- A line without four blanks in a row. -/
theorem of_calm (spans : styled.characters = line ++ ['\n']) (plain : text.toList = line ++ ['\n'])
    (isCalm : calm 0 line = true) : Agrees styled text :=
  .of_line spans plain (escape_notMem_of_calm isCalm) (closesUp_of_calm isCalm)

end Agrees

namespace Instruction

variable {instruction : Instruction}

/-- The operand of an instruction, if it has one, is the rest of its line. -/
def operandText (instruction : Instruction) : List Char := (instruction.operand.text?.getD "").toList

theorem suffix_operand (notLabel : instruction.isLabel = false) : instruction.operand.suffix =
    if instruction.mnemonic.toList ∈ mnemonics then ' ' :: instruction.operandText
    else instruction.operandText := by
  have takes : instruction.mnemonic.toList ∈ mnemonics ↔ instruction.operand.text?.isSome = true := by
    rw [mnemonics, mem_map_of_injective fun _ _ => String.toList_injective]
    cases instruction with
    | label place => cases notLabel
    | _ => simp [mnemonic, operand, Operand.text?]
  unfold Operand.suffix operandText
  generalize instruction.operand.text? = text? at takes ⊢
  cases text? with
  | none => exact (if_neg fun among => Bool.false_ne_true (takes.mp among)).symm
  | some text => exact (if_pos (takes.mpr rfl)).symm

/-- Mnemonics are shorter than their column. -/
theorem characters_styled (notLabel : instruction.isLabel = false) :
    ∃ count, instruction.styled.characters = indent ++ (instruction.mnemonic.toList ++
      (List.replicate (count + 1) ' ' ++ instruction.operandText)) := by
  have spans : instruction.styled.characters = "    ".toList ++
      ((padRight 8 instruction.mnemonic).toList ++ (instruction.operandText ++ [])) := by
    cases instruction with
    | label place => cases notLabel
    | _ => rfl
  have indented : "    ".toList = indent := by decide
  -- so at least one blank stands behind a mnemonic
  have short : instruction.mnemonic.length ≤ 7 := by
    cases instruction <;> rw [mnemonic] <;> decide +kernel
  have width : 8 - instruction.mnemonic.length = 7 - instruction.mnemonic.length + 1 := by omega
  refine ⟨7 - instruction.mnemonic.length, ?_⟩
  rw [spans, indented, padRight, width, String.toList_append, String.toList_ofList, append_assoc,
    append_nil]

theorem visible_mnemonic (instruction : Instruction) : Visible instruction.mnemonic := by
  cases instruction <;> rw [mnemonic] <;> decide +kernel

variable (tidy : ∀ name ∈ instruction.names, Tidy name.toList)

include tidy

theorem tidy_operandText : Tidy instruction.operandText := by
  have free {c : Char} (hidden : ¬ ' ' < c) (names : ∀ name ∈ instruction.names, c ∉ name.toList) :
      c ∉ instruction.operandText := by
    unfold operandText
    cases written : instruction.operand.text? with
    | none => exact not_mem_nil
    | some text => exact Operand.notMem_of_text? hidden (instruction.names_operand ▸ names) written
  exact ⟨free (by decide) fun name named => (tidy name named).1,
    free (by decide) fun name named => (tidy name named).2⟩

/-- The padded line of an instruction agrees with its plain line. -/
theorem agrees : Agrees (instruction.styled ++ [plain "\n"]) instruction.line := by
  have spans : characters (instruction.styled ++ [plain "\n"]) =
      instruction.styled.characters ++ ['\n'] := flatMap_append
  rw [line_eq]
  cases shape : instruction.isLabel with
  | true =>
    obtain ⟨place, rfl, text⟩ := exists_label shape
    have characters : (label place).styled.characters = place.name.toList ++ [':'] := by
      simp [styled, coloured, characters]
    rw [characters] at spans
    refine .of_calm spans ?_ (calm_append (tidy place.name mem_cons_self) rfl)
    rw [String.toList_append, text]
    rfl
  | false =>
    obtain ⟨count, characters⟩ := characters_styled shape
    have operand := tidy_operandText tidy
    rw [characters] at spans
    refine .of_line spans ?_ ?_ (closesUp_instruction instruction.visible_mnemonic operand count)
    · rw [String.toList_append, toList_lineText shape, suffix_operand shape]
      rfl
    · simp [indent, operand.2, instruction.visible_mnemonic.notMem]

end Instruction

/-- The styled listing of a method agrees with the plain one. -/
theorem MethodCode.agrees {method : MethodCode} (tidy : ∀ name ∈ method.names, Tidy name.toList) :
    Agrees method.styledListing method.listing := by
  obtain ⟨name, others⟩ := forall_mem_cons.mp tidy
  obtain ⟨params, others⟩ := forall_mem_append.mp others
  obtain ⟨slots, code⟩ := forall_mem_append.mp others
  have entries : calm 1 ((commaSeparated (method.slots.mapIdx fun slot name =>
      toString slot ++ ": " ++ name)).toList ++ [']']) = true := by
    refine calm_commaSeparated (fun text mem rest isCalm => ?_) rfl
    obtain ⟨slot, bound, rfl⟩ := mem_mapIdx.mp mem
    rw [String.toList_append, String.toList_append, append_assoc, append_assoc]
    have number := visible_toString slot
    refine calm_append ⟨number.notMem (by decide), number.notMem (by decide)⟩ ?_
    exact calm_before (by decide +kernel) (calm_append (slots _ (getElem_mem bound)) isCalm)
  unfold styledListing listing slotsText
  generalize commaSeparated (method.slots.mapIdx _) = slotEntries at entries ⊢
  have isCalm : calm 0 ("  .method ".toList ++ (method.name.toList ++ ("(".toList ++
      ((commaSeparated method.params).toList ++ (")\n  .locals [".toList ++
      (slotEntries.toList ++ [']'])))))) = true := by
    refine calm_before (by decide +kernel) (calm_append name (calm_before (by decide +kernel) ?_))
    refine calm_commaSeparated (fun text mem _ => calm_append (params text mem)) ?_
    exact calm_before (by decide +kernel) entries
  refine .append (.of_calm ?_ ?_ isCalm) (.flatMap fun instruction mem => ?_)
  · simp [characters, plain, coloured]
  · simp
  · exact Instruction.agrees fun name named =>
      code name (mem_flatMap.mpr ⟨instruction, mem, named⟩)

/-- The styled listing of a class agrees with the plain one. -/
theorem ClassCode.agrees {decl : ClassCode} (tidy : ∀ name ∈ decl.names, Tidy name.toList) :
    Agrees decl.styledListing decl.listing := by
  obtain ⟨name, others⟩ := forall_mem_cons.mp tidy
  obtain ⟨base, others⟩ := forall_mem_append.mp others
  obtain ⟨fields, methods⟩ := forall_mem_append.mp others
  unfold styledListing listing
  refine .append (.append ?_ (.flatMap fun field mem => ?_)) (.flatMap fun method mem => ?_)
  · cases extended : decl.base with
    | none =>
      have isCalm : calm 0 (".class ".toList ++ (decl.name.toList ++ [])) = true :=
        calm_before (by decide +kernel) (calm_append name rfl)
      exact .of_calm (by simp [characters, plain, coloured, bold]) (by simp) isCalm
    | some parent =>
      have isCalm : calm 0 (".class ".toList ++ (decl.name.toList ++ (" extends ".toList ++
          (parent.toList ++ [])))) = true := by
        refine calm_before (by decide +kernel) (calm_append name (calm_before (by decide +kernel) ?_))
        exact calm_append (base parent (extended ▸ mem_singleton_self _)) rfl
      exact .of_calm (by simp [characters, plain, coloured, bold]) (by simp) isCalm
  · have isCalm : calm 0 ("  .field ".toList ++ (field.toList ++ [])) = true :=
      calm_before (by decide +kernel) (calm_append (fields field mem) rfl)
    exact .of_calm (by simp [characters, plain, coloured]) (by simp) isCalm
  · exact MethodCode.agrees fun name named =>
      methods name (mem_flatMap.mpr ⟨method, mem, named⟩)

/-- **Plain and styled listings say the same.** If no name of a program has blanks or escape
characters, then its styled listing without control sequences, and with each line of an instruction
closed up, is its plain listing, line for line. -/
theorem Artifact.closesUp_styledListing (artifact : Artifact)
    (tidy : ∀ name ∈ artifact.entry :: artifact.names, ' ' ∉ name.toList ∧ '\x1b' ∉ name.toList) :
    ((withoutControls false artifact.styledListing.render.toList).splitOn '\n').map closeUpLine =
      artifact.listing.toList.splitOn '\n' := by
  obtain ⟨entry, names⟩ := forall_mem_cons.mp tidy
  have classes : Agrees (artifact.classes.flatMap ClassCode.styledListing)
      (String.join (artifact.classes.map ClassCode.listing)) :=
    .flatMap fun decl mem => ClassCode.agrees fun name named =>
      names name (mem_flatMap.mpr ⟨decl, mem, named⟩)
  have last : Agrees [bold .magenta ".entry", plain " ", coloured .green artifact.entry, plain "\n"]
      (".entry " ++ artifact.entry ++ "\n") := by
    have isCalm : calm 0 (".entry ".toList ++ (artifact.entry.toList ++ [])) = true := by
      change calm 1 (artifact.entry.toList ++ _) = true
      exact calm_append entry rfl
    exact .of_calm (by simp [Styled.characters, plain, coloured, bold]) (by simp) isCalm
  have all : Agrees artifact.styledListing artifact.listing := by
    rw [listing, String.append_assoc, String.append_assoc]
    rw [String.append_assoc] at last
    exact classes.append last
  have nothing : ClosesUp [] [] := rfl
  have lines := all.closesUp nothing
  rw [append_nil, append_nil] at lines
  rw [Styled.render, withoutControls_renderAfter all.free]
  exact lines

/-- The listing of a class with a base closes up, with a name that is not plain in it. -/
theorem Artifact.closesUp_styledListing_derived :
    let artifact : Artifact :=
      ⟨[⟨"Shape", none, ["é"], []⟩,
        ⟨"Cell", some "Shape", ["x"], [⟨"m_é", ["a", "b"], ["i", "j"],
          [.label ⟨"L0000"⟩, .loadThis, .loadField "Cell" "x", .const (.real 2.5),
            .call "Cell.x" 2, .jumpIfFalse ⟨"L0000"⟩, .ret]⟩]⟩], "Cell.m_é"⟩
    (∀ name ∈ artifact.entry :: artifact.names, ' ' ∉ name.toList ∧ '\x1b' ∉ name.toList) ∧
      ((withoutControls false artifact.styledListing.render.toList).splitOn '\n').map closeUpLine =
        artifact.listing.toList.splitOn '\n' := by
  have tidy : ∀ name ∈ ["Cell.m_é", "Shape", "é", "Cell", "Shape", "x", "m_é", "a", "b", "i", "j",
      "L0000", "Cell", "x", "Cell.x", "L0000"], ' ' ∉ name.toList ∧ '\x1b' ∉ name.toList := by
    decide
  exact ⟨tidy, Artifact.closesUp_styledListing _ tidy⟩

end ClassLang
