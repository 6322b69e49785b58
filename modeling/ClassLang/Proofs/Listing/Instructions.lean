import ClassLang.Machine.Listing
import ClassLang.Proofs.Doubles
import ClassLang.Proofs.Listing.Words

/-! # Instructions in a listing

An instruction is determined by its line. A label starts with a word, all else with blanks; the
mnemonic behind them is a word, and tells which shape the operand has. Operands of one shape have
different texts. -/

namespace ClassLang

open Lexeme List

variable {instruction : Instruction}

/-! ## Operands -/

/-- What an instruction works on. -/
inductive Operand where
  | nothing
  | constant (value : Constant)
  | slot (number : Nat)
  | field (owner name : String)
  | target (label : Label)
  | routine (name : String) (count : Nat)

namespace Operand

/-- The text of an operand, if there is one. -/
def text? : Operand → Option String
  | nothing => none
  | constant value => some value.text
  | slot number => some (toString number)
  | field owner name => some (owner ++ "::" ++ name)
  | target label => some label.name
  | routine name count => some (name ++ "/" ++ toString count)

/-- The names in an operand. -/
def names : Operand → List String
  | field owner name => [owner, name]
  | target label => [label.name]
  | routine name _ => [name]
  | _ => []

/-- The characters behind a mnemonic. -/
def suffix (operand : Operand) : List Char :=
  match operand.text? with
  | some text => ' ' :: text.toList
  | none => []

/-- Numbers have different texts. -/
theorem toString_inj {first second : Nat}
    (same : (toString first).toList = (toString second).toList) : first = second := by
  have digits : Nat.toDigits 10 first = Nat.toDigits 10 second :=
    (Decimal.toList_toString_ofNat first).symm.trans
      (same.trans (Decimal.toList_toString_ofNat second))
  rw [← Decimal.valueOf_toDigits first, digits, Decimal.valueOf_toDigits]

/-- Operands of one shape have different texts. -/
theorem suffix_inj {first second : Operand} (shape : first.ctorIdx = second.ctorIdx)
    (words : ∀ name ∈ first.names, IsWord name) (words' : ∀ name ∈ second.names, IsWord name)
    (same : first.suffix = second.suffix) : first = second := by
  cases first with
  | nothing =>
    cases second with
    | nothing => rfl
    | _ => cases shape
  | constant value =>
    cases second with
    | constant value' =>
      have text := String.toList_inj.mp (cons.inj same).2
      rw [Constant.text_inj text]
    | _ => cases shape
  | slot number =>
    cases second with
    | slot number' => rw [toString_inj (cons.inj same).2]
    | _ => cases shape
  | field owner name =>
    cases second with
    | field owner' name' =>
      obtain ⟨ownerWord, -⟩ := forall_mem_cons.mp words
      obtain ⟨ownerWord', -⟩ := forall_mem_cons.mp words'
      have text := (cons.inj same).2
      simp only [String.toList_append, append_assoc] at text
      obtain ⟨rfl, rest⟩ := ownerWord.append_cons_inj ownerWord' (by decide) text
      rw [String.toList_inj.mp (cons.inj rest).2]
    | _ => cases shape
  | target label =>
    cases second with
    | target label' =>
      have text := String.toList_inj.mp (cons.inj same).2
      exact congrArg target (congrArg Label.mk text)
    | _ => cases shape
  | routine name count =>
    cases second with
    | routine name' count' =>
      obtain ⟨word, -⟩ := forall_mem_cons.mp words
      obtain ⟨word', -⟩ := forall_mem_cons.mp words'
      have text := (cons.inj same).2
      simp only [String.toList_append, append_assoc] at text
      obtain ⟨rfl, rest⟩ := word.append_cons_inj word' (by decide) text
      rw [toString_inj rest]
    | _ => cases shape

end Operand

/-! ## Instructions -/

namespace Instruction

/-- The operand of an instruction. -/
def operand : Instruction → Operand
  | const value => .constant value
  | loadLocal slot | storeLocal slot => .slot slot
  | loadField owner field | storeField owner field => .field owner field
  | label place | jump place | jumpIfFalse place => .target place
  | call routine count => .routine routine count
  | _ => .nothing

/-- The instruction with a mnemonic and an operand. -/
def assemble? : String → Operand → Option Instruction
  | "ldc", .constant value => some (const value)
  | "ldloc", .slot slot => some (loadLocal slot)
  | "stloc", .slot slot => some (storeLocal slot)
  | "ldthis", .nothing => some loadThis
  | "ldfld", .field owner field => some (loadField owner field)
  | "stfld", .field owner field => some (storeField owner field)
  | "add", .nothing => some add
  | "sub", .nothing => some sub
  | "mul", .nothing => some mul
  | "rem", .nothing => some rem
  | "div", .nothing => some div
  | "ceq", .nothing => some eq
  | "cgt", .nothing => some gt
  | "clt", .nothing => some lt
  | "and", .nothing => some and
  | "or", .nothing => some or
  | "xor", .nothing => some xor
  | "widen", .nothing => some widen
  | "narrow", .nothing => some narrow
  | "label", .target place => some (label place)
  | "br", .target target => some (jump target)
  | "brfalse", .target target => some (jumpIfFalse target)
  | "call", .routine routine count => some (call routine count)
  | "pop", .nothing => some pop
  | "ret", .nothing => some ret
  | _, _ => none

theorem assemble?_mnemonic (instruction : Instruction) :
    assemble? instruction.mnemonic instruction.operand = some instruction := by
  cases instruction <;> rfl

/-- The shape of the operand that goes with a mnemonic. -/
def shapeFor (mnemonic : String) : Nat :=
  if mnemonic = "ldc" then 1
  else if mnemonic ∈ ["ldloc", "stloc"] then 2
  else if mnemonic ∈ ["ldfld", "stfld"] then 3
  else if mnemonic ∈ ["label", "br", "brfalse"] then 4
  else if mnemonic = "call" then 5
  else 0

theorem shapeFor_mnemonic (instruction : Instruction) :
    shapeFor instruction.mnemonic = instruction.operand.ctorIdx := by
  cases instruction <;> rfl

theorem names_operand (instruction : Instruction) :
    instruction.operand.names = instruction.names := by
  cases instruction <;> rfl

theorem isWord_mnemonic (instruction : Instruction) : IsWord instruction.mnemonic := by
  cases instruction <;> rw [mnemonic] <;> exact .of_all (by decide +kernel) (by decide +kernel)

/-- Whether an instruction is a place that jumps go to. -/
def isLabel : Instruction → Bool
  | label _ => true
  | _ => false

/-- The line of an instruction without the newline. -/
def lineText : Instruction → String
  | label place => place.name ++ ":"
  | instruction => "    " ++ instruction.text

theorem line_eq (instruction : Instruction) : instruction.line = instruction.lineText ++ "\n" := by
  cases instruction <;> rfl

/-- An instruction other than a label is written as four blanks, the mnemonic and the operand. -/
theorem toList_lineText (notLabel : instruction.isLabel = false) :
    instruction.lineText.toList = [' ', ' ', ' ', ' '] ++
      (instruction.mnemonic.toList ++ instruction.operand.suffix) := by
  have text : instruction.lineText = "    " ++ instruction.operand.text?.elim instruction.mnemonic
      (instruction.mnemonic ++ " " ++ ·) := by
    cases instruction with
    | label place => cases notLabel
    | _ => rfl
  have indented : "    ".toList = [' ', ' ', ' ', ' '] := by decide
  rw [text, String.toList_append, indented, Operand.suffix]
  cases instruction.operand.text? with
  | none => rw [Option.elim_none, append_nil]
  | some operand =>
    rw [Option.elim_some, String.toList_append, String.toList_append, append_assoc]
    rfl

/-- A label starts with its name, and ends with a colon. -/
theorem exists_label (isLabel : instruction.isLabel = true) :
    ∃ place, instruction = label place ∧
      instruction.lineText.toList = place.name.toList ++ [':'] := by
  cases instruction with
  | label place => exact ⟨place, rfl, String.toList_append⟩
  | _ => cases isLabel

/-- The line of an instruction starts with a word or with a blank. -/
theorem lineText_cases (words : ∀ name ∈ instruction.names, IsWord name) :
    ∃ c rest, instruction.lineText.toList = c :: rest ∧
      if instruction.isLabel then isWordStart c = true
      else c :: rest.take 3 = [' ', ' ', ' ', ' '] := by
  cases shape : instruction.isLabel with
  | true =>
    obtain ⟨place, rfl, text⟩ := exists_label shape
    obtain ⟨c, parts, spelling, start, -⟩ := words place.name mem_cons_self
    rw [spelling] at text
    exact ⟨c, _, text, start⟩
  | false => exact ⟨' ', _, toList_lineText shape, rfl⟩

/-- Instructions have different lines. -/
theorem lineText_inj {first second : Instruction} (words : ∀ name ∈ first.names, IsWord name)
    (words' : ∀ name ∈ second.names, IsWord name) (same : first.lineText = second.lineText) :
    first = second := by
  obtain ⟨c, rest, text, start⟩ := lineText_cases words
  obtain ⟨c', rest', text', start'⟩ := lineText_cases words'
  have characters := congrArg String.toList same
  obtain ⟨rfl, rfl⟩ := cons.inj (text.symm.trans (characters.trans text'))
  -- a blank does not start a word, so both are labels or neither is
  have blank : isWordStart ' ' = false := by decide
  cases shape : first.isLabel with
  | true =>
    cases shape' : second.isLabel with
    | true =>
      obtain ⟨place, rfl, named⟩ := exists_label shape
      obtain ⟨place', rfl, named'⟩ := exists_label shape'
      rw [named, named'] at characters
      have names := String.toList_inj.mp (append_cancel_right characters)
      exact congrArg label (congrArg Label.mk names)
    | false =>
      rw [shape, if_pos rfl] at start
      rw [shape', if_neg Bool.false_ne_true] at start'
      rw [(cons.inj start').1, blank] at start
      cases start
  | false =>
    cases shape' : second.isLabel with
    | true =>
      rw [shape, if_neg Bool.false_ne_true] at start
      rw [shape', if_pos rfl] at start'
      rw [(cons.inj start).1, blank] at start'
      cases start'
    | false =>
      rw [toList_lineText shape, toList_lineText shape'] at characters
      have stop (operand : Operand) : ∀ c ∈ operand.suffix.head?, isWordPart c = false := by
        unfold Operand.suffix
        split
        · rintro _ ⟨⟩
          decide
        · nofun
      obtain ⟨mnemonic, suffix⟩ := first.isWord_mnemonic.append_inj second.isWord_mnemonic
        (stop _) (stop _) (append_cancel_left characters)
      have shapes : first.operand.ctorIdx = second.operand.ctorIdx := by
        rw [← shapeFor_mnemonic, mnemonic, shapeFor_mnemonic]
      have operand := Operand.suffix_inj shapes (first.names_operand ▸ words)
        (second.names_operand ▸ words') suffix
      have assembled := first.assemble?_mnemonic
      rw [mnemonic, operand, assemble?_mnemonic] at assembled
      exact (Option.some.inj assembled).symm

end Instruction

/-! ## Numbers and constants are visible -/

theorem visible_toString (number : Nat) : Visible (toString number) := by
  intro c mem
  have digits : (toString number).toList = Nat.toDigits 10 number :=
    Decimal.toList_toString_ofNat number
  rw [digits] at mem
  exact blank_lt_of_isDigit (Decimal.isDigit_toDigits number c mem)

theorem Constant.visible_realText (value : Float) : Visible (realText value) := by
  by_cases undefined : value.isNaN = true
  · rw [realText, if_pos undefined]
    decide
  rw [realText_of_defined (Bool.eq_false_iff.mpr undefined), visible_append]
  constructor
  · split <;> decide
  · by_cases infinite : value.toBits.toNat % Double.signBit = Double.infinityBits
    · rw [infinite]
      decide
    · have bounded := Nat.mod_lt value.toBits.toNat (by decide : 0 < Double.signBit)
      exact (isNumber_magnitudeText bounded infinite).visible

theorem Constant.visible_text (constant : Constant) : Visible constant.text := by
  cases constant with
  | int value =>
    cases value with
    | ofNat magnitude => exact visible_toString magnitude
    | negSucc magnitude =>
      intro c mem
      rw [Constant.text, Decimal.toList_toString_negSucc, mem_cons] at mem
      rcases mem with rfl | digit
      · decide
      · exact blank_lt_of_isDigit (Decimal.isDigit_toDigits _ c digit)
  | real value => exact visible_realText value
  | bool value => cases value <;> decide

/-- A character that is not visible stands in the text of an operand only if it stands in a name. -/
theorem Operand.notMem_of_text? {operand : Operand} {text : String} {c : Char} (hidden : ¬ ' ' < c)
    (free : ∀ name ∈ operand.names, c ∉ name.toList) (written : operand.text? = some text) :
    c ∉ text.toList := by
  have marks : Visible "::" ∧ Visible "/" := by decide
  cases operand with
  | nothing => cases written
  | constant value =>
    cases written
    exact value.visible_text.notMem hidden
  | slot number =>
    cases written
    exact (visible_toString number).notMem hidden
  | field owner name =>
    cases written
    obtain ⟨inOwner, others⟩ := forall_mem_cons.mp free
    simp only [String.toList_append, mem_append, not_or]
    exact ⟨⟨inOwner, marks.1.notMem hidden⟩, others name mem_cons_self⟩
  | target label =>
    cases written
    exact free label.name mem_cons_self
  | routine name count =>
    cases written
    simp only [String.toList_append, mem_append, not_or]
    exact ⟨⟨free name mem_cons_self, marks.2.notMem hidden⟩,
      (visible_toString count).notMem hidden⟩

/-- The line of an instruction is one line. -/
theorem Instruction.flat_lineText (words : ∀ name ∈ instruction.names, IsWord name) :
    Flat instruction.lineText := by
  cases shape : instruction.isLabel with
  | true =>
    obtain ⟨place, rfl, -⟩ := exists_label shape
    exact flat_append.mpr ⟨(words place.name mem_cons_self).flat, by decide⟩
  | false =>
    unfold Flat
    rw [toList_lineText shape, mem_append, mem_append, not_or, not_or]
    refine ⟨by decide, instruction.isWord_mnemonic.flat, ?_⟩
    unfold Operand.suffix
    split
    · next text written =>
        have flat := Operand.notMem_of_text? (by decide) (fun name named =>
          (words name (instruction.names_operand ▸ named)).flat) written
        rw [mem_cons, not_or]
        exact ⟨by decide, flat⟩
    · nofun

end ClassLang
