import ClassLang.Proofs.Lowering.Simplified
import ClassLang.Proofs.Printing.Simplified

/-! # Literals that are refused

The scanner finds only numbers that denote values, but for integers beyond 64 bits. What simplification
computes denotes a value, too. So these integers are all that lowering can refuse as literals in a
program that was read. -/

namespace ClassLang

open Lexeme Stmt Constant List

variable {text : String}

/-! ## Literals without a value -/

/-- An integer that the scanner finds consists of digits. -/
theorem Lexeme.IsNumber.isDigits (isNumber : IsNumber .integer text) : IsDigits text.toList := by
  obtain ⟨whole, point, exponent, spelling, isWhole, -, -, kind⟩ := isNumber
  by_cases none : point = [] ∧ exponent = []
  · obtain ⟨rfl, rfl⟩ := none
    rw [spelling, append_nil, append_nil]
    exact isWhole
  · rw [if_neg none] at kind
    cases kind

theorem Lexeme.IsNumber.isSome_realOfText? (isNumber : IsNumber .real text) :
    (realOfText? text).isSome = true := by
  have read := isSome_realOfText?_of_isNumber (.inl rfl) isNumber
  rwa [String.empty_append] at read

/-- Digits denote a value unless it is beyond 64 bits. -/
theorem Lexeme.IsDigits.maxInt_lt (isDigits : IsDigits text.toList)
    (refused : intOfText? text = none) : maxInt < Decimal.valueOf text.toList := by
  have read : Decimal.integer? text.toList = some (Decimal.valueOf text.toList : Int) := by
    have spells : text.toList ≠ [] ∧ text.toList.all Char.isDigit = true :=
      ⟨isDigits.1, all_eq_true.mpr isDigits.2⟩
    rw [Decimal.integer?, Decimal.splitSign_of_isDigit isDigits.2]
    simp only [if_pos spells, Bool.false_eq_true, if_false]
  rw [intOfText?, read, Option.bind_some, fitting?] at refused
  split at refused
  · cases refused
  · next beyond =>
      rw [minInt] at beyond
      omega

/-- Of the names and numbers that the scanner finds, only integers beyond 64 bits denote no value. -/
theorem Word.IsFound.of_isRefused {kind : Kind} (found : Word.IsFound (kind, text))
    (refused : Word.isRefused (kind, text) = true) :
    kind = .integer ∧ IsDigits text.toList ∧ maxInt < Decimal.valueOf text.toList := by
  cases kind with
  | integer =>
    have isDigits : IsDigits text.toList := IsNumber.isDigits found
    exact ⟨rfl, isDigits, isDigits.maxInt_lt (Option.isNone_iff_eq_none.mp refused)⟩
  | real =>
    have read : (realOfText? text).isSome = true := IsNumber.isSome_realOfText? found
    rw [Word.isRefused, Option.isNone_iff_eq_none] at refused
    rw [refused] at read
    cases read
  | _ => cases refused

/-- Numbers that are computed denote values. -/
theorem Word.IsComputed.isRefused_eq {spelling : Kind × String} (computed : Word.IsComputed spelling) :
    Word.isRefused spelling = false := by
  obtain ⟨op, left, right, result, position, computed, inside⟩ := computed
  have read := isSome_ofExpr?_toExpr (inRange_of_binary? computed) position
  cases result with
  | bool value => cases inside
  | int value | real value =>
    rw [mem_singleton.mp inside, Word.isRefused]
    rwa [toExpr, ofExpr?, Option.isSome_map, Option.isSome_iff_ne_none, ne_eq,
      ← Option.isNone_iff_eq_none, Bool.not_eq_true] at read

/-! ## Where lowering refuses literals -/

/-- A fault about a literal is about one of these that denotes no value. -/
def Fault.Refuses (spellings : List (Kind × String)) (fault : Fault) : Prop :=
  ∀ text, fault.cause = .invalidLiteral text →
    ∃ kind, (kind, text) ∈ spellings ∧ Word.isRefused (kind, text) = true

/-- More names and numbers do not matter. -/
theorem Fails.moreSpellings {α : Type} {computation : Except Fault α}
    {spellings more : List (Kind × String)} (fails : Fails computation (Fault.Refuses spellings))
    (inside : spellings ⊆ more) : Fails computation (Fault.Refuses more) := by
  refine fails.mono fun fault refuses text cause => ?_
  obtain ⟨kind, mem, refused⟩ := refuses text cause
  exact ⟨kind, inside mem, refused⟩

/-- Computations in a row refuse no literals but those of each. -/
theorem Fails.bind_append {α β : Type} {computation : Except Fault α} {next : α → Except Fault β}
    {spellings more : List (Kind × String)} (first : Fails computation (Fault.Refuses spellings))
    (second : ∀ value, Fails (next value) (Fault.Refuses more)) :
    Fails (computation >>= next) (Fault.Refuses (spellings ++ more)) :=
  (first.moreSpellings (subset_append_left _ _)).bind fun value _ =>
    (second value).moreSpellings (subset_append_right _ _)

theorem Expr.refuses_lower (frame : Frame) (expr : Expr) :
    Fails (expr.lower frame) (Fault.Refuses expr.spellings) := by
  refine (expr.ofExpr_lower frame).mono fun fault ofExpr text cause => ?_
  rwa [Fault.OfExpr, cause] at ofExpr

/-- Lowering an assignment refuses no literals but those of its value. -/
theorem Frame.refuses_assignCode (frame : Frame) (target value : Expr) :
    Fails (frame.assignCode target value) (Fault.Refuses value.spellings) := by
  unfold Frame.assignCode
  split
  · refine (value.refuses_lower frame).bind fun _ _ => ?_
    split
    · exact .ok _
    · exact .ok _
    · exact .error nofun
  · exact .error nofun

mutual

/-- Lowering a statement refuses no literals but its own. -/
theorem Stmt.refuses_lower (exit? : Option Label) (emitter : Emitter) (stmt : Stmt) :
    Fails (stmt.lower exit? emitter) (Fault.Refuses stmt.spellings) := by
  cases stmt with
  | declare name value =>
    rw [lower]
    exact ((value.refuses_lower _).moreSpellings (subset_cons_self _ _)).bind_pure
  | ret value | eval value =>
    rw [lower]
    exact (value.refuses_lower _).bind_pure
  | assign target value =>
    rw [lower]
    exact ((emitter.frame.refuses_assignCode target value).moreSpellings
      (subset_append_right _ _)).bind_pure
  | branch test body alternative =>
    have tested := test.refuses_lower emitter.frame
    cases alternative with
    | none =>
      rw [lower]
      exact tested.bind_append fun _ => (refuses_lowerBlock exit? _ body).bind_pure
    | some alternative =>
      rw [lower]
      exact tested.bind_append fun _ => (refuses_lowerBlock exit? _ body).bind_append fun _ =>
        (refuses_lowerBlock exit? _ alternative).bind_pure
  | loop test body =>
    rw [lower]
    exact (test.refuses_lower emitter.frame).bind_append fun _ =>
      (refuses_lowerBlock _ _ body).bind_pure
  | leave =>
    cases exit? with
    | none => exact .error nofun
    | some endLabel => exact .ok _

theorem Stmt.refuses_lowerBlock (exit? : Option Label) (emitter : Emitter) (block : List Stmt) :
    Fails (lowerBlock exit? emitter block) (Fault.Refuses (blockSpellings block)) := by
  cases block with
  | nil => exact .ok _
  | cons stmt rest =>
    rw [lowerBlock]
    exact (stmt.refuses_lower exit? emitter).bind_append fun _ =>
      (refuses_lowerBlock exit? _ rest).bind_pure

end

/-- The names and numbers in what is lowered of a class are among those of the class. -/
theorem ClassDecl.Lowers.blockSpellings_subset {decl : ClassDecl} {params : List Param}
    {block : List Stmt} (lowers : decl.Lowers params block) :
    blockSpellings block ⊆ decl.spellings := by
  cases lowers with
  | @field field owned =>
    have inMember : field.init.spellings ⊆ (Member.field field).spellings := subset_cons_self _ _
    rw [blockSpellings, spellings, blockSpellings, append_nil]
    exact Subset.trans inMember
      (ClassDecl.spellings_member_subset (ClassDecl.mem_fields.mp owned))
  | init =>
    exact Subset.trans (subset_append_left _ _)
      (Subset.trans (subset_append_right _ _) (subset_cons_self _ _))
  | @method method owned =>
    have inMember : blockSpellings method.body ⊆ (Member.method method).spellings :=
      Subset.trans (subset_append_right _ _)
        (Subset.trans (subset_append_right _ _) (subset_cons_self _ _))
    exact Subset.trans inMember
      (ClassDecl.spellings_member_subset (ClassDecl.mem_methods.mp owned))

namespace Program

/-- Lowering a program refuses no literals but its own. -/
theorem refuses_lower (program : Program) :
    Fails program.lower (Fault.Refuses program.spellings) := by
  intro fault failure
  obtain ⟨decl, before, after, low, classes, -, failure⟩ := exists_stopsIn fault failure
  obtain ⟨params, block, low, lowers, failure⟩ := ClassDecl.inClass_lower fault failure
  refine (refuses_lowerBlock none _ block).moreSpellings ?_ fault failure
  have owned : decl ∈ program.classes := by simp [classes]
  intro spelling inside
  exact mem_flatMap.mpr ⟨decl, owned, lowers.blockSpellings_subset inside⟩

/-! ## Programs that were read -/

/-- Integers that are found are digits, and all other numbers denote doubles. So the literals that
lowering refuses in a program that was read, simplified or not, are integers of the program beyond 64
bits. -/
theorem maxInt_lt_of_invalidLiteral (source : String) :
    (∀ token ∈ Token.scan source,
      (token.kind = .integer → IsDigits token.text.toList) ∧
        (token.kind = .real → (realOfText? token.text).isSome = true)) ∧
    ∀ program, ofText source = .ok program →
      ∀ subject ∈ [program, program.simplify], ∀ text position,
        subject.lower = .error ⟨.invalidLiteral text, position⟩ →
          IsDigits text.toList ∧ maxInt < Decimal.valueOf text.toList ∧
            (Kind.integer, text) ∈ program.spellings := by
  refine ⟨fun token mem => ?_, fun program read subject among text position failure => ?_⟩
  · have lexical := Scanner.lexical_of_mem_tokens mem
    refine ⟨fun (kind : token.word.kind = .integer) => ?_, fun (kind : token.word.kind = .real) => ?_⟩
    · rw [Word.Lexical, kind] at lexical
      exact Lexeme.IsNumber.isDigits lexical
    · rw [Word.Lexical, kind] at lexical
      exact Lexeme.IsNumber.isSome_realOfText? lexical
  have ofProgram : ∀ spelling ∈ subject.spellings,
      Word.isRefused spelling = true → spelling ∈ program.spellings := by
    rcases List.mem_pair.mp among with rfl | rfl
    · exact fun spelling mem _ => mem
    · refine forall_spellings_simplify ?_ fun spelling mem _ => mem
      intro spelling computed refused
      rw [computed.isRefused_eq] at refused
      cases refused
  obtain ⟨kind, mem, refused⟩ := subject.refuses_lower _ failure text rfl
  have inside := ofProgram _ mem refused
  obtain ⟨rfl, isDigits, beyond⟩ := (isFound_of_ofText read _ inside).of_isRefused refused
  exact ⟨isDigits, beyond, inside⟩

/-- The first integer beyond 64 bits is refused in a difference with a double. -/
theorem maxInt_lt_of_invalidLiteral_difference :
    let program := difference (.real "2.5e1" ⟨1, 20⟩) (.int "9223372036854775808" ⟨1, 28⟩)
    ofText "class A is var x : 2.5e1 - 9223372036854775808 end" = .ok program ∧
      program.simplify.lower = .error ⟨.invalidLiteral "9223372036854775808", ⟨1, 28⟩⟩ ∧
      IsDigits "9223372036854775808".toList ∧
      maxInt < Decimal.valueOf "9223372036854775808".toList ∧
      (Kind.integer, "9223372036854775808") ∈ program.spellings := by
  intro program
  have read : ofText "class A is var x : 2.5e1 - 9223372036854775808 end" = .ok program := by
    decide +kernel
  have failure :
      program.simplify.lower = .error ⟨.invalidLiteral "9223372036854775808", ⟨1, 28⟩⟩ := by
    rfl
  exact ⟨read, failure, (maxInt_lt_of_invalidLiteral _).2 program read _
    (List.mem_cons_of_mem _ (List.mem_singleton_self _)) _ _ failure⟩

end Program

end ClassLang
